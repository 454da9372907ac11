import Mutagenesis.Text.Blank
import Mutagenesis.Text.Word
import Mutagenesis.Text.Cut

/-!
# Templates

A template is source text with named holes, written `:[name]`. `marks` reads a template from left
to right into characters, holes and broken hole openings, and `tokens` groups the marks of a trimmed
template into literals, blanks and holes. `substitute` has a loop of its own, from one `:[` to the
next.
-/

set_option autoImplicit false

namespace Mutagenesis

/-- What can be wrong with a template or its use. -/
inductive TemplateFault where
  /-- A `:[` starts no well-formed hole. -/
  | malformedHole (template : String)
  /-- The template has nothing to match. -/
  | empty
  /-- A hole has no text to put in its place. -/
  | unbound (hole : String)
  deriving DecidableEq, Repr

def TemplateFault.message : TemplateFault → String
  | malformedHole template => s!"malformed hole in template '{template}'"
  | empty => "empty match template"
  | unbound hole => s!"no argument supplied for hole '{hole}'"

namespace Template

/-- What a left-to-right scan of a template meets. -/
inductive Mark where
  /-- A character outside holes. -/
  | plain (c : Char)
  /-- A well-formed hole. -/
  | hole (name : List Char)
  /-- The colon of a `:[` that starts no well-formed hole. -/
  | broken
  deriving DecidableEq, Repr

/-- The name of the hole at the start of a text: `:[`, one or more word characters, `]`. -/
def holeAt? : List Char → Option (List Char)
  | ':' :: '[' :: rest =>
    let name := rest.takeWhile (· != ']')
    if name.length < rest.length ∧ name ≠ [] ∧ name.all Text.isWord then some name else none
  | _ => none

/-- Reads a text into marks, after leaving out its first `skip` characters. -/
def marksFrom : Nat → List Char → List Mark
  | _, [] => []
  | skip + 1, _ :: cs => marksFrom skip cs
  | 0, c :: cs =>
    match holeAt? (c :: cs) with
    | some name => .hole name :: marksFrom (name.length + 2) cs
    | none =>
      if c = ':' ∧ cs.head? = some '[' then .broken :: marksFrom 0 cs
      else .plain c :: marksFrom 0 cs

def marks (template : List Char) : List Mark :=
  marksFrom 0 template

/-- A part of a template, as it is matched. -/
inductive Token where
  | literal (text : List Char)
  | blank
  | hole (name : String)
  deriving DecidableEq, Repr

/-- Puts a character in front of tokens: a blank merges with a blank, any other character with a
literal. -/
def pushChar (c : Char) (tokens : List Token) : List Token :=
  if Text.isBlank c then
    match tokens with
    | .blank :: _ => tokens
    | _ => .blank :: tokens
  else
    match tokens with
    | .literal text :: rest => .literal (c :: text) :: rest
    | _ => .literal [c] :: tokens

def group : List Mark → List Token
  | [] => []
  | .plain c :: rest => pushChar c (group rest)
  | .broken :: rest => pushChar ':' (group rest)
  | .hole name :: rest => .hole (String.ofList name) :: group rest

/-- The tokens of a template: it is trimmed, must hold something, and every `:[` in it has to
start a hole. -/
def tokens (template : List Char) : Except TemplateFault (List Token) :=
  let read := marks (Text.trim template)
  if .broken ∈ read then .error (.malformedHole (String.ofList template))
  else if read.isEmpty then .error .empty
  else .ok (group read)

/-- Instantiates a template after leaving out its first `skip` characters. What stands before the
next `:[` is kept. The bound text takes the place of a hole that starts there; where none starts,
the two characters are kept, and the loop goes on after them. -/
def substituteFrom (bound : String → Option String) :
    Nat → List Char → Except TemplateFault (List Char)
  | _, [] => .ok []
  | skip + 1, _ :: cs => substituteFrom bound skip cs
  | 0, c :: cs =>
    if c = ':' ∧ cs.head? = some '[' then
      match holeAt? (c :: cs) with
      | some name =>
        match bound (String.ofList name) with
        | none => .error (.unbound (String.ofList name))
        | some text => (substituteFrom bound (name.length + 2) cs).map (text.toList ++ ·)
      | none => (substituteFrom bound 1 cs).map (':' :: '[' :: ·)
    else (substituteFrom bound 0 cs).map (c :: ·)

/-- Instantiates a template: every well-formed hole is replaced by the text bound to its name, all
at once. -/
def substitute (template : List Char) (bound : String → Option String) :
    Except TemplateFault (List Char) :=
  substituteFrom bound 0 template

end Template

end Mutagenesis
