import Mutagenesis.Shell.Octets

/-!
# Scripts

The commands of a shell script.
-/

namespace Mutagenesis.Shell

/-- The dialect that a script is written in. In the extended one a variable can hold a list. -/
inductive Dialect where
  | plain
  | extended
  deriving DecidableEq

/-- How the file of a redirection is opened. -/
inductive FileMode where
  | read
  | write
  | overwrite
  | append
  | readWrite
  deriving DecidableEq

mutual

/-- A piece of a word. -/
inductive Piece where
  | text (cs : Octets) (quoted : Bool)
  | parameter (name : Octets) (use : Use) (quoted : Bool)
  | output (body : Command) (quoted : Bool)
  | number (expression : List Piece) (quoted : Bool)
  | item (name : Octets) (index : List Piece) (use : Use) (quoted : Bool)
  | list (items : List (List Piece))

/-- What is made of a parameter. Where a flag `empty` is set, an empty parameter counts as one that
is not set. -/
inductive Use where
  | value
  | length
  | orElse (empty : Bool) (word : List Piece)
  | orAssign (empty : Bool) (word : List Piece)
  | orFail (empty : Bool) (word : List Piece)
  | ifSet (empty : Bool) (word : List Piece)
  | trimStart (longest : Bool) (pattern : List Piece)
  | trimEnd (longest : Bool) (pattern : List Piece)
  | bad

/-- A change of a stream for one command. -/
inductive Redirection where
  | file (stream : Nat) (mode : FileMode) (path : List Piece)
  | copy (stream : Nat) (source : List Piece)
  | document (stream number : Nat)

/-- A command. -/
inductive Command where
  | simple (line : Nat) (assignments : List (Octets × List Piece)) (words : List (List Piece))
      (redirections : List Redirection)
  | pipeline (stages : List Command)
  | background (line : Nat) (body : Command)
  | redirected (line : Nat) (body : Command) (redirections : List Redirection)
  | subshell (line : Nat) (body : Command) (redirections : List Redirection)
  | sequence (first second : Command)
  | both (first second : Command)
  | either (first second : Command)
  | negate (body : Command)
  | choose (condition body : Command) (otherwise : Option Command)
  | repeatWhile (wanted : Bool) (condition body : Command)
  | forEach (line : Nat) (name : Octets) (words : List (List Piece)) (body : Command)
  | select (line : Nat) (word : List Piece)
      (branches : List (List (List Piece) × Option Command))
  | define (name : Octets) (body : Command)
  | nothing

end

instance : Inhabited Command := ⟨.nothing⟩

abbrev Word := List Piece

def Piece.quoted : Piece → Bool
  | .text _ quoted => quoted
  | .parameter _ _ quoted => quoted
  | .output _ quoted => quoted
  | .number _ quoted => quoted
  | .item _ _ _ quoted => quoted
  | .list _ => false

def Piece.characters? : Piece → Option Octets
  | .text cs _ => some cs
  | _ => none

namespace Word

def isQuoted (w : Word) : Bool :=
  w.any Piece.quoted

def characters? (w : Word) : Option Octets :=
  (w.mapM Piece.characters?).map List.flatten

def plain? (w : Word) : Option Octets :=
  if w.isQuoted then none else w.characters?

def joined : Word → Word
  | .text a q :: rest =>
    match joined rest with
    | .text b r :: rest =>
      if q = r then .text (a ++ b) q :: rest else .text a q :: .text b r :: rest
    | rest => .text a q :: rest
  | piece :: rest => piece :: joined rest
  | [] => []

/-- The name and the value of a word that assigns. -/
def assignment? (w : Word) : Option (Octets × Word) :=
  match w with
  | .text cs false :: rest =>
    let name := cs.takeWhile isNameChar
    match isName name, cs.drop name.length with
    | true, ['='] => some (name, rest)
    | true, '=' :: value => some (name, .text value false :: rest)
    | _, _ => none
  | _ => none

end Word

/-- Why a script cannot be read, and the line where that shows. -/
structure ScriptFault where
  line : Nat
  reason : String
  deriving DecidableEq

def ScriptFault.message (fault : ScriptFault) : String :=
  "Syntax error: " ++ fault.reason

end Mutagenesis.Shell
