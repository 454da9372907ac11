import Mutagenesis.Template.Search
import Mutagenesis.SourceText
import Mutagenesis.Bindings

/-!
# Occurrences of a template

`occurrences` walks over a text and lists where a template matches, from left to right and without
overlap. A template that starts or ends with a word does not match inside a longer word, and a
leading hole captures as little as possible. `findMatches` gives each occurrence as a span and the
texts that its holes captured.
-/

set_option autoImplicit false

namespace Mutagenesis

/-- One occurrence of a template: where it stands and what its holes captured. -/
structure Match where
  span : Span
  bindings : Bindings
  deriving DecidableEq, Repr

namespace Template

def startsWithHole : List Token → Bool
  | .hole _ :: _ => true
  | _ => false

def startsWithWord : List Token → Bool
  | .literal text :: _ => text.head?.any Text.isWord
  | _ => false

def endsWithWord (tokens : List Token) : Bool :=
  match tokens.getLast? with
  | some (.literal text) => text.getLast?.any Text.isWord
  | _ => false

/-- Matches a template at the start of a text; one that ends with a word may not be followed by a
word character. -/
def matchHere (tokens : List Token) (cs : List Char) : Option Found :=
  (search tokens cs).filter fun found =>
    !(endsWithWord tokens && (cs.drop found.length).head?.any Text.isWord)

/-- A leading hole can start here: at a character that is not blank, after none, a blank, or a
character that ends no term. -/
def startsTerm (previous : Option Char) (cs : List Char) : Bool :=
  match cs with
  | [] => false
  | c :: _ =>
    !Text.isBlank c &&
      match previous with
      | none => true
      | some p =>
        Text.isBlank p ||
          !(Text.isWord p || p == ')' || p == ']' || p == '}' || p == '"' || p == '.')

/-- The latest of the next `within` positions at which a term can start and the template matches,
with its distance; the text's first character is `distance` characters on and follows
`previous`. -/
def latestStart (tokens : List Token) (distance : Nat) (previous : Char) :
    (within : Nat) → List Char → Option (Nat × Found)
  | 0, _ => none
  | _ + 1, [] => none
  | within + 1, c :: cs =>
    match latestStart tokens (distance + 1) c within cs with
    | some later => some later
    | none =>
      if startsTerm (some previous) (c :: cs) then
        (matchHere tokens (c :: cs)).map fun found => (distance, found)
      else none

/-- The occurrence that begins at or inside the first capture of a match found here: a leading
hole moves on to the latest start inside what it captured that still matches. -/
def settle (tokens : List Token) (c : Char) (cs : List Char) (found : Found) : Nat × Found :=
  match startsWithHole tokens, found.captures with
  | true, first :: _ => (latestStart tokens 1 c (first.text.length - 1) cs).getD (0, found)
  | _, _ => (0, found)

/-- Where a template occurs: the index of its first character and how it matched. -/
structure Occurrence where
  start : Nat
  found : Found
  deriving DecidableEq, Repr

/-- A template cannot begin here: inside a word, or, for a leading hole, where no term starts. -/
def blockedHere (tokens : List Token) (previous : Option Char) (cs : List Char) : Bool :=
  (startsWithWord tokens && previous.any Text.isWord) ||
    (startsWithHole tokens && !startsTerm previous cs)

/-- The occurrences in the rest of a text, which starts at index `position`, follows `previous`,
and whose first `skip` characters belong to the last occurrence. -/
def occurrencesFrom (tokens : List Token) (skip : Nat) (previous : Option Char) (position : Nat) :
    List Char → List Occurrence
  | [] => []
  | c :: cs =>
    match skip with
    | skip + 1 => occurrencesFrom tokens skip (some c) (position + 1) cs
    | 0 =>
      if blockedHere tokens previous (c :: cs) then
        occurrencesFrom tokens 0 (some c) (position + 1) cs
      else
        match matchHere tokens (c :: cs) with
        | none => occurrencesFrom tokens 0 (some c) (position + 1) cs
        | some found =>
          let (distance, found) := settle tokens c cs found
          ⟨position + distance, found⟩ ::
            occurrencesFrom tokens (distance + found.length - 1) (some c) (position + 1) cs

/-- The occurrences of a template in a text, from left to right and without overlap. -/
def occurrences (tokens : List Token) (text : List Char) : List Occurrence :=
  occurrencesFrom tokens 0 none 0 text

def locationOfIndex (text : List Char) (index : Nat) : Location :=
  SourceText.locationAt text (Text.byteLength (text.take index))

def Occurrence.toMatch (text : List Char) (o : Occurrence) : Match where
  span := ⟨locationOfIndex text o.start, locationOfIndex text (o.start + o.found.length)⟩
  bindings := .ofList (o.found.captures.map fun c => (c.name, String.ofList c.text))

/-- All occurrences of a template in a text, in the order of the text. -/
def findMatches (text template : List Char) : Except TemplateFault (List Match) := do
  let tokens ← tokens template
  return (occurrences tokens text).map (·.toMatch text)

end Template

end Mutagenesis
