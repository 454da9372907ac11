import Mutagenesis.Template.Token
import Mutagenesis.Template.Fragment

/-!
# Matching tokens at a position

`search` matches a list of tokens against the start of a text, trying the fragments of each hole
from short to long and going back when the rest does not match. Holes of one name have to capture
equal texts.
-/

set_option autoImplicit false

namespace Mutagenesis.Template

/-- The text that a hole has captured. -/
structure Capture where
  name : String
  text : List Char
  deriving DecidableEq, Repr

/-- How tokens match at the start of a text: what the holes capture, in the order of the tokens,
and the number of characters matched. -/
structure Found where
  captures : List Capture
  length : Nat
  deriving DecidableEq, Repr

/-- A name can capture a text unless it has captured another one before. -/
def agrees (bound : List Capture) (name : String) (text : List Char) : Bool :=
  match bound.find? (·.name = name) with
  | none => true
  | some earlier => earlier.text = text

/-- Matches tokens against the start of a text, given what earlier holes have captured. -/
def searchFrom (bound : List Capture) : List Token → List Char → Option Found
  | [], _ => some ⟨[], 0⟩
  | .literal text :: rest, cs =>
    match Text.after? text cs with
    | none => none
    | some cs' =>
      (searchFrom bound rest cs').map fun found => ⟨found.captures, text.length + found.length⟩
  | .blank :: rest, cs =>
    let run := (cs.takeWhile Text.isBlank).length
    if run = 0 then none
    else
      (searchFrom bound rest (cs.drop run)).map fun found =>
        ⟨found.captures, run + found.length⟩
  | .hole name :: rest, cs =>
    (Fragment.candidates rest.isEmpty cs).findSome? fun n =>
      let capture : Capture := ⟨name, cs.take n⟩
      if agrees bound name capture.text then
        (searchFrom (bound ++ [capture]) rest (cs.drop n)).map fun found =>
          ⟨capture :: found.captures, n + found.length⟩
      else none

/-- Matches a whole template against the start of a text; the match may not be empty. -/
def search (tokens : List Token) (cs : List Char) : Option Found :=
  (searchFrom [] tokens cs).filter (0 < ·.length)

end Mutagenesis.Template
