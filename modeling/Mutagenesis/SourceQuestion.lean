import Mutagenesis.SourceText

/-!
# Questions about sources

What can be asked about the text of a file: the text itself, where its lines start, how a place in
it is given in the other form, or a piece of it.
-/

set_option autoImplicit false

namespace Mutagenesis

/-- A question about the text of a file. -/
inductive SourceQuestion where
  | text (path : String)
  | lineStarts (path : String)
  | lineCount (path : String)
  | offset (path : String) (line column : Nat)
  | location (path : String) (offset : Nat)
  | line (path : String) (line : Nat)
  | chars (span : FileSpan)
  deriving DecidableEq, Repr

namespace SourceQuestion

/-- The file that is asked about. -/
def path : SourceQuestion → String
  | text path | lineStarts path | lineCount path => path
  | offset path _ _ | location path _ | line path _ => path
  | chars span => span.file

abbrev Answer : SourceQuestion → Type
  | text _ | line _ _ | chars _ => List Char
  | lineStarts _ => List Nat
  | lineCount _ | offset _ _ _ => Nat
  | location _ _ => Location

/-- The answer, given the text of the file. -/
def answer : (q : SourceQuestion) → List Char → Except PositionFault q.Answer
  | text _, cs => .ok cs
  | lineStarts _, cs => .ok (SourceText.lineStarts cs)
  | lineCount _, cs => .ok (SourceText.lineCount cs)
  | offset _ number column, cs => SourceText.offsetOf cs number column
  | location _ place, cs => SourceText.locationOf cs place
  | line _ number, cs => SourceText.line cs number
  | chars span, cs => SourceText.chars cs span

end SourceQuestion

end Mutagenesis
