import Mutagenesis.Location
import Mutagenesis.Text.Size

/-!
# Positions in a source text

A text is divided into lines by its newlines. A byte offset into the text and a location (line
and column) name the same position: `offsetOf` and `locationOf` turn one into the other, and
`offsetOf` rejects what is no position between two characters of the line, unless its column is so
large that the offset wraps around.
-/

set_option autoImplicit false

namespace Mutagenesis

/-- What can be wrong with a position in a text. -/
inductive PositionFault where
  /-- The text has no such line. -/
  | lineOutOfRange (line lines : Nat)
  /-- The line has no character boundary at that column. -/
  | columnOutOfRange (column line : Nat)
  /-- The offset is larger than the text. -/
  | offsetBeyondEnd (offset : Nat)
  /-- The stop of a span stands before its start. -/
  | reversed (span : FileSpan)
  deriving DecidableEq, Repr

def PositionFault.message : PositionFault → String
  | lineOutOfRange line lines => s!"line {line} is out of range (file has {lines} lines)"
  | columnOutOfRange column line => s!"column {column} is out of range on line {line}"
  | offsetBeyondEnd offset => s!"offset {offset} is beyond end of file"
  | reversed span => "range stops before it starts: " ++ span.text

namespace SourceText

/-- The offsets just after the newlines of a text that starts at `offset`. -/
def startsAfterNewlines (offset : Nat) : List Char → List Nat
  | [] => []
  | c :: cs =>
    let next := offset + c.utf8Size
    if c = '\n' then next :: startsAfterNewlines next cs else startsAfterNewlines next cs

/-- The byte offset of the first character of each line. -/
def lineStarts (text : List Char) : List Nat :=
  0 :: startsAfterNewlines 0 text

/-- The number of lines: one more than the number of newlines. -/
def lineCount (text : List Char) : Nat :=
  (lineStarts text).length

/-- The location of an offset, given where the lines start: the last line that starts at or
before it, and the distance from that line's start. -/
def locationAmong (starts : List Nat) (offset : Nat) : Location :=
  let line := max 1 (starts.takeWhile (· ≤ offset)).length
  ⟨line, offset - starts.getD (line - 1) 0⟩

def locationAt (text : List Char) (offset : Nat) : Location :=
  locationAmong (lineStarts text) offset

/-- The location of an offset, unless it is larger than the text. -/
def locationOf (text : List Char) (offset : Nat) : Except PositionFault Location :=
  if Text.byteLength text < offset then .error (.offsetBeyondEnd offset)
  else .ok (locationAt text offset)

/-- The offset at which a line ends, before its newline. -/
def lineEnd (text : List Char) (line : Nat) : Nat :=
  match (lineStarts text)[line]? with
  | some next => next - 1
  | none => Text.byteLength text

/-- The offset lies between two characters of the text, or at one of its ends. -/
def isBoundary (text : List Char) (offset : Nat) : Bool :=
  (Text.splitAtByte? offset text).isSome

/-- The first number that is too large for an offset. Offsets are words of 64 bits, and no text is
too large for them. -/
def offsetLimit (text : List Char) : Nat :=
  max Numeral.limit (Text.byteLength text + 1)

/-- The offset of a line and column: the line must exist, and the column must be a character
boundary not beyond the end of the line. A sum that is too large for an offset starts again at
zero. -/
def offsetOf (text : List Char) (line column : Nat) : Except PositionFault Nat :=
  if line = 0 ∨ lineCount text < line then .error (.lineOutOfRange line (lineCount text))
  else
    let offset := ((lineStarts text).getD (line - 1) 0 + column) % offsetLimit text
    if lineEnd text line < offset ∨ isBoundary text offset = false then
      .error (.columnOutOfRange column line)
    else .ok offset

def offset (text : List Char) (l : Location) : Except PositionFault Nat :=
  offsetOf text l.line l.column

/-- The characters from one offset up to another one; none unless both are character boundaries
in order. -/
def slice? (text : List Char) (start stop : Nat) : Option (List Char) :=
  if stop < start then none
  else
    match Text.splitAtByte? start text with
    | none => none
    | some (_, rest) => (Text.splitAtByte? (stop - start) rest).map Prod.fst

/-- The text of a line, without its newline. -/
def line (text : List Char) (line : Nat) : Except PositionFault (List Char) := do
  let start ← offsetOf text line 0
  return (slice? text start (lineEnd text line)).getD []

def chars (text : List Char) (span : FileSpan) : Except PositionFault (List Char) := do
  let start ← offset text span.span.start
  let stop ← offset text span.span.stop
  match slice? text start stop with
  | some cs => return cs
  | none => throw (.reversed span)

end SourceText

end Mutagenesis
