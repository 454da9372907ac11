import Mutagenesis.Text.Size
import Mutagenesis.Yaml

/-!
# Places in a YAML text

A cursor is the rest of a text and the place where it starts: the number of bytes and of lines
before it, and its column, which counts characters. A line ends at a newline, a carriage return with
or without a newline after it, a next-line character, or a separator of lines or paragraphs.
-/

set_option autoImplicit false

namespace Mutagenesis.Yaml

def isAllowed (c : Char) : Bool :=
  let n := c.toNat
  n == 0x9 || n == 0xA || n == 0xD || (0x20 ≤ n && n ≤ 0x7E) || n == 0x85 ||
    (0xA0 ≤ n && n ≤ 0xFFFD) || 0x10000 ≤ n

def isBlank (c : Char) : Bool :=
  c == ' ' || c == '\t'

def isBreak (c : Char) : Bool :=
  c == '\r' || c == '\n' || c == '\u0085' || c == '\u2028' || c == '\u2029'

def isGap (c : Char) : Bool :=
  isBlank c || isBreak c

/-- A character of a name: of an anchor, a directive or the handle of a tag. -/
def isNameChar (c : Char) : Bool :=
  c.isAlphanum || c == '_' || c == '-'

/-- A text is at its end, or starts with a blank or a line end. -/
def atGap (cs : List Char) : Bool :=
  match cs with
  | [] => true
  | c :: _ => isGap c

def atLineEnd (cs : List Char) : Bool :=
  match cs with
  | [] => true
  | c :: _ => isBreak c

/-- A text starts with three marks `---` or `...`, and a gap after them. -/
def startsMark (mark : Char) (cs : List Char) : Bool :=
  match cs with
  | a :: b :: c :: rest => a == mark && b == mark && c == mark && atGap rest
  | _ => false

/-- A place in a text. -/
structure Cursor where
  rest : List Char
  /-- The number of bytes before the place. -/
  index : Nat := 0
  line : Nat := 0
  column : Nat := 0
  deriving Repr

namespace Cursor

/-- The cursor after some characters of a line. -/
def advance (c : Cursor) (count : Nat) : Cursor :=
  { c with
    rest := c.rest.drop count
    index := c.index + Text.byteLength (c.rest.take count)
    column := c.column + count }

/-- The cursor after one character of a line. -/
def next (c : Cursor) : Cursor :=
  c.advance 1

/-- The cursor after the characters that meet a condition; none of them ends a line. -/
def skipWhile (c : Cursor) (p : Char → Bool) : Cursor :=
  c.advance (c.rest.takeWhile p).length

/-- The cursor after a line end, if it stands at one. -/
def nextLine (c : Cursor) : Cursor :=
  match c.rest with
  | '\r' :: '\n' :: rest => ⟨rest, c.index + 2, c.line + 1, 0⟩
  | d :: rest => if isBreak d then ⟨rest, c.index + d.utf8Size, c.line + 1, 0⟩ else c
  | [] => c

/-- The line end at the cursor, as it is kept in a text: separators of lines and paragraphs stay,
and the other ones become a newline. -/
def lineEnd (c : Cursor) : List Char :=
  match c.rest with
  | d :: _ =>
    if d = '\u2028' ∨ d = '\u2029' then [d] else if isBreak d then ['\n'] else []
  | [] => []

def atDocumentMark (c : Cursor) : Bool :=
  c.column == 0 && (startsMark '-' c.rest || startsMark '.' c.rest)

def isAt (c : Cursor) (d : Char) : Bool :=
  c.rest.head? == some d

/-- The cursor after blanks and a comment at the end of a line, which has to end there, and after
the line end. -/
def finishLine (c : Cursor) : Except Fault Cursor :=
  let c := c.skipWhile isBlank
  let c := if c.isAt '#' then c.skipWhile fun d => !isBreak d else c
  if atLineEnd c.rest then .ok c.nextLine else .error .textAfterHeader

end Cursor

end Mutagenesis.Yaml
