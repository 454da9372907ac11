import Mutagenesis.Json.Reader
import Mutagenesis.Yaml.Cursor

/-!
# Scalars

Plain scalars, scalars in single and double quotes, and block scalars. Inside the first three, a
line end counts as a blank, and further line ends after it are kept; a separator of lines or
paragraphs is kept where it stands.
-/

set_option autoImplicit false

namespace Mutagenesis.Yaml

/-- Blanks and line ends between two words of a scalar. -/
structure Gap where
  /-- The blanks, if there is no line end. -/
  blanks : List Char := []
  /-- A line has ended. -/
  broken : Bool := false
  firstEnd : List Char := []
  moreEnds : List Char := []
  deriving Repr

namespace Gap

def text (g : Gap) : List Char :=
  if !g.broken then g.blanks
  else if g.firstEnd = ['\n'] then if g.moreEnds.isEmpty then [' '] else g.moreEnds
  else g.firstEnd ++ g.moreEnds

/-- Reads blanks and line ends. On a new line, a tab may not stand before the column `limit`. -/
def read (limit : Int) : (steps : Nat) → Gap → Cursor → Except Fault (Gap × Cursor)
  | 0, g, c => .ok (g, c)
  | steps + 1, g, c =>
    match c.rest with
    | [] => .ok (g, c)
    | d :: _ =>
      if isBlank d then
        if !g.broken then read limit steps { g with blanks := g.blanks ++ [d] } c.next
        else if d = '\t' ∧ (c.column : Int) < limit then .error .tabInIndentation
        else read limit steps g c.next
      else if isBreak d then
        if g.broken then
          read limit steps { g with moreEnds := g.moreEnds ++ c.lineEnd } c.nextLine
        else read limit steps { broken := true, firstEnd := c.lineEnd } c.nextLine
      else .ok (g, c)

end Gap

def isFlowMark (c : Char) : Bool :=
  c == ',' || c == '[' || c == ']' || c == '{' || c == '}'

def plainWord (flow : Bool) : List Char → Except Fault (List Char)
  | [] => .ok []
  | c :: cs =>
    if isGap c then .ok []
    else if flow && c == ':' && cs.head?.any (fun d => isFlowMark d || d == '?') then
      .error .unexpectedColon
    else if (c == ':' && atGap cs) || (flow && isFlowMark c) then .ok []
    else do return c :: (← plainWord flow cs)

/-- Reads a plain scalar: its text, whether a line has ended after it, and the cursor after it and
the gap that follows it. On a new line it goes on from the column `limit` on. -/
def readPlain (flow : Bool) (limit : Int) : (steps : Nat) → (text : List Char) → Gap → Cursor →
    Except Fault (List Char × Bool × Cursor)
  | 0, text, g, c => .ok (text, g.broken, c)
  | steps + 1, text, g, c => do
    if c.atDocumentMark || c.isAt '#' then return (text, g.broken, c)
    let word ← plainWord flow c.rest
    let (text, g, c) :=
      if word.isEmpty then (text, g, c) else (text ++ g.text ++ word, {}, c.advance word.length)
    if !(c.rest.head?.any isGap) then return (text, g.broken, c)
    let (g, c) ← g.read limit (c.rest.length + 1) c
    if !flow && (c.column : Int) < limit then return (text, g.broken, c)
    readPlain flow limit steps text g c

/-- The character that a letter after a backslash stands for. -/
def escaped? : Char → Option Char
  | '0' => some '\x00'
  | 'a' => some '\x07'
  | 'b' => some '\x08'
  | 't' | '\t' => some '\t'
  | 'n' => some '\n'
  | 'v' => some '\x0b'
  | 'f' => some '\x0c'
  | 'r' => some '\r'
  | 'e' => some '\x1b'
  | ' ' => some ' '
  | '"' => some '"'
  | '/' => some '/'
  | '\\' => some '\\'
  | 'N' => some '\u0085'
  | '_' => some '\u00a0'
  | 'L' => some '\u2028'
  | 'P' => some '\u2029'
  | _ => none

/-- The number of hexadecimal digits after a letter that names a character by its code. -/
def codeLength? : Char → Option Nat
  | 'x' => some 2
  | 'u' => some 4
  | 'U' => some 8
  | _ => none

def coded (length : Nat) (cs : List Char) : Except Fault Char :=
  match (cs.take length).mapM Json.hexValue? with
  | none => .error .badEscape
  | some digits =>
    let n := digits.foldl (fun n d => n * 16 + d) 0
    if digits.length < length ∨ (0xD800 ≤ n ∧ n ≤ 0xDFFF) ∨ 0x10FFFF < n then .error .badEscape
    else .ok (Char.ofNat n)

/-- Reads a word in quotes, up to a gap or the closing quote: its text, whether an escaped line end
comes right after it, and the cursor after it. -/
def readQuotedWord (quote : Char) : (steps : Nat) → Cursor →
    Except Fault (List Char × Bool × Cursor)
  | 0, c => .ok ([], false, c)
  | steps + 1, c =>
    let go (here : List Char) (after : Cursor) : Except Fault (List Char × Bool × Cursor) := do
      let (text, broken, c) ← readQuotedWord quote steps after
      return (here ++ text, broken, c)
    match c.rest with
    | [] => .ok ([], false, c)
    | d :: rest =>
      if isGap d then .ok ([], false, c)
      else if d = quote then
        if quote = '\'' ∧ rest.head? = some '\'' then go ['\''] (c.advance 2)
        else .ok ([], false, c)
      else if d = '\\' ∧ quote = '"' then
        match rest with
        | [] => .error .badEscape
        | e :: digits =>
          if isBreak e then .ok ([], true, c.next.nextLine)
          else
            match escaped? e, codeLength? e with
            | some x, _ => go [x] (c.advance 2)
            | none, some length => do
              let x ← coded length digits
              go [x] (c.advance (2 + length))
            | none, none => .error .badEscape
      else go [d] c.next

/-- Reads a scalar in quotes, from after the opening quote to after the closing one. -/
def readQuoted (quote : Char) : (steps : Nat) → (text : List Char) → Cursor →
    Except Fault (List Char × Cursor)
  | 0, _, _ => .error .unclosedQuote
  | steps + 1, text, c => do
    if c.atDocumentMark then .error .documentMarkInQuotes
    else if c.rest.isEmpty then .error .unclosedQuote
    else
      let (word, broken, c) ← readQuotedWord quote (c.rest.length + 1) c
      if c.isAt quote then return (text ++ word, c.next)
      let (g, c) ← Gap.read 0 (c.rest.length + 1) { broken := broken } c
      readQuoted quote steps (text ++ word ++ g.text) c

/-- What happens to the line ends at the end of a block scalar. -/
inductive Chomping where
  /-- The first one stays. -/
  | clip
  /-- None stays. -/
  | strip
  /-- All stay. -/
  | keep
  deriving DecidableEq, Repr

def Chomping.ofMark? : Char → Option Chomping
  | '+' => some .keep
  | '-' => some .strip
  | _ => none

/-- The marks after the one that starts a block scalar: how it is chomped, and its indentation, if
it is given. -/
def readHeader (c : Cursor) : Except Fault (Chomping × Option Nat × Cursor) := do
  let chomping? := c.rest.head?.bind Chomping.ofMark?
  let c := if chomping?.isSome then c.next else c
  let digit? := c.rest.head?.filter Char.isDigit
  if digit? = some '0' then .error .zeroIndentation
  else
    let c := if digit?.isSome then c.next else c
    let late? := if chomping?.isSome ∨ digit?.isNone then none
      else c.rest.head?.bind Chomping.ofMark?
    let c := if late?.isSome then c.next else c
    return ((chomping?.or late?).getD .clip, digit?.map fun d => d.toNat - '0'.toNat,
      ← c.finishLine)

/-- Reads the indentation of lines and the line ends of empty lines. If the indentation is not
known, all blanks belong to it. Gives the line ends and the greatest column reached. -/
def readIndents (indent : Option Nat) : (steps : Nat) → (ends : List Char) → (widest : Nat) →
    Cursor → Except Fault (List Char × Nat × Cursor)
  | 0, ends, widest, c => .ok (ends, widest, c)
  | steps + 1, ends, widest, c =>
    let isOpen (column : Nat) : Bool := indent.all (column < ·)
    let spaces := (c.rest.takeWhile (· == ' ')).length
    let taken := match indent with
      | none => spaces
      | some n => min spaces (n - c.column)
    let c := c.advance taken
    let widest := max widest c.column
    if isOpen c.column && c.isAt '\t' then .error .tabInIndentation
    else if c.rest.head?.any isBreak then
      readIndents indent steps (ends ++ c.lineEnd) widest c.nextLine
    else .ok (ends, widest, c)

/-- The part of a block scalar that has been read. -/
structure BlockText where
  text : List Char := []
  /-- The line end after the last line. -/
  lineEnd : List Char := []
  /-- The line ends of the empty lines after it. -/
  emptyLines : List Char := []
  /-- The last line starts with a blank. -/
  startsBlank : Bool := false

/-- The text with the line ends before a line that starts with a blank or not. In a folded scalar, a
newline between two lines that start with no blank becomes a blank, or nothing if empty lines
follow it. -/
def BlockText.joined (b : BlockText) (literal startsBlank : Bool) : List Char :=
  let fold := !literal && b.lineEnd == ['\n'] && !b.startsBlank && !startsBlank
  let between := if fold then if b.emptyLines.isEmpty then [' '] else [] else b.lineEnd
  b.text ++ between ++ b.emptyLines

def readLines (literal : Bool) (indent : Nat) : (steps : Nat) → BlockText → Cursor →
    Except Fault (BlockText × Cursor)
  | 0, b, c => .ok (b, c)
  | steps + 1, b, c =>
    if c.column = indent ∧ !c.rest.isEmpty then do
      let startsBlank := c.rest.head?.any isBlank
      let line := c.rest.takeWhile fun d => !isBreak d
      let c := c.advance line.length
      let (emptyLines, _, after) ← readIndents (some indent) (c.rest.length + 1) [] 0 c.nextLine
      readLines literal indent steps
        ⟨b.joined literal startsBlank ++ line, c.lineEnd, emptyLines, startsBlank⟩ after
    else .ok (b, c)

/-- Reads a block scalar inside a collection with an indentation, from after the mark that starts
it. -/
def readBlock (literal : Bool) (outer : Int) (c : Cursor) : Except Fault (List Char × Cursor) := do
  let (chomping, given, c) ← readHeader c
  let indent? : Option Nat := given.map fun n => if 0 ≤ outer then outer.toNat + n else n
  let (emptyLines, widest, c) ← readIndents indent? (c.rest.length + 1) [] 0 c
  let indent := indent?.getD (max widest (max (outer + 1).toNat 1))
  let (b, c) ← readLines literal indent (c.rest.length + 1) { emptyLines := emptyLines } c
  let tail := match chomping with
    | .strip => []
    | .clip => b.lineEnd
    | .keep => b.lineEnd ++ b.emptyLines
  return (b.text ++ tail, c)

end Mutagenesis.Yaml
