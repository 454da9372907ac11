import Mutagenesis.Patch
import Mutagenesis.Numeral
import Mutagenesis.Text.Blank
import Mutagenesis.Text.Cut

/-!
# Reading a diff

A unified diff is read line by line. A `--- ` line and the `+++ ` line after it name a file; an
`@@` line starts a hunk and says how many lines of the old and of the new file it covers, and the
hunk's lines are counted off against that; a line that starts with a backslash takes the newline
from the line before. Other lines outside hunks are passed over.
-/

set_option autoImplicit false

namespace Mutagenesis.Diff

/-- The file name on a header line: the text after its lead, without the line's end and without
what follows a tab. -/
def headerPath (lead line : List Char) : Except PatchFault (List Char) :=
  match Text.after? lead line with
  | none => .error (.expectedHeader (String.ofList (Text.trimEnd lead)))
  | some rest =>
    let rest := (rest.reverse.dropWhile fun c => c == '\n' || c == '\r').reverse
    .ok (rest.takeWhile (· != '\t'))

/-- A range of a hunk header: `start,length`, or `start` for one line. -/
def range (cs : List Char) : Except PatchFault (Nat × Nat) :=
  let numeral (part : List Char) : Except PatchFault Nat :=
    match Numeral.read? part with
    | some n => .ok n
    | none => .error (.badRange (String.ofList cs))
  match Text.cutFirst? [','] cs with
  | some (start, length) => do return (← numeral start, ← numeral length)
  | none => do return (← numeral cs, 1)

/-- The numbers of a hunk header: where the old range starts, its length, and the length of the
new range. -/
def hunkHeader (line : List Char) : Except PatchFault (Nat × Nat × Nat) :=
  let bad : PatchFault := .badHunkHeader (String.ofList (Text.trimEnd line))
  match Text.words line with
  | ['@', '@'] :: ('-' :: old) :: ('+' :: new) :: ['@', '@'] :: _ => do
    let (oldStart, oldLength) ← range old
    let (_, newLength) ← range new
    return (oldStart, oldLength, newLength)
  | _ => .error bad

/-- Takes the newline from the last line of a hunk. -/
def takeNewline (lines : List HunkLine) : Except PatchFault (List HunkLine) :=
  match lines.reverse with
  | [] => .error .markerFirst
  | last :: rest => .ok ((⟨last.role, Text.withoutLineEnd last.text⟩ :: rest).reverse)

/-- A hunk while its lines are read: how many lines of the old and the new file are still to
come. -/
structure OpenHunk where
  hunk : Hunk
  oldLeft : Nat
  newLeft : Nat
  deriving DecidableEq, Repr

def OpenHunk.push (o : OpenHunk) (line : HunkLine) : Except PatchFault OpenHunk :=
  let hunk := { o.hunk with lines := o.hunk.lines ++ [line] }
  match line.role with
  | .keep =>
    if o.oldLeft = 0 ∨ o.newLeft = 0 then .error .hunkTooLong
    else .ok ⟨hunk, o.oldLeft - 1, o.newLeft - 1⟩
  | .remove => if o.oldLeft = 0 then .error .hunkTooLong else .ok ⟨hunk, o.oldLeft - 1, o.newLeft⟩
  | .add => if o.newLeft = 0 then .error .hunkTooLong else .ok ⟨hunk, o.oldLeft, o.newLeft - 1⟩

/-- Takes the newline from the last line of an open hunk. -/
def OpenHunk.takeNewline (o : OpenHunk) : Except PatchFault OpenHunk := do
  let lines ← Diff.takeNewline o.hunk.lines
  return { o with hunk := { o.hunk with lines } }

/-- Reads a line of an open hunk by its first character; a line of one character stands for that
mark before an empty line. -/
def OpenHunk.read (o : OpenHunk) (line : List Char) : Except PatchFault OpenHunk :=
  let text := if line.length ≤ 1 then ['\n'] else line.drop 1
  match line.head? with
  | some ' ' => o.push ⟨.keep, text⟩
  | some '\n' => o.push ⟨.keep, text⟩
  | some '-' => o.push ⟨.remove, text⟩
  | some '+' => o.push ⟨.add, text⟩
  | some '\\' => o.takeNewline
  | _ => .error (.badHunkLine (String.ofList (Text.trimEnd line)))

/-- Where the reader of a diff stands. -/
inductive Place where
  /-- Outside hunks. -/
  | outside
  /-- After the line that names the old file. -/
  | oldNamed (path : List Char)
  /-- Inside a hunk, or after its last line, where markers may follow. -/
  | inside (hunk : OpenHunk)
  deriving DecidableEq, Repr

/-- What has been read of a diff: the patches so far and where the reader stands. -/
structure Reading where
  patches : List FilePatch
  place : Place
  deriving DecidableEq, Repr

/-- Adds a hunk to the last patch. -/
def addHunk (patches : List FilePatch) (h : Hunk) : List FilePatch :=
  match patches.reverse with
  | [] => []
  | last :: rest => (⟨last.path, last.hunks ++ [h]⟩ :: rest).reverse

/-- The path of a patch: the new name, without a leading `b/` if the old name has a leading
`a/`. -/
def patchPath (old new : List Char) : List Char :=
  match Text.after? ['a', '/'] old, Text.after? ['b', '/'] new with
  | some _, some stripped => stripped
  | _, _ => new

def readOutside (patches : List FilePatch) (line : List Char) : Except PatchFault Reading :=
  if ['-', '-', '-', ' '].isPrefixOf line then do
    let old ← headerPath ['-', '-', '-', ' '] line
    return ⟨patches, .oldNamed old⟩
  else if ['@', '@'].isPrefixOf line then
    if patches.isEmpty then .error .hunkBeforeHeader
    else do
      let (oldStart, oldLength, newLength) ← hunkHeader line
      return ⟨patches, .inside ⟨⟨oldStart, oldLength, []⟩, oldLength, newLength⟩⟩
  else .ok ⟨patches, .outside⟩

def readLine (r : Reading) (line : List Char) : Except PatchFault Reading :=
  match r.place with
  | .outside => readOutside r.patches line
  | .oldNamed old => do
    let new ← headerPath ['+', '+', '+', ' '] line
    return ⟨r.patches ++ [⟨String.ofList (patchPath old new), []⟩], .outside⟩
  | .inside o =>
    if o.oldLeft = 0 ∧ o.newLeft = 0 then
      if line.head? = some '\\' then do return ⟨r.patches, .inside (← o.takeNewline)⟩
      else readOutside (addHunk r.patches o.hunk) line
    else do return ⟨r.patches, .inside (← o.read line)⟩

def finish (r : Reading) : Except PatchFault (List FilePatch) :=
  match r.place with
  | .outside => .ok r.patches
  | .oldNamed _ => .error .missingNewHeader
  | .inside o =>
    if o.oldLeft = 0 ∧ o.newLeft = 0 then .ok (addHunk r.patches o.hunk) else .error .endOfHunk

/-- Reads a diff into the patches of its files, in order. -/
def parse (diff : List Char) : Except PatchFault (List FilePatch) := do
  let r ← (Text.lines diff).foldlM readLine ⟨[], .outside⟩
  finish r

end Mutagenesis.Diff
