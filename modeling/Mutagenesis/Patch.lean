import Mutagenesis.Text.Lines

/-!
# Patches

A patch changes one file by hunks. A hunk names the line where it starts and lists lines that it
keeps, removes and adds, in the order of the file. Applying a patch replaces, for each hunk, the
lines it keeps or removes by those it keeps or adds, and fails unless the former stand in the file
exactly where the hunk says.
-/

set_option autoImplicit false

namespace Mutagenesis

/-- What can be wrong with a diff or with applying it. -/
inductive PatchFault where
  /-- A header line does not start as it should. -/
  | expectedHeader (lead : String)
  /-- A diff ends where the name of the new file should stand. -/
  | missingNewHeader
  /-- A range of a hunk header is not `start` or `start,length`. -/
  | badRange (range : String)
  /-- A hunk header is not `@@ -range +range @@`. -/
  | badHunkHeader (line : String)
  /-- A diff ends inside a hunk. -/
  | endOfHunk
  /-- A hunk has more lines than its header says. -/
  | hunkTooLong
  /-- A line of a hunk has no known mark. -/
  | badHunkLine (line : String)
  /-- A marker for a missing newline has no line to apply to. -/
  | markerFirst
  /-- A hunk belongs to no file. -/
  | hunkBeforeHeader
  /-- A hunk starts before the end of the last one, or after the end of the file. -/
  | misplaced (line : Nat) (path : String)
  /-- A line that a hunk keeps or removes is not the one in the file. -/
  | mismatch (line : Nat) (path : String) (place : Nat)
  deriving DecidableEq, Repr

def PatchFault.message : PatchFault → String
  | expectedHeader lead => s!"expected '{lead}' header"
  | missingNewHeader => "missing '+++' header"
  | badRange range => s!"bad hunk range: {range}"
  | badHunkHeader line => s!"bad hunk header: {line}"
  | endOfHunk => "unexpected end of hunk"
  | hunkTooLong => "hunk longer than its header"
  | badHunkLine line => s!"bad hunk line: {line}"
  | markerFirst => "no-newline marker before any hunk line"
  | hunkBeforeHeader => "hunk before any file header"
  | misplaced line path => s!"hunk at line {line} does not apply to {path}"
  | mismatch line path place =>
    s!"hunk at line {line} does not apply to {path}: mismatch at line {place}"

/-- What a hunk does with a line. -/
inductive LineRole where
  | keep
  | remove
  | add
  deriving DecidableEq, Repr

/-- A line of a hunk, with its newline if it has one. -/
structure HunkLine where
  role : LineRole
  text : List Char
  deriving DecidableEq, Repr

/-- A run of changes to a file: where it starts, how many lines of the file it covers, and its
lines. -/
structure Hunk where
  oldStart : Nat
  oldLength : Nat
  lines : List HunkLine
  deriving DecidableEq, Repr

/-- The changes to one file. -/
structure FilePatch where
  path : String
  hunks : List Hunk
  deriving DecidableEq, Repr

namespace Hunk

def oldSide (h : Hunk) : List (List Char) :=
  (h.lines.filter (·.role ≠ .add)).map (·.text)

def newSide (h : Hunk) : List (List Char) :=
  (h.lines.filter (·.role ≠ .remove)).map (·.text)

/-- The number of file lines in front of the hunk; a hunk that covers no line starts after its
start line. -/
def position (h : Hunk) : Nat :=
  if h.oldLength = 0 then h.oldStart else h.oldStart - 1

end Hunk

/-- How far a patch has been applied: the lines of the file passed so far, the lines left, and
the lines of the result. -/
structure Applied where
  passed : Nat
  left : List (List Char)
  result : List (List Char)
  deriving DecidableEq, Repr

namespace FilePatch

/-- Applies one line of a hunk. A line to be kept or removed has to be the next line of the
file. -/
def applyLine (p : FilePatch) (h : Hunk) (s : Applied) (line : HunkLine) :
    Except PatchFault Applied :=
  match line.role with
  | .add => .ok { s with result := s.result ++ [line.text] }
  | role =>
    match s.left with
    | [] => .error (.mismatch h.oldStart p.path (s.passed + 1))
    | next :: left =>
      if next ≠ line.text then .error (.mismatch h.oldStart p.path (s.passed + 1))
      else
        .ok ⟨s.passed + 1, left, if role = .keep then s.result ++ [line.text] else s.result⟩

/-- Applies one hunk: the lines of the file in front of it stay, then its lines follow. -/
def applyHunk (p : FilePatch) (s : Applied) (h : Hunk) : Except PatchFault Applied :=
  if h.position < s.passed ∨ s.passed + s.left.length < h.position then
    .error (.misplaced h.oldStart p.path)
  else
    let ahead := h.position - s.passed
    let s' : Applied := ⟨h.position, s.left.drop ahead, s.result ++ s.left.take ahead⟩
    h.lines.foldlM (p.applyLine h) s'

/-- The text of a file after the patch. -/
def apply (p : FilePatch) (text : List Char) : Except PatchFault (List Char) := do
  let s ← p.hunks.foldlM p.applyHunk ⟨0, Text.lines text, []⟩
  return (s.result ++ s.left).flatten

end FilePatch

end Mutagenesis
