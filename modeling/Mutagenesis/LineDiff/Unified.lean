import Mutagenesis.LineDiff.Compact
import Mutagenesis.Numeral

/-!
# Unified diffs

The difference between two texts, line by line, in the unified format: hunks with three lines of
context around each change, each under a header with the ranges of lines it covers. A newline, a
carriage return, and both together each end a line.
-/

set_option autoImplicit false

namespace Mutagenesis.LineDiff

/-- The lines of a text, each with its end: a newline, a carriage return, or both. -/
def splitLines : List Char → List (List Char)
  | [] => []
  | c :: cs =>
    if c = '\n' ∨ (c = '\r' ∧ cs.head? ≠ some '\n') then [c] :: splitLines cs
    else
      match splitLines cs with
      | [] => [[c]]
      | line :: rest => (c :: line) :: rest

/-- A way to compare lines: it gives a script of edits from the old ones to the new ones. -/
abbrev Comparison := (old new : List (List Char)) → List Edit

def script : Comparison := fun old new =>
  merge (compact old new (edits old new))

def context : Nat := 3

/-- A leading kept run keeps only its last lines. -/
def trimFirst : List Edit → List Edit
  | [] => []
  | e :: rest =>
    if e.kind = .keep then
      let offset := e.oldLength - context
      e.moveDown offset offset :: rest
    else e :: rest

/-- A trailing kept run keeps only its first lines. -/
def trimLast (script : List Edit) : List Edit :=
  match script.reverse with
  | [] => []
  | e :: rest =>
    if e.kind = .keep then (e.moveDown 0 (e.oldLength - context) :: rest).reverse else script

/-- A group shows a change, not just one kept run. -/
def showsChange : List Edit → Bool
  | [] => false
  | [e] => e.kind ≠ .keep
  | _ => true

/-- Cuts a script into groups at its long kept runs; `group` is the group so far. -/
def groupFrom (group : List Edit) : List Edit → List (List Edit)
  | [] => if showsChange group then [group] else []
  | e :: rest =>
    if e.kind = .keep ∧ 2 * context < e.oldLength then
      let offset := e.oldLength - context
      (group ++ [e.moveDown 0 offset]) :: groupFrom [e.moveDown offset offset] rest
    else groupFrom (group ++ [e]) rest

def groups (script : List Edit) : List (List Edit) :=
  groupFrom [] (trimLast (trimFirst script))

/-- A range of lines in a hunk header: the first line and the number of lines, which is left out
when it is one; an empty range names the line before it. -/
def writeRange (start stop : Nat) : List Char :=
  if stop - start = 1 then Numeral.write (start + 1)
  else if stop - start = 0 then Numeral.write start ++ [',', '0']
  else Numeral.write (start + 1) ++ ',' :: Numeral.write (stop - start)

/-- The header of a hunk: the lines from the start of its first edit to the end of its last
one. -/
def writeHeader (group : List Edit) : List Char :=
  match group.head?, group.getLast? with
  | some first, some last =>
    "@@ -".toList ++ writeRange first.oldIndex (last.oldIndex + last.oldLength) ++ " +".toList ++
      writeRange first.newIndex (last.newIndex + last.newLength) ++ " @@\n".toList
  | _, _ => []

/-- The line that says that the line before it has no end. -/
def noNewline : List Char := "\n\\ No newline at end of file\n".toList

/-- A line of a hunk: its mark, its text, and a note if the text has no line end. -/
def writeLine (mark : Char) (line : List Char) : List Char :=
  match line.getLast? with
  | some '\n' => mark :: line
  | some '\r' => mark :: line
  | _ => mark :: line ++ noNewline

/-- The lines of one edit: what it keeps, or what it removes and then what it inserts. -/
def writeEdit (old new : List (List Char)) (e : Edit) : List Char :=
  match e.kind with
  | .keep => ((e.oldRun old).map (writeLine ' ')).flatten
  | _ => ((e.oldRun old).map (writeLine '-')).flatten ++
      ((e.newRun new).map (writeLine '+')).flatten

def writeHunk (old new : List (List Char)) (group : List Edit) : List Char :=
  writeHeader group ++ (group.map (writeEdit old new)).flatten

/-- The unified diff between two versions of a file, by a script between their lines; empty if there
is no hunk to show. -/
def unified (file : String) (old new : List Char) (script : List Edit) : List Char :=
  let oldLines := splitLines old
  let newLines := splitLines new
  match groups script with
  | [] => []
  | hunks =>
    "--- ".toList ++ file.toList ++ "\n+++ ".toList ++ file.toList ++ ['\n'] ++
      (hunks.map (writeHunk oldLines newLines)).flatten

end Mutagenesis.LineDiff
