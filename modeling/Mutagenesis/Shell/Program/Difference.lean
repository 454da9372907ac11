import Mutagenesis.LineDiff.Unified
import Mutagenesis.Shell.Program.Compare

/-!
# Changes between files

`diff` shows which lines of a file have to change so that it becomes another one.
-/

namespace Mutagenesis.Shell.Difference

open Work LineDiff

def markedLine (mark : String) (l : Octets) : Octets :=
  mark.toList ++ l ++ (if l.getLast? = some '\n' then [] else noNewline)

def rangeText (index length : Nat) : Octets :=
  if length = 0 then Octets.ofNat index
  else if length = 1 then Octets.ofNat (index + 1)
  else Octets.ofNat (index + 1) ++ ',' :: Octets.ofNat (index + length)

def plainChange (old new : List Octets) (e : Edit) : Octets :=
  let letter := if e.oldLength = 0 then 'a' else if e.newLength = 0 then 'd' else 'c'
  if e.kind = .keep then []
  else
    rangeText e.oldIndex e.oldLength ++ letter :: rangeText e.newIndex e.newLength ++ ['\n'] ++
      (e.oldRun old).flatMap (markedLine "< ") ++
      (if letter = 'c' then "---\n".toList else []) ++ (e.newRun new).flatMap (markedLine "> ")

def fileLine (mark : String) (path : Octets) : Octets :=
  mark.toList ++ path ++ "\t1970-01-01 00:00:00.000000000 +0000\n"

def diffFiles (options : Options) (first second a b : Octets) : Work Nat := do
  let tell (how : String) : Work Unit :=
    putLine ("Files " ++ first ++ " and " ++ second ++ how.toList)
  let old := linesWithEnds '\n' a
  let new := linesWithEnds '\n' b
  let changes := script old new
  if changes.all (·.kind = .keep) then
    if options.has 's' then tell " are identical"
    return 0
  if options.has 'q' then tell " differ"
  else if options.has 'u' then
    put (fileLine "--- " first ++ fileLine "+++ " second ++
      (groups changes).flatMap (writeHunk old new))
  else put (changes.flatMap (plainChange old new))
  return 1

def diff : Program := fun call => do
  let (options, operands) ← readCompareOptions
    { flags := ['q', 's', 'u', 'y'] } call
  match operands with
  | [] => call.failCompare ("missing operand after " ++ quotedName call.name)
  | [a] => call.failCompare ("missing operand after " ++ quotedName a)
  | _ :: _ :: extra :: _ => call.failCompare ("extra operand " ++ quotedName extra)
  | [a, b] =>
    let content (path : Octets) : Work (Option Octets) := do
      match ← inputAt path with
      | .ok content => return some content
      | .error fault =>
        call.complain (path ++ ": " ++ reason fault)
        return none
    match ← content a, ← content b with
    | some x, some y => diffFiles options a b x y
    | _, _ => return 2

end Mutagenesis.Shell.Difference
