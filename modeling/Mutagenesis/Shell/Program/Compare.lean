import Mutagenesis.Shell.Program.Files
import Mutagenesis.Shell.Program.Lines

/-!
# Programs that compare bytes

`cmp` tells where two files differ.
-/

namespace Mutagenesis.Shell

open Work

def Call.failCompare {α : Type} (call : Call) (message : Octets) : Work α := do
  call.complain message
  call.fail 2 ("Try '" ++ call.name ++ " --help' for more information.")

def readCompareOptions (table : OptionTable) (call : Call) : Work (Options × List Octets) :=
  let hint (name : Octets) : List Octets :=
    [name ++ ": Try '" ++ name ++ " --help' for more information."]
  { table with hint := hint }.read call 2

def firstDifference (byte line : Nat) : Octets → Octets → Option (Nat × Nat)
  | a :: as, b :: bs =>
    if a ≠ b then some (byte, line)
    else firstDifference (byte + 1) (if a = '\n' then line + 1 else line) as bs
  | _, _ => none

def cmp : Program := fun call => do
  let (options, operands) ← readCompareOptions
    { flags := ['s'] } call
  let silent := options.has 's'
  let (first, second) ← match operands with
    | [] => call.failCompare ("missing operand after " ++ quotedName call.name)
    | [a] => pure (a, ['-'])
    | [a, b] => pure (a, b)
    | _ :: _ :: extra :: _ => call.failCompare ("extra operand " ++ quotedName extra)
  if first = second ∧ (← entryAt true first).isOk then return 0
  let content (path : Octets) : Work Octets := do
    match ← inputAt path with
    | .ok content => return content
    | .error fault =>
      if !silent ∨ fault = .isFolder then call.complain (path ++ ": " ++ reason fault)
      stop 2
  let a ← content first
  let b ← content second
  if a = b then return 0
  if silent then return 1
  match firstDifference 1 1 a b with
  | some (byte, line) =>
    putLine (first ++ ' ' :: second ++ " differ: char " ++ Octets.ofNat byte ++
      ", line " ++ Octets.ofNat line)
  | none =>
    let (name, cs) := if a.length < b.length then (first, a) else (second, b)
    let lines := cs.count '\n'
    let place := if cs.getLast? = some '\n' then ", line ".toList ++ Octets.ofNat lines
      else ", in line ".toList ++ Octets.ofNat (lines + 1)
    call.complain ("EOF on ".toList ++ name ++ " after byte ".toList ++
      Octets.ofNat cs.length ++ place)
  return 1

end Mutagenesis.Shell
