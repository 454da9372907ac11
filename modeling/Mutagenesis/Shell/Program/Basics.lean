import Mutagenesis.Shell.Program
import Mutagenesis.Shell.Quantity

/-!
# Small programs

Programs that write their arguments or wait.
-/

namespace Mutagenesis.Shell

open Work

def endWith (status : Nat) : Program := fun _ =>
  return status

def echo : Program := fun call => do
  let isOption := fun w => w = "-n".toList
  let text := [' '].intercalate (call.args.dropWhile isOption)
  put (if call.args.head?.any isOption then text else text ++ ['\n'])
  return 0

def milliseconds? (w : Octets) : Option Nat := do
  let found ← Quantity.read? w
  let scale ← match found.rest with
    | [] | ['s'] => some 1
    | ['m'] => some 60
    | ['h'] => some 3600
    | ['d'] => some 86400
    | _ => none
  match found.value with
  | .finite x =>
    if x.negative ∧ x.significand ≠ 0 then none
    else
      let (p, q) := Binary64.scale x.significand 2 x.exponent
      some ((2 * p * 1000 * scale + q) / (2 * q))
  | .infinite negative => if negative then none else some (1000 * Nat.pow 10 12)
  | .undefined _ => none

def sleep : Program := fun call => do
  let (_, operands) ← OptionTable.read { flags := [] } call 1
  if operands.isEmpty then call.failUsage 1 "missing operand"
  let bad := operands.filter fun w => (milliseconds? w).isNone
  bad.dropLast.forM fun w => call.complain ("invalid time interval " ++ quotedName w)
  if let some w := bad.getLast? then
    call.failUsage 1 ("invalid time interval " ++ quotedName w)
  let time := (operands.filterMap milliseconds?).foldl (· + ·) 0
  modify fun t => { t with time := t.time + time }
  return 0

def endlessLines : Nat := 131072

def yes : Program := fun call => do
  let line := if call.args.isEmpty then ['y'] else [' '].intercalate call.args
  put (Octets.ofLines (List.replicate endlessLines line))
  return 141

end Mutagenesis.Shell
