import Mutagenesis.Shell.Program.Basics

/-!
# Numbers in a row

`seq` writes whole numbers from a first to a last one in equal steps.
-/

namespace Mutagenesis.Shell.Sequence

open Work

def countUp (step : Int) (last : Int) : (limit : Nat) → Int → List Int
  | 0, _ => []
  | limit + 1, n =>
    if (0 < step ∧ last < n) ∨ (step < 0 ∧ n < last) then []
    else n :: countUp step last limit (n + step)

def seq : Program := fun call => do
  let isOperand (w : Octets) : Bool := match w with
    | '-' :: c :: _ => c.isDigit
    | _ => true
  let table : OptionTable := { flags := [], valued := ['s'], long := [("separator", 's')] }
  let (options, operands) ← table.readLeading isOperand call 1
  let numbers ← operands.mapM fun w => match (String.ofList w).toInt? with
    | some n => return n
    | none => call.failUsage 1 ("invalid floating point argument: " ++ quotedName w)
  let (first, step, last) ← match numbers with
    | [] => call.failUsage 1 "missing operand"
    | [last] => pure (1, 1, last)
    | [first, last] => pure (first, 1, last)
    | [first, step, last] => pure (first, step, last)
    | _ => call.failUsage 1 ("extra operand " ++ quotedName (operands.getLastD []))
  if step = 0 then
    call.failUsage 1 ("invalid Zero increment value: " ++ quotedName ((operands[1]?).getD []))
  let count := (last - first).natAbs / step.natAbs + 1
  let texts := (countUp step last count first).map Octets.ofInt
  let separator := (options.value? 's').getD ['\n']
  if !texts.isEmpty then put (separator.intercalate texts ++ ['\n'])
  return 0

end Mutagenesis.Shell.Sequence
