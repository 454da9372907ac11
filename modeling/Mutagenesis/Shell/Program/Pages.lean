import Mutagenesis.Shell.Program.Lines

/-!
# Programs that lay lines out

Programs that number lines, turn their order around, wrap them at a width, or exchange tabulators
for spaces.
-/

namespace Mutagenesis.Shell

open Work

def nl : Program := fun call => do
  let (options, operands) ← OptionTable.read { flags := [], valued := ['b'] } call 1
  let all := options.value? 'b' = some ['a']
  let contents ← (orInput operands).mapM fun path => do
    match ← inputAt path with
    | .ok content => return content
    | .error fault => call.fail 1 (plainName path ++ ": " ++ reason fault)
  let _ ← (Octets.lines contents.flatten).foldlM (fun k l => do
    let isNumbered := all || !l.isEmpty
    putLine (if isNumbered then lineNumber 6 k ++ '\t' :: l else List.replicate 7 ' ' ++ l)
    return if isNumbered then k + 1 else k) 1
  return 0

def tac : Program := fun call => do
  let outcomes ← (orInput call.args).mapM fun path => do
    match ← inputAt path with
    | .ok content => return some (linesWithEnds '\n' content).reverse.flatten
    | .error fault =>
      call.complain ("failed to open " ++ quotedName path ++ " for reading: " ++ reason fault)
      return none
  put (outcomes.flatMap (·.getD []))
  return if outcomes.all Option.isSome then 0 else 1

def foldLine (spaces : Bool) (width : Nat) : (steps : Nat) → (part : Octets) → Octets → Octets
  | 0, part, cs => part.reverse ++ cs
  | _ + 1, part, [] => part.reverse
  | steps + 1, part, c :: cs =>
    if part.length < width then foldLine spaces width steps (c :: part) cs
    else
      let after := part.takeWhile fun c => !(c = ' ' ∨ c = '\t')
      let upTo := part.drop after.length
      if spaces ∧ !upTo.isEmpty then
        upTo.reverse ++ '\n' :: foldLine spaces width steps after (c :: cs)
      else part.reverse ++ '\n' :: foldLine spaces width steps [] (c :: cs)

def fold : Program := fun call => do
  let (options, operands) ← OptionTable.read
    { flags := ['s'], valued := ['w'] } call 1
  let width ← match options.value? 'w' with
    | none => pure 80
    | some w =>
      match (Octets.nat? w).filter (0 < ·) with
      | some n => pure n
      | none => call.fail 1 ("invalid number of columns: " ++ quotedName w)
  forInputs call operands fun _ content =>
    put ((linesWithEnds '\n' content).flatMap fun l =>
      let ended := l.getLast? = some '\n'
      let body := if ended then l.dropLast else l
      foldLine (options.has 's') width (2 * body.length + 1) [] body ++
        if ended then ['\n'] else [])

def expandLine (size : Nat) : (column : Nat) → Octets → Octets
  | _, [] => []
  | column, c :: cs =>
    if c = '\t' then
      let stop := column / size * size + size
      List.replicate (stop - column) ' ' ++ expandLine size stop cs
    else c :: expandLine size (column + 1) cs

def expand : Program := fun call => do
  let (options, operands) ← OptionTable.read { flags := [], valued := ['t'] } call 1
  let size := ((options.value? 't').bind Octets.nat?).getD 8
  forInputs call operands fun _ content =>
    put ((linesWithEnds '\n' content).flatMap (expandLine size 0))

end Mutagenesis.Shell
