import Mutagenesis.Shell.Awk.Run

/-!
# The program `awk`

A script is run for the records of files.
-/

namespace Mutagenesis.Shell.Awk

open Work

/-- The options of a call with their values, and its operands. -/
def readCall (call : Call) : (steps : Nat) → List Octets → Work (List (Char × Octets) × List Octets)
  | 0, words => return ([], words)
  | steps + 1, words => do
    match words with
    | ('-' :: c :: attached) :: rest =>
      if c ∉ ['f', 'F', 'v'] then call.fail 2 ("not an option: -" ++ c :: attached)
      let (value, rest) :=
        if attached.isEmpty then (rest.headD [], rest.drop 1) else (attached, rest)
      let (options, operands) ← readCall call steps rest
      return ((c, value) :: options, operands)
    | _ => return ([], words)

def Machine.start (call : Call) (operands : List Octets) : Machine :=
  let values : List (String × Cell) :=
    [("FS", .text [' ']), ("OFS", .text [' ']), ("ORS", .text ['\n'])]
  { call := call, files := operands
    cells := Std.HashMap.ofList (values.map fun (name, c) => (name.toList, c)) }

def awk : Program := fun call => do
  let (options, operands) ← readCall call (call.args.length + 1) call.args
  let (text, operands) ← match options.lookup 'f' with
    | none => pure (operands.headD [], operands.drop 1)
    | some path =>
      match ← inputAt path with
      | .ok text => pure (text, operands)
      | .error fault => call.fail 2 ("cannot open \"" ++ path ++ "\" (" ++ reason fault ++ [')'])
  match readScript text with
  | .error message =>
    call.complain message
    return 2
  | .ok rules =>
    let act : Run Unit := do
      options.forM fun (c, a) => do
        if c = 'f' then return ()
        let a := if c = 'F' then "FS=" ++ a else a
        let name := a.takeWhile (· ≠ '=')
        let value := a.drop (name.length + 1)
        Run.setVariable name (.input (unescaped (value.length + 1) value))
      Run.runScript rules
    let (outcome, machine) ← act.run (Machine.start call operands)
    put machine.output.reverse.flatten
    if outcome matches .error .endless then
      modify fun t => { t with time := t.time + Nat.pow 10 12 }
    return machine.status

end Mutagenesis.Shell.Awk
