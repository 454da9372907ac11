import Mutagenesis.Shell.Program.Lines

/-!
# Programs that copy and cut blocks

`dd` copies blocks of bytes, and `split` cuts a file into parts.
-/

namespace Mutagenesis.Shell.Blocks

open Work

def scaled? (w : Octets) : Option Nat :=
  let digits := w.takeWhile Char.isDigit
  let scale := match w.drop digits.length with
    | [] | ['c'] => some 1
    | ['b'] => some 512
    | ['k'] | ['K'] => some 1024
    | ['M'] => some (1024 * 1024)
    | _ => none
  match Octets.nat? digits, scale with
  | some n, some s => some (n * s)
  | _, _ => none

/-- What `dd` is asked for. -/
structure Copy where
  source : Octets := ['-']
  target : Octets := "/dev/stdout"
  size : Nat := 512
  count : Option Nat := none
  skip : Nat := 0
  seek : Nat := 0

def readOperand (call : Call) (c : Copy) (w : Octets) : Work Copy := do
  let name := w.takeWhile (· ≠ '=')
  let value := w.drop (name.length + 1)
  let number (_ : Unit) : Work Nat :=
    match scaled? value with
    | some n => return n
    | none => call.fail 1 ("invalid number: " ++ quotedName value)
  match String.ofList name with
  | "if" => return { c with source := value }
  | "of" => return { c with target := value }
  | "bs" => return { c with size := ← number () }
  | "count" => return { c with count := some (← number ()) }
  | "skip" => return { c with skip := ← number () }
  | "seek" => return { c with seek := ← number () }
  | _ => call.failUsage 1 ("unrecognized operand " ++ quotedName w)

def dd : Program := fun call => do
  let c ← call.args.foldlM (readOperand call) {}
  let openFailed (path : Octets) (fault : DiskFault) : Work Octets :=
    call.fail 1 ("failed to open " ++ quotedName path ++ ": " ++ reason fault)
  let input ← match ← inputAt c.source with
    | .ok content => pure content
    | .error fault => openFailed c.source fault
  let before ← if c.seek = 0 then pure [] else match ← contentAt c.target with
    | .ok content => pure content
    | .error .noEntry => pure []
    | .error fault => openFailed c.target fault
  let rest := input.drop (c.skip * c.size)
  let taken := (c.count.map fun n => rest.take (n * c.size)).getD rest
  let lead := before.take (c.seek * c.size)
  let lead := lead ++ List.replicate (c.seek * c.size - lead.length) '\x00'
  if let .error fault ← writeFile c.target (lead ++ taken) then
    discard (openFailed c.target fault)
  let length := taken.length
  let records := Octets.ofNat (length / c.size) ++
    '+' :: Octets.ofNat (if length % c.size = 0 then 0 else 1)
  complain (records ++ " records in")
  complain (records ++ " records out")
  complain (Octets.ofNat length ++ (if length = 1 then " byte" else " bytes").toList ++
    " copied, 0.0001 s, 0.0 kB/s")
  return 0

def letters : (length : Nat) → Nat → Octets
  | 0, _ => []
  | length + 1, value => letters length (value / 26) ++ [Char.ofNat ('a'.toNat + value % 26)]

/-- The ending of the name of a part: two letters, and more after a `z` for each that is full. -/
def ending : (steps : Nat) → (level index : Nat) → Octets
  | 0, level, index => letters (level + 2) index
  | steps + 1, level, index =>
    let size := 25 * Nat.pow 26 (level + 1)
    if index < size then List.replicate level 'z' ++ letters (level + 2) index
    else ending steps (level + 1) (index - size)

def groupsOf (size : Nat) : (steps : Nat) → List Octets → List Octets
  | 0, _ => []
  | _ + 1, [] => []
  | steps + 1, rs => (rs.take size).flatten :: groupsOf size steps (rs.drop size)

def split : Program := fun call => do
  let (options, operands) ← OptionTable.read { flags := [], valued := ['l', 'b'] } call 1
  let path := operands.headD ['-']
  let number (what : String) (w : Octets) : Work Nat :=
    match (scaled? w).filter (0 < ·) with
    | some n => return n
    | none => call.fail 1 (s!"invalid number of {what}: ".toList ++ quotedName w)
  let lines ← number "lines" ((options.value? 'l').getD "1000")
  let bytes ← number "bytes" ((options.value? 'b').getD ['1'])
  match ← inputAt path with
  | .error fault =>
    call.fail 1 ("cannot open " ++ quotedName path ++ " for reading: " ++ reason fault)
  | .ok content =>
    let parts := if options.has 'b' then groupsOf bytes (content.length + 1) (content.map ([·]))
      else groupsOf lines (content.length + 1) (linesWithEnds '\n' content)
    parts.zipIdx.forM fun (part, i) => do
      let name := (operands[1]?).getD ['x'] ++ ending 20 0 i
      if let .error fault ← writeFile name part then
        call.fail 1 (plainName name ++ ": " ++ reason fault)
    return 0

end Mutagenesis.Shell.Blocks
