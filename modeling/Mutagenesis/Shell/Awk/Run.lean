import Std.Data.HashMap
import Mutagenesis.Shell.Awk.Script
import Mutagenesis.Shell.Directive
import Mutagenesis.Shell.Program
import Mutagenesis.Shell.Regex

/-!
# Running scripts of `awk`

A value is a number, a text, or a text that came from outside and counts as a number if it looks
like one. Expressions have values and statements have effects.
-/

namespace Mutagenesis.Shell.Awk

/-! ## Values -/

/-- A value. -/
inductive Cell where
  | unset
  | number (x : Quantity)
  | text (s : Octets)
  | input (s : Octets)
  deriving Inhabited

def inputNumber? (s : Octets) : Option Quantity :=
  let looks : Bool := (s.dropWhile Quantity.isSpace).head?.any fun c =>
    c.isDigit || c ∈ ['+', '-', '.']
  match if looks then Quantity.read? s else none with
  | some found => if found.rest.all Quantity.isSpace then some found.value else none
  | none => none

/-- A number without its places, within bounds. -/
def wholeOf (least most : Int) : Quantity → Int
  | .finite x => max least (min most (Quantity.truncated x))
  | .infinite negative => if negative then least else most
  | .undefined _ => least

namespace Cell

def ofInt (n : Int) : Cell :=
  .number (.ofInt n)

def ofBool (b : Bool) : Cell :=
  ofInt (if b then 1 else 0)

def toNumber : Cell → Quantity
  | unset => .zero
  | number x => x
  | text s | input s => ((Quantity.read? s).map (·.value)).getD .zero

def toInt (c : Cell) : Int :=
  wholeOf (-(Nat.pow 2 31 : Int)) (Nat.pow 2 31) c.toNumber

def toText : Cell → Octets
  | unset => []
  | text s | input s => s
  | number x =>
    match x.whole?.filter fun n => -(Nat.pow 2 63 : Int) ≤ n ∧ n < Nat.pow 2 64 with
    | some n => Octets.ofInt n
    | none => Directive.quantity { letter := 'g' } x

def number? : Cell → Option Quantity
  | unset => some .zero
  | number x => some x
  | text _ => none
  | input s => inputNumber? s

def isTrue (c : Cell) : Bool :=
  match c, c.number? with
  | unset, _ => false
  | _, some x => x.toFloat != 0
  | _, none => !c.toText.isEmpty

def order (a b : Cell) : Ordering :=
  match a.number?, b.number? with
  | some x, some y =>
    if x.toFloat < y.toFloat then .lt else if y.toFloat < x.toFloat then .gt else .eq
  | _, _ =>
    let (s, t) := (a.toText, b.toText)
    if s == t then .eq else if Octets.le s t then .lt else .gt

end Cell

def calculated (operation : String) (a b : Quantity) : Quantity :=
  let byFloats (f : Float → Float → Float) : Quantity := .ofFloat (f a.toFloat b.toFloat)
  match operation with
  | "+" => byFloats (· + ·)
  | "-" => byFloats (· - ·)
  | "*" => byFloats (· * ·)
  | "/" => byFloats (· / ·)
  | "%" => byFloats fun x y => x - y * (x / y).toInt64.toFloat
  | _ => byFloats Float.pow

def compared? (operation : String) (o : Ordering) : Option Bool :=
  match operation with
  | "==" => some (o == .eq)
  | "!=" => some (o != .eq)
  | "<" => some (o == .lt)
  | "<=" => some (o != .gt)
  | ">" => some (o == .gt)
  | ">=" => some (o != .lt)
  | _ => none

/-! ## The state -/

/-- The state in which a script runs. -/
structure Machine where
  call : Call
  cells : Std.HashMap Octets Cell
  record : Octets := []
  fields : List Cell := []
  files : List Octets
  named : Bool := false
  source : Option Octets := none
  output : List Octets := []
  status : Nat := 0
  ticks : Nat := 3 * Nat.pow 10 6

abbrev Run := ExceptT Flow (StateT Machine Work)

namespace Run

def lift {α : Type} (act : Work α) : Run α :=
  ExceptT.lift (fun m => do return (← act, m))

def fail {α : Type} (message : Octets) : Run α := do
  let m ← get
  lift (m.call.complain message)
  set { m with status := 2 }
  throw .failed

def tick : Run Unit := do
  let m ← get
  if m.ticks = 0 then throw .endless
  set { m with ticks := m.ticks - 1 }

def textOf (name : String) : Run Octets := do
  return ((← get).cells.getD name.toList .unset).toText

def setGlobal (name : String) (c : Cell) : Run Unit :=
  modify fun m => { m with cells := m.cells.insert name.toList c }

def putOutput (cs : Octets) : Run Unit :=
  modify fun m => { m with output := cs :: m.output }

/-- The form in which patterns of `awk` are read: escapes stand for their characters. -/
def extendedForm : (steps : Nat) → Octets → Octets
  | 0, cs => cs
  | _, [] => []
  | steps + 1, '\\' :: rest =>
    let (c, rest) := (escaped? rest).getD (rest.headD '\\', rest.drop 1)
    let isMark := "\\.[]()*+?\x7b\x7d|^$".toList.contains c
    (if isMark then ['\\', c] else [c]) ++ extendedForm steps rest
  | steps + 1, c :: rest => c :: extendedForm steps rest

def patternOf (s : Octets) : Run Regex := do
  match Regex.parse { extended := true, lenient := true } (extendedForm (s.length + 1) s) with
  | .ok r => return r
  | .error fault =>
    fail ("regular expression compile failed (" ++ fault.toList ++ ")\n" ++ s)

def splitBy (separator s : Octets) : List Octets :=
  match separator with
  | [] => s.map fun c => [c]
  | [' '] =>
    let isGap (c : Char) : Bool := c = ' ' || c = '\t' || c = '\n'
    (s.splitBy fun a b => isGap a == isGap b).filter fun part => !part.all isGap
  | c :: _ => if s.isEmpty then [] else Text.pieces c s

def setRecord (s : Octets) : Run Unit := do
  let parts := splitBy (← textOf "FS") s
  modify fun m => { m with record := s, fields := parts.map .input }

def valueOf (name : Octets) : Run Cell := do
  if name = "NF" then return .ofInt (← get).fields.length
  else return (← get).cells.getD name .unset

def setVariable (name : Octets) (c : Cell) : Run Unit :=
  modify fun m => { m with cells := m.cells.insert name c }

def openNext : List Octets → Run Bool
  | [] => do
    if (← get).named then return false
    let s ← lift Work.takeInput
    modify fun m => { m with source := some s, files := [], named := true }
    return true
  | path :: rest => do
    match ← lift (inputAt path) with
    | .ok s => modify fun m => { m with source := some s, files := rest, named := true }
    | .error fault => fail ("cannot open \"" ++ path ++ "\" (" ++ reason fault ++ [')'])
    setGlobal "FILENAME" (.text path)
    setGlobal "FNR" (.ofInt 0)
    return true

def nextRecord : (steps : Nat) → Run (Option Octets)
  | 0 => return none
  | steps + 1 => do
    match (← get).source with
    | none => if ← openNext (← get).files then nextRecord steps else return none
    | some s =>
      if s.isEmpty then
        modify fun m => { m with source := none }
        nextRecord steps
      else
        let record := s.takeWhile (· ≠ '\n')
        modify fun m => { m with source := some (s.drop (record.length + 1)) }
        return some record

/-! ## Expressions -/

mutual

def evaluate : (steps : Nat) → Expr → Run Cell
  | 0, _ => throw .endless
  | steps + 1, e => do
    match e with
    | .number x => return .number x
    | .text s => return .text s
    | .regex s => return .ofBool ((← patternOf s).findFrom? false (← get).record 0).isSome
    | .variable name => valueOf name
    | .field e =>
      let n := (← evaluate steps e).toInt
      if n < 0 then fail ("negative field index $" ++ Octets.ofInt n)
      let m ← get
      return if n = 0 then .input m.record else m.fields.getD (n.toNat - 1) .unset
    | .assign target "" value =>
      let c ← evaluate steps value
      assign steps target c
      return c
    | .assign target operation value =>
      let y ← evaluate steps value
      let x ← evaluate steps target
      let c := Cell.number (calculated operation x.toNumber y.toNumber)
      assign steps target c
      return c
    | .step first operation target =>
      let before := (← evaluate steps target).toNumber
      let after := calculated operation before (.ofInt 1)
      assign steps target (.number after)
      return .number (if first then after else before)
    | .choice c yes no =>
      if (← evaluate steps c).isTrue then evaluate steps yes else evaluate steps no
    | .operate "~" a b => return .ofBool (← isMatch steps a b)
    | .operate "!~" a b => return .ofBool !(← isMatch steps a b)
    | .operate " " a b => do
      let s := (← evaluate steps a).toText
      return .text (s ++ (← evaluate steps b).toText)
    | .operate operation a b =>
      let x ← evaluate steps a
      let y ← evaluate steps b
      match compared? operation (x.order y) with
      | some holds => return .ofBool holds
      | none => return .number (calculated operation x.toNumber y.toNumber)

def isMatch : (steps : Nat) → Expr → Expr → Run Bool
  | 0, _, _ => throw .endless
  | steps + 1, a, b => do
    let s := (← evaluate steps a).toText
    return ((← pattern steps b).findFrom? false s 0).isSome

def pattern : (steps : Nat) → Expr → Run Regex
  | 0, _ => throw .endless
  | _ + 1, .regex s => patternOf s
  | steps + 1, e => do patternOf (← evaluate steps e).toText

def assign : (steps : Nat) → Expr → Cell → Run Unit
  | 0, _, _ => throw .endless
  | _, .variable name, c => setVariable name c
  | _, _, _ => fail "fields cannot be set"

end

/-! ## Statements -/

def depth : Nat := Nat.pow 10 7

mutual

def execute : (steps : Nat) → Statement → Run Unit
  | 0, _ => throw .endless
  | steps + 1, s => do
    tick
    match s with
    | .evaluate e => discard (evaluate depth e)
    | .print args =>
      let texts ← args.mapM fun e => do return (← evaluate depth e).toText
      let content ← if args.isEmpty then pure (← get).record
        else pure ((← textOf "OFS").intercalate texts)
      putOutput (content ++ (← textOf "ORS"))
    | .block body => sequence steps body
    | .choose c yes no =>
      if (← evaluate depth c).isTrue then execute steps yes else execute steps no
    | .loop c step body => rounds steps c step body
    | .next => throw .next
    | .exit status =>
      if let some e := status then
        let c ← evaluate depth e
        modify fun m => { m with status := (c.toInt % 256).toNat }
      throw .exit

def sequence : (steps : Nat) → List Statement → Run Unit
  | 0, _ => throw .endless
  | _, [] => return ()
  | steps + 1, s :: rest => do
    execute steps s
    sequence steps rest

def rounds : (steps : Nat) → (c step : Option Expr) → Statement → Run Unit
  | 0, _, _, _ => throw .endless
  | steps + 1, c, step, body => do
    let holds ← match c with
      | some e => do pure (← evaluate depth e).isTrue
      | none => pure true
    if holds then
      execute steps body
      if let some e := step then discard (evaluate depth e)
      rounds steps c step body

end

def triggers (t : Trigger) : Run Bool := do
  match t with
  | .start | .stop => return false
  | .always => return true
  | .when e => return (← evaluate depth e).isTrue

def runRules : List Rule → Run Unit
  | [] => return ()
  | r :: rest => do
    if ← triggers r.trigger then execute depth (r.body.getD (.print []))
    runRules rest

def runRecords (rules : List Rule) : (steps : Nat) → Run Unit
  | 0 => throw .endless
  | steps + 1 => do
    match ← nextRecord (Nat.pow 2 20) with
    | none => return ()
    | some record =>
      tick
      ["NR", "FNR"].forM fun name => do
        setGlobal name (.ofInt ((← valueOf name.toList).toInt + 1))
      setRecord record
      try runRules rules
      catch
        | .next => pure ()
        | flow => throw flow
      runRecords rules steps

def untilExit (act : Run Unit) : Run Bool := do
  try
    act
    return true
  catch
    | .exit => return false
    | flow => throw flow

def runScript (rules : List Rule) : Run Unit := do
  let bodies (isOne : Trigger → Bool) : List Statement :=
    (rules.filter fun r => isOne r.trigger).filterMap (·.body)
  let starts := bodies (· matches .start)
  let stops := bodies (· matches .stop)
  let others := rules.length - starts.length
  let goes ← untilExit (sequence depth starts)
  if goes ∧ 0 < others then
    discard (untilExit (runRecords rules (Nat.pow 2 30)))
  discard (untilExit (sequence depth stops))

end Run

end Mutagenesis.Shell.Awk
