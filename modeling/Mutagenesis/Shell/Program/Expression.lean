import Mutagenesis.Shell.Program

/-!
# Expressions

`expr` works out an expression whose operators and operands are words.
-/

namespace Mutagenesis.Shell.Expression

/-- The words that are left, and the last one that was taken. -/
structure Source where
  rest : List Octets
  last : Octets := []

/-- The evaluation of words, which may fail with a complaint. -/
abbrev Eval := EStateM Octets Source

def take? (words : List String) : Eval (Option String) := do
  match (← get).rest with
  | w :: rest =>
    if String.ofList w ∈ words then
      set ({ rest := rest, last := w } : Source)
      return some (String.ofList w)
    else return none
  | [] => return none

def takeWord : Eval Octets := do
  let s ← get
  match s.rest with
  | w :: rest =>
    set ({ rest := rest, last := w } : Source)
    return w
  | [] => throw ("syntax error: missing argument after " ++ quotedName s.last)

def integer? (w : Octets) : Option Int :=
  match w with
  | '-' :: digits => (Octets.nat? digits).map fun n => -(n : Int)
  | _ => (Octets.nat? w).map fun n => (n : Int)

def isNull (w : Octets) : Bool :=
  w.isEmpty || integer? w = some 0

def compareValues (a b : Octets) : Ordering :=
  match integer? a, integer? b with
  | some m, some n => compare m n
  | _, _ => if a = b then .eq else if Octets.le a b then .lt else .gt

def holds (operator : String) (o : Ordering) : Bool :=
  match operator with
  | "<" => o == .lt
  | "<=" => o != .gt
  | "=" | "==" => o == .eq
  | "!=" => o != .eq
  | ">=" => o != .lt
  | _ => o == .gt

def calculate (operator : String) (a b : Octets) : Eval Octets := do
  match integer? a, integer? b with
  | some m, some n =>
    match operator with
    | "+" => return Octets.ofInt (m + n)
    | "-" => return Octets.ofInt (m - n)
    | "*" => return Octets.ofInt (m * n)
    | _ =>
      if n = 0 then throw "division by zero".toList
      return Octets.ofInt (if operator = "/" then m.tdiv n else m.tmod n)
  | _, _ => throw "non-integer argument".toList

/-- The operators of two operands at each level, from the loosest on. -/
def levels : List (List String) :=
  [["|"], ["&"], ["<", "<=", "=", "==", "!=", ">=", ">"], ["+", "-"], ["*", "/", "%"]]

def combined (operator : String) (a b : Octets) : Eval Octets :=
  match operator with
  | "|" => return if !isNull a then a else if isNull b then ['0'] else b
  | "&" => return if isNull a ∨ isNull b then ['0'] else a
  | "+" | "-" | "*" | "/" | "%" => calculate operator a b
  | _ => return if holds operator (compareValues a b) then ['1'] else ['0']

mutual

def binary : (steps : Nat) → List (List String) → Eval Octets
  | 0, _ => takeWord
  | steps + 1, [] => operand steps
  | steps + 1, operators :: tighter => do
    binaryFrom steps operators tighter (← binary steps tighter)

def binaryFrom : (steps : Nat) → (operators : List String) → List (List String) → Octets →
    Eval Octets
  | 0, _, _, a => return a
  | steps + 1, operators, tighter, a => do
    match ← take? operators with
    | none => return a
    | some operator =>
      let b ← binary steps tighter
      binaryFrom steps operators tighter (← combined operator a b)

def operand : (steps : Nat) → Eval Octets
  | 0 => takeWord
  | steps + 1 => do
    match ← take? ["length", "(", ")"] with
    | some "length" => return Octets.ofNat (← operand steps).length
    | some "(" =>
      let value ← binary steps levels
      if (← take? [")"]).isNone then
        throw ("syntax error: expecting ')' after " ++ quotedName (← get).last)
      return value
    | some _ => throw "syntax error: unexpected ')'".toList
    | none => takeWord

end

def expr : Program := fun call => do
  if call.args.isEmpty then call.failUsage 2 "missing operand"
  match binary (20 * call.args.length + 20) levels { rest := call.args } with
  | .ok value s =>
    if let w :: _ := s.rest then
      call.fail 2 ("syntax error: unexpected argument " ++ quotedName w)
    Work.putLine value
    return if isNull value then 1 else 0
  | .error message _ => call.fail 2 message

end Mutagenesis.Shell.Expression
