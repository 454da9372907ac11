import Mutagenesis.Shell.Octets

/-!
# Arithmetic

The expressions of the shell's arithmetic, on whole numbers of 64 bits that wrap around.
-/

namespace Mutagenesis.Shell.Arithmetic

/-- Why an expression has no value. -/
inductive Fault where
  | expression (reason : String)
  | number (value : Octets)
  deriving DecidableEq

def Fault.message (whole : Octets) : Fault → Octets
  | expression reason => s!"arithmetic expression: {reason}: \"".toList ++ whole ++ ['"']
  | number value => "Illegal number: " ++ value

/-- A token of an expression. -/
inductive Token where
  | number (n : Int)
  | name (cs : Octets)
  | mark (text : String)
  deriving DecidableEq

def wrap (n : Int) : Int :=
  Int.bmod n (Nat.pow 2 64)

def largest : Int := Nat.pow 2 63 - 1

def digit? (c : Char) : Option Nat :=
  if c.isDigit then some (c.toNat - '0'.toNat)
  else if 'a' ≤ c ∧ c ≤ 'f' then some (c.toNat - 'a'.toNat + 10)
  else if 'A' ≤ c ∧ c ≤ 'F' then some (c.toNat - 'A'.toNat + 10)
  else none

def digits (base : Nat) (value : Nat) : Octets → Nat × Octets
  | [] => (value, [])
  | c :: cs =>
    match digit? c with
    | some d => if d < base then digits base (value * base + d) cs else (value, c :: cs)
    | none => (value, c :: cs)

def constant (cs : Octets) : Nat × Octets :=
  match cs with
  | '0' :: x :: d :: rest =>
    if (x = 'x' ∨ x = 'X') ∧ (digit? d).isSome then digits 16 0 (d :: rest)
    else digits 8 0 (x :: d :: rest)
  | '0' :: rest => digits 8 0 rest
  | _ => digits 10 0 cs

def marks : List String :=
  ["<<=", ">>=", "<<", ">>", "<=", ">=", "==", "!=", "&&", "||", "+=", "-=", "*=", "/=", "%=", "&=",
   "|=", "^=", "<", ">", "=", "!", "&", "|", "+", "-", "*", "/", "%", "^", "~", "?", ":", "(", ")"]

def tokensFrom : (steps : Nat) → Octets → List Token
  | 0, _ => []
  | _ + 1, [] => []
  | steps + 1, c :: cs =>
    if c = ' ' ∨ c = '\t' ∨ c = '\n' then tokensFrom steps cs
    else if c.isDigit then
      let (n, rest) := constant (c :: cs)
      .number (min (n : Int) largest) :: tokensFrom steps rest
    else if isNameStart c then
      let name := (c :: cs).takeWhile isNameChar
      .name name :: tokensFrom steps ((c :: cs).drop name.length)
    else
      let text := (marks.find? fun m => m.toList.isPrefixOf (c :: cs)).getD (String.ofList [c])
      .mark text :: tokensFrom steps ((c :: cs).drop text.length)

def tokens (cs : Octets) : List Token :=
  tokensFrom (cs.length + 1) cs

def numberOf (value : Octets) : Except Fault Int :=
  let blank (c : Char) : Bool := c = ' ' || (9 ≤ c.toNat && c.toNat ≤ 13)
  let trimmed := value.dropWhile blank
  let (negative, unsigned) := match trimmed with
    | '-' :: rest => (true, rest)
    | '+' :: rest => (false, rest)
    | _ => (false, trimmed)
  if trimmed.isEmpty then .ok 0
  else if !(unsigned.head?.any Char.isDigit) then .error (.number value)
  else
    let (n, rest) := constant unsigned
    let n : Int := if negative then -n else n
    if rest.all blank ∧ -(Nat.pow 2 63 : Int) ≤ n ∧ n ≤ largest then .ok n
    else .error (.number value)

/-- The state of evaluating an expression: the tokens that are left, and the variables that were
assigned, the latest first. -/
structure State where
  left : List Token
  assigned : List (Octets × Int) := []

abbrev Evaluation := EStateM Fault State

def illFormed {α : Type} (reason : String) : Evaluation α :=
  throw (.expression reason)

def next : Evaluation (Option Token) := do
  return (← get).left.head?

def take : Evaluation Unit :=
  modify fun s => { s with left := s.left.tail }

def accept (text : String) : Evaluation Bool := do
  if (← next) = some (.mark text) then
    take
    return true
  else return false

def valueOf (lookup : Octets → Octets) (name : Octets) : Evaluation Int := do
  match (← get).assigned.lookup name with
  | some n => return n
  | none =>
    match numberOf (lookup name) with
    | .ok n => return n
    | .error fault => throw fault

def binding? : Token → Option Nat
  | .mark m =>
    match m with
    | "*" | "/" | "%" => some 0
    | "+" | "-" => some 1
    | "<<" | ">>" => some 2
    | "<" | ">" | "<=" | ">=" => some 3
    | "==" | "!=" => some 4
    | "&" => some 5
    | "^" => some 6
    | "|" => some 7
    | _ => none
  | _ => none

def truth (b : Bool) : Int :=
  if b then 1 else 0

def bits (n : Int) : Nat :=
  (n % Nat.pow 2 64).toNat

def apply (operator : String) (a b : Int) : Evaluation Int :=
  match operator with
  | "*" => return wrap (a * b)
  | "/" => if b = 0 then illFormed "division by zero" else return wrap (a.tdiv b)
  | "%" => if b = 0 then illFormed "division by zero" else return wrap (a.tmod b)
  | "+" => return wrap (a + b)
  | "-" => return wrap (a - b)
  | "<<" => return wrap (a * Nat.pow 2 (bits b % 64))
  | ">>" => return a >>> (bits b % 64)
  | "<" => return truth (a < b)
  | ">" => return truth (a > b)
  | "<=" => return truth (a ≤ b)
  | ">=" => return truth (a ≥ b)
  | "==" => return truth (a = b)
  | "!=" => return truth (a ≠ b)
  | "&" => return wrap (bits a &&& bits b : Nat)
  | "^" => return wrap (bits a ^^^ bits b : Nat)
  | "|" => return wrap (bits a ||| bits b : Nat)
  | _ => illFormed "expecting primary"

def assigning : List (String × String) :=
  [("+=", "+"), ("-=", "-"), ("*=", "*"), ("/=", "/"), ("%=", "%"), ("<<=", "<<"), (">>=", ">>"),
   ("&=", "&"), ("|=", "|"), ("^=", "^")]

mutual

def assignment (lookup : Octets → Octets) (idle : Bool) : (steps : Nat) → Evaluation Int
  | 0 => illFormed "expecting primary"
  | steps + 1 => do
    match (← get).left with
    | .name name :: .mark m :: _ =>
      if m = "=" ∨ (assigning.lookup m).isSome then
        take
        take
        let value ← assignment lookup idle steps
        if idle then return value
        let value ← match assigning.lookup m with
          | some operator => do apply operator (← valueOf lookup name) value
          | none => pure value
        modify fun s => { s with assigned := (name, value) :: s.assigned }
        return value
      else choice lookup idle steps
    | _ => choice lookup idle steps

def choice (lookup : Octets → Octets) (idle : Bool) : (steps : Nat) → Evaluation Int
  | 0 => illFormed "expecting primary"
  | steps + 1 => do
    let a ← disjunction lookup idle steps
    if !(← accept "?") then return a
    let b ← assignment lookup (idle || a == 0) steps
    if !(← accept ":") then illFormed "expecting ':'"
    let c ← choice lookup (idle || a != 0) steps
    return if a = 0 then c else b

def disjunction (lookup : Octets → Octets) (idle : Bool) : (steps : Nat) → Evaluation Int
  | 0 => illFormed "expecting primary"
  | steps + 1 => do
    let a ← conjunction lookup idle steps
    if !(← accept "||") then return a
    let b ← disjunction lookup (idle || a != 0) steps
    return truth (a ≠ 0 ∨ b ≠ 0)

def conjunction (lookup : Octets → Octets) (idle : Bool) : (steps : Nat) → Evaluation Int
  | 0 => illFormed "expecting primary"
  | steps + 1 => do
    let a ← primary lookup idle steps
    let a ← operations lookup idle a 8 steps
    if !(← accept "&&") then return a
    let b ← conjunction lookup (idle || a == 0) steps
    return truth (a ≠ 0 ∧ b ≠ 0)

def operations (lookup : Octets → Octets) (idle : Bool) (a : Int) (bound : Nat) :
    (steps : Nat) → Evaluation Int
  | 0 => illFormed "expecting primary"
  | steps + 1 => do
    match (← get).left with
    | .mark m :: _ =>
      match binding? (.mark m) with
      | some strength =>
        if strength < bound then
          take
          let b ← primary lookup idle steps
          let b ← operations lookup idle b strength steps
          let value ← if idle then pure b else apply m a b
          operations lookup idle value bound steps
        else return a
      | none => return a
    | _ => return a

def primary (lookup : Octets → Octets) (idle : Bool) : (steps : Nat) → Evaluation Int
  | 0 => illFormed "expecting primary"
  | steps + 1 => do
    let first ← next
    take
    match first with
    | some (.number n) => return n
    | some (.name name) => if idle then return 0 else valueOf lookup name
    | some (.mark "(") =>
      let value ← assignment lookup idle steps
      if ← accept ")" then return value else illFormed "expecting ')'"
    | some (.mark "+") => primary lookup idle steps
    | some (.mark "-") => return wrap (-(← primary lookup idle steps))
    | some (.mark "!") => return truth ((← primary lookup idle steps) = 0)
    | some (.mark "~") => return wrap (-(← primary lookup idle steps) - 1)
    | _ => illFormed "expecting primary"

end

def evaluate (lookup : Octets → Octets) (expression : Octets) :
    Except Fault (Int × List (Octets × Int)) :=
  let ts := tokens expression
  match assignment lookup false (8 * ts.length + 8) { left := ts } with
  | .ok value s =>
    if s.left.isEmpty then .ok (value, s.assigned.reverse)
    else .error (.expression "expecting EOF")
  | .error fault _ => .error fault

end Mutagenesis.Shell.Arithmetic
