import Mutagenesis.Disk
import Mutagenesis.Shell.Arithmetic
import Mutagenesis.Shell.Attributes
import Mutagenesis.Shell.Host

/-!
# Conditions

The conditions that `test` checks: of the disk, of numbers and of texts, joined by `-a` and `-o`,
negated by an exclamation mark, and grouped by parentheses.
-/

namespace Mutagenesis.Shell.Condition

/-- What a word is. -/
inductive Lexeme where
  | nothing
  | operand
  | unary (operator : Octets)
  | binary (operator : Octets)
  | negation
  | conjunction
  | disjunction
  | opening
  | closing
  deriving DecidableEq

def unaryOperators : List String :=
  ["-r", "-w", "-x", "-e", "-f", "-d", "-c", "-s", "-z", "-n", "-h", "-L"]

def binaryOperators : List String :=
  ["=", "!=", "<", ">", "-eq", "-ne", "-ge", "-gt", "-le", "-lt"]

def operator? (w : Octets) : Option Lexeme :=
  let s := String.ofList w
  if s ∈ unaryOperators then some (.unary w)
  else if s ∈ binaryOperators then some (.binary w)
  else
    match s with
    | "!" => some .negation
    | "-a" => some .conjunction
    | "-o" => some .disjunction
    | "(" => some .opening
    | ")" => some .closing
    | _ => none

def isBinary (w : Octets) : Bool :=
  String.ofList w ∈ binaryOperators

def lexeme : List Octets → Lexeme
  | [] => .nothing
  | w :: rest =>
    match operator? w with
    | some (.unary o) =>
      match rest with
      | [] => .operand
      | [_] => .unary o
      | next :: _ => if isBinary next then .operand else .unary o
    | some .opening => if rest.isEmpty then .operand else .opening
    | some l => l
    | none => .operand

/-- Why words state no condition. -/
inductive Fault where
  | notNumber (w : Octets)
  | missingOperand (operator : Octets)
  | unclosed
  | stray (w : Octets)
  deriving DecidableEq

def Fault.message : Fault → Octets
  | notNumber w => "Illegal number: " ++ w
  | missingOperand o => o ++ ": argument expected"
  | unclosed => "closing paren expected"
  | stray w =>
    if w.isEmpty then "unexpected operator" else w ++ ": unexpected operator"

/-- What a condition asks about the disk. -/
structure Facts where
  disk : Disk
  attributes : AttributeTable

def Facts.entry? (facts : Facts) (follow : Bool) (path : Octets) : Option Entry :=
  match facts.disk.entry follow (Octets.toText path) with
  | .ok e => some e
  | .error _ => none

def holdsOfPath (facts : Facts) (operator path : Octets) : Bool :=
  let entry := facts.entry? true path
  match String.ofList operator with
  | "-f" => match entry with
    | some (.file _) => !Host.isDevice path
    | _ => false
  | "-d" => match entry with
    | some (.folder _) => true
    | _ => false
  | "-s" => match entry with
    | some (.file content) => !content.toBytes.isEmpty
    | some (.folder _) => true
    | _ => false
  | "-h" | "-L" => match facts.entry? false path with
    | some (.link _) => true
    | _ => false
  | "-x" => match entry with
    | some (.folder _) => true
    | some _ => match facts.disk.resolve true (Octets.toText path) with
      | .ok place => facts.attributes.mayRun place
      | .error _ => false
    | none => false
  | "-e" | "-r" | "-w" => entry.isSome
  | "-c" => Host.isDevice path
  | _ => false

def number (w : Octets) : Except Fault Int :=
  let blank (c : Char) : Bool := c = ' ' || (9 ≤ c.toNat && c.toNat ≤ 13)
  let trimmed := w.dropWhile blank
  let (sign, unsigned) : Int × Octets := match trimmed with
    | '-' :: rest => (-1, rest)
    | '+' :: rest => (1, rest)
    | _ => (1, trimmed)
  let digits := unsigned.takeWhile Char.isDigit
  match Octets.nat? digits with
  | some n =>
    if (unsigned.drop digits.length).all blank ∧ (n : Int) ≤ Arithmetic.largest then .ok (sign * n)
    else .error (.notNumber w)
  | none => .error (.notNumber w)

def holdsOfBoth (a operator b : Octets) : Except Fault Bool := do
  match String.ofList operator with
  | "=" => return a = b
  | "!=" => return a ≠ b
  | "<" => return Octets.le a b && a ≠ b
  | ">" => return !Octets.le a b
  | "-eq" => return (← number a) = (← number b)
  | "-ne" => return (← number a) ≠ (← number b)
  | "-ge" => return (← number a) ≥ (← number b)
  | "-gt" => return (← number a) > (← number b)
  | "-le" => return (← number a) ≤ (← number b)
  | "-lt" => return (← number a) < (← number b)
  | _ => return false

abbrev Check := StateT (List Octets) (Except Fault)

mutual

def disjunction (facts : Facts) (l : Lexeme) : (steps : Nat) → Check Bool
  | 0 => return false
  | steps + 1 => do
    let first ← conjunction facts l steps
    let words ← get
    if lexeme words.tail = .disjunction then
      set (words.drop 2)
      let second ← disjunction facts (lexeme (words.drop 2)) steps
      return first || second
    else return first

def conjunction (facts : Facts) (l : Lexeme) : (steps : Nat) → Check Bool
  | 0 => return false
  | steps + 1 => do
    let first ← negation facts l steps
    let words ← get
    if lexeme words.tail = .conjunction then
      set (words.drop 2)
      let second ← conjunction facts (lexeme (words.drop 2)) steps
      return first && second
    else return first

def negation (facts : Facts) (l : Lexeme) : (steps : Nat) → Check Bool
  | 0 => return false
  | steps + 1 => do
    if l = .negation then
      let words ← get
      let next := lexeme words.tail
      if next ≠ .nothing then set words.tail
      return !(← negation facts next steps)
    else primary facts l steps

def primary (facts : Facts) (l : Lexeme) : (steps : Nat) → Check Bool
  | 0 => return false
  | steps + 1 => do
    let words ← get
    match l with
    | .nothing => return false
    | .opening =>
      set words.tail
      if lexeme words.tail = .closing then return false
      let value ← disjunction facts (lexeme words.tail) steps
      modify List.tail
      if lexeme (← get) = .closing then return value
      else throw .unclosed
    | .unary o =>
      set words.tail
      match words.tail with
      | [] => throw (.missingOperand o)
      | w :: _ =>
        match String.ofList o with
        | "-z" => return w.isEmpty
        | "-n" => return !w.isEmpty
        | _ => return holdsOfPath facts o w
    | _ =>
      match words with
      | a :: rest =>
        match lexeme rest with
        | .binary o =>
          match rest with
          | _ :: b :: _ =>
            set (rest.drop 1)
            liftM (holdsOfBoth a o b)
          | _ => throw (.missingOperand o)
        | _ => return !a.isEmpty
      | [] => return false

end

def isEnclosed (first last : String) (words : List Octets) : Bool :=
  words.head? = some first.toList && words.getLast? = some last.toList

def checkFrom (facts : Facts) (l : Lexeme) (words : List Octets) : Except Fault Bool := do
  let (value, rest) ← (disjunction facts l (8 * words.length + 8)).run words
  match rest with
  | w :: _ :: _ => throw (.stray w)
  | _ => return value

def holds (facts : Facts) : List Octets → Except Fault Bool
  | [] => .ok false
  | [a, o, b] =>
    if isBinary o then checkFrom facts .operand [a, o, b]
    else if isEnclosed "(" ")" [a, o, b] then checkFrom facts (lexeme [o]) [o]
    else if a = ['!'] then (!·) <$> holds facts [o, b]
    else checkFrom facts (lexeme [a, o, b]) [a, o, b]
  | [a, b, c, d] =>
    if isEnclosed "(" ")" [a, b, c, d] then checkFrom facts (lexeme [b, c]) [b, c]
    else if a = ['!'] then (!·) <$> holds facts [b, c, d]
    else checkFrom facts (lexeme [a, b, c, d]) [a, b, c, d]
  | words => checkFrom facts (lexeme words) words

end Mutagenesis.Shell.Condition
