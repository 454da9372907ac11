import Mutagenesis.Binary64
import Mutagenesis.Shell.Arithmetic

/-!
# Floating point numbers of programs

A floating point number is finite, infinite, or none at all.
-/

namespace Mutagenesis.Shell

/-- A floating point number. -/
inductive Quantity where
  | finite (x : Binary64)
  | infinite (negative : Bool)
  | undefined (negative : Bool)
  deriving DecidableEq

namespace Quantity

def zero : Quantity :=
  finite (Binary64.zero false)

instance : Inhabited Quantity := ⟨zero⟩

def ofBits (bits : Nat) : Quantity :=
  let negative := bits / Nat.pow 2 63 % 2 = 1
  let power : Nat := bits / Nat.pow 2 52 % Nat.pow 2 11
  let digits := bits % Nat.pow 2 52
  if power = 2047 then if digits = 0 then infinite negative else undefined negative
  else if power = 0 then finite ⟨negative, digits, -1074⟩
  else finite ⟨negative, Nat.pow 2 52 + digits, (power : Int) - 1075⟩

def toBits (q : Quantity) : Nat :=
  let sign (negative : Bool) : Nat := if negative then Nat.pow 2 63 else 0
  match q with
  | infinite negative => sign negative + 2047 * Nat.pow 2 52
  | undefined negative => sign negative + 2047 * Nat.pow 2 52 + Nat.pow 2 51
  | finite x =>
    if x.significand < Nat.pow 2 52 then sign x.negative + x.significand
    else sign x.negative + (x.exponent + 1075).toNat * Nat.pow 2 52 + (x.significand - Nat.pow 2 52)

def ofFloat (x : Float) : Quantity :=
  ofBits x.toBits.toNat

def toFloat (q : Quantity) : Float :=
  Float.ofBits q.toBits.toUInt64

def isNegative : Quantity → Bool
  | finite x => x.negative
  | infinite negative | undefined negative => negative

def ofInt (n : Int) : Quantity :=
  match Binary64.nearest? (n < 0) n.natAbs 1 with
  | some x => finite x
  | none => infinite (n < 0)

def truncated (x : Binary64) : Int :=
  let (num, den) := Binary64.scale x.significand 2 x.exponent
  if x.negative then -((num / den : Nat) : Int) else ((num / den : Nat) : Int)

def whole? : Quantity → Option Int
  | finite x =>
    let (num, den) := Binary64.scale x.significand 2 x.exponent
    if num % den = 0 then some (truncated x) else none
  | _ => none

/-- A number at the start of a text. -/
structure Found where
  value : Quantity
  outOfRange : Bool := false
  rest : Octets

def ofQuotient (negative : Bool) (num den : Nat) : Quantity × Bool :=
  match Binary64.nearest? negative num den with
  | none => (infinite negative, true)
  | some x =>
    let (p, q) := Binary64.scale x.significand 2 x.exponent
    (finite x, x.significand < Nat.pow 2 52 && num * q ≠ den * p)

def power (cs : Octets) : Int × Octets :=
  match cs with
  | c :: after =>
    let (sign, digits) : Int × Octets := match after with
      | '-' :: ds => (-1, ds)
      | '+' :: ds => (1, ds)
      | _ => (1, after)
    let ds := digits.takeWhile Char.isDigit
    match if c = 'e' ∨ c = 'E' then Octets.nat? ds else none with
    | some n => (sign * n, digits.drop ds.length)
    | none => (0, cs)
  | [] => (0, [])

def digitsAround (cs : Octets) : Octets × Octets × Octets :=
  let before := cs.takeWhile Char.isDigit
  match cs.drop before.length with
  | '.' :: after => (before, after.takeWhile Char.isDigit, after.dropWhile Char.isDigit)
  | rest => (before, [], rest)

def decimal? (negative : Bool) (cs : Octets) : Option Found :=
  let (before, places, rest) := digitsAround cs
  match Octets.nat? (before ++ places) with
  | none => none
  | some digits =>
    let (e, rest) := power rest
    let e := e - places.length
    if digits = 0 then some { value := finite (Binary64.zero negative), rest := rest }
    else if e + (before ++ places).length < -400 then
      some { value := finite (Binary64.zero negative), outOfRange := true, rest := rest }
    else if 400 < e + (Octets.ofNat digits).length then
      some { value := infinite negative, outOfRange := true, rest := rest }
    else
      let (num, den) := Binary64.scale digits 10 e
      let (value, outOfRange) := ofQuotient negative num den
      some { value := value, outOfRange := outOfRange, rest := rest }

def isSpace (c : Char) : Bool :=
  c = ' ' || (9 ≤ c.toNat && c.toNat ≤ 13)

def read? (cs : Octets) : Option Found :=
  let cs := cs.dropWhile isSpace
  let (negative, unsigned) := match cs with
    | '-' :: rest => (true, rest)
    | '+' :: rest => (false, rest)
    | _ => (false, cs)
  decimal? negative unsigned

end Quantity

end Mutagenesis.Shell
