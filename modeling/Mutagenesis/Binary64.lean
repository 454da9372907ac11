import Mutagenesis.Numeral

/-!
# Binary floating point numbers

A number with a 53-bit significand and a power of two, as documents write them in decimal.
`ofDecimal?` rounds a decimal to the nearest such number, a tie to the even one; `scaled?` rounds
digits and the power of ten before it multiplies them. `text` writes a number with the fewest digits
that read back as the same number, and with a power of ten if it is very large or very small.
-/

set_option autoImplicit false

namespace Mutagenesis

/-- The number `significand * 2 ^ exponent`, negated if `negative`. -/
structure Binary64 where
  negative : Bool
  significand : Nat
  exponent : Int
  deriving DecidableEq, Repr

namespace Binary64

/-- The quotient of two numbers, rounded to the nearest whole number, a tie to the even one. -/
def roundDiv (num den : Nat) : Nat :=
  let q := num / den
  let twice := 2 * (num % den)
  if twice < den then q
  else if den < twice then q + 1
  else if q % 2 = 0 then q else q + 1

/-- The numerator and denominator of `n * b ^ e`. -/
def scale (n b : Nat) (e : Int) : Nat × Nat :=
  if 0 ≤ e then (n * Nat.pow b e.toNat, 1) else (n, Nat.pow b (-e).toNat)

/-- The number nearest to a positive quotient; none if it is too large. -/
def ofQuotient? (negative : Bool) (num den : Nat) : Option Binary64 :=
  let guess : Int := (Nat.log2 num : Int) - (Nat.log2 den : Int) - 52
  let fits (e : Int) : Bool :=
    let (p, q) := scale 1 2 e
    num * q < den * p * Nat.pow 2 53
  let e : Int := if fits (guess - 1) then guess - 1 else if fits guess then guess else guess + 1
  let e : Int := max e (-1074)
  let (p, q) := scale 1 2 e
  let m := roundDiv (num * q) (den * p)
  let (m, e) := if m = Nat.pow 2 53 then (Nat.pow 2 52, e + 1) else (m, e)
  if 971 < e then none else some ⟨negative, m, e⟩

/-- The number nearest to `digits * 10 ^ power`; none if it is too large. -/
def ofDecimal? (negative : Bool) (digits : Nat) (power : Int) : Option Binary64 :=
  let size : Int := (Nat.log2 digits : Int) / 3 + 1
  if digits = 0 ∨ power + size < -400 then some ⟨negative, 0, -1074⟩
  else if 400 < power then none
  else
    let (num, den) := scale digits 10 power
    ofQuotient? negative num den

def zero (negative : Bool) : Binary64 :=
  ⟨negative, 0, -1074⟩

/-- The number nearest to a quotient; none if it is too large. -/
def nearest? (negative : Bool) (num den : Nat) : Option Binary64 :=
  if num = 0 then some (zero negative) else ofQuotient? negative num den

/-- The number times a power of ten, where the power and the result are rounded. A power below the
range is taken in steps of 308 places, each of them rounded. -/
def timesPower? (negative : Bool) : (steps : Nat) → Binary64 → (power : Int) → Option Binary64
  | 0, _, _ => some (zero negative)
  | steps + 1, x, power =>
    let (num, den) := scale x.significand 2 x.exponent
    match ofQuotient? false (Nat.pow 10 (min power.natAbs 308)) 1 with
    | none => none
    | some ten =>
      let (p, q) := scale ten.significand 2 ten.exponent
      if x.significand = 0 then some (zero negative)
      else if 308 < power then none
      else if 0 ≤ power then nearest? negative (num * p) (den * q)
      else
        match nearest? negative (num * q) (den * p) with
        | none => none
        | some y => if -308 ≤ power then some y else timesPower? negative steps y (power + 308)

/-- The number `digits * 10 ^ power` as it comes out if the digits, the power of ten and the result
are rounded one after the other; none if it is too large. -/
def scaled? (negative : Bool) (digits : Nat) (power : Int) : Option Binary64 := do
  timesPower? negative 4 (← nearest? negative digits 1) power

/-- The value of decimal digits read after those worth `value` and the number of digits left out,
which are all from the first on that would make the value too large for 64 bits. -/
def takeDigits (value : Nat) : List Char → Nat × Nat
  | [] => (value, 0)
  | c :: cs =>
    let next := value * 10 + (c.toNat - '0'.toNat)
    if next < Numeral.limit then takeDigits next cs else (value, cs.length + 1)

/-- A decimal `digits * 10 ^ power` lies so close to the number that it reads back as it. -/
def readsBack (x : Binary64) (digits : Nat) (power : Int) : Bool :=
  ofDecimal? x.negative digits power = some x

/-- The greatest power of ten that is not larger than a positive quotient, searched downwards. -/
def leadingPower (num den : Nat) : (tries : Nat) → Int → Int
  | 0, e => e
  | tries + 1, e =>
    let (p, q) := scale 1 10 e
    if den * p ≤ num * q then e else leadingPower num den tries (e - 1)

/-- The decimal with the given number of digits that is nearest to the number and reads back as
it. -/
def decimalOf? (x : Binary64) (num den : Nat) (top : Int) (count : Nat) : Option (Nat × Int) :=
  let power := top - (count - 1 : Nat)
  let (p, q) := scale 1 10 power
  let digits := roundDiv (num * q) (den * p)
  if readsBack x digits power then some (digits, power)
  else if readsBack x (digits + 1) power then some (digits + 1, power)
  else if readsBack x (digits - 1) power then some (digits - 1, power)
  else none

/-- The shortest decimal that reads back as the number: its digits, the last of which is not zero,
and its power of ten. -/
def shortest (x : Binary64) : Nat × Int :=
  if x.significand = 0 then (0, 0)
  else
    let (num, den) := scale x.significand 2 x.exponent
    let top := leadingPower num den 700 310
    let (digits, power) :=
      ((List.range 17).findSome? fun i => decimalOf? x num den top (i + 1)).getD (0, 0)
    let zeros := ((Numeral.write digits).reverse.takeWhile (· = '0')).length
    (digits / Nat.pow 10 zeros, power + zeros)

/-- Digits with a point: `digits * 10 ^ power` written without an exponent. -/
def positional (digits : Nat) (power : Int) : List Char :=
  let ds := Numeral.write digits
  if 0 ≤ power then ds ++ List.replicate power.toNat '0' ++ ['.', '0']
  else
    let places := (-power).toNat
    let padded := List.replicate (places + 1 - ds.length) '0' ++ ds
    padded.take (padded.length - places) ++ '.' :: padded.drop (padded.length - places)

/-- A first digit, the other digits after a point, and a power of ten with its sign. -/
def scientific (digits : Nat) (power : Int) : List Char :=
  let ds := Numeral.write digits
  let exponent := power + (ds.length - 1 : Nat)
  let places := if ds.length ≤ 1 then [] else '.' :: ds.drop 1
  ds.take 1 ++ places ++ ['e', if exponent < 0 then '-' else '+'] ++
    Numeral.write exponent.natAbs

/-- The number in decimal: positional, always with a point, from 10^-5 on and below 10^16, and with
a power of ten outside that range. -/
def text (x : Binary64) : String :=
  let (digits, power) := x.shortest
  let pointAt := power + (Numeral.write digits).length
  let body := if digits = 0 ∨ (-5 < pointAt ∧ pointAt ≤ 16) then positional digits power
    else scientific digits power
  String.ofList ((if x.negative then ['-'] else []) ++ body)

end Binary64

end Mutagenesis
