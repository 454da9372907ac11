import Mutagenesis.Shell.Quantity

/-!
# Directives of formats

A directive says how a number or a text is written: in how many columns, with how many places, and
in what form.
-/

namespace Mutagenesis.Shell

/-- A directive of a format. -/
structure Directive where
  flags : List Char := []
  width : Nat := 0
  precision : Option Nat := none
  letter : Char

namespace Directive

def has (d : Directive) (flag : Char) : Bool :=
  d.flags.contains flag

def withoutZeros (d : Directive) : Directive :=
  { d with flags := d.flags.filter (· != '0') }

def padded (d : Directive) (sign digits : Octets) : Octets :=
  let missing := d.width - (sign.length + digits.length)
  if d.has '-' then sign ++ digits ++ List.replicate missing ' '
  else if d.has '0' then sign ++ List.replicate missing '0' ++ digits
  else List.replicate missing ' ' ++ sign ++ digits

def paddedText (d : Directive) (cs : Octets) : Octets :=
  d.withoutZeros.padded [] cs

def text (d : Directive) (cs : Octets) : Octets :=
  d.paddedText (match d.precision with
    | some n => cs.take n
    | none => cs)

def signOf (d : Directive) (negative : Bool) : Octets :=
  if negative then ['-']
  else if d.has '+' then ['+']
  else if d.has ' ' then [' ']
  else []

def integer (d : Directive) (n : Int) : Octets :=
  let unsigned := (n % Nat.pow 2 64).toNat
  let alternate := d.has '#' && unsigned != 0
  let (sign, digits) : Octets × Octets := match d.letter with
    | 'o' =>
      let digits := Nat.toDigits 8 unsigned
      ([], if alternate then '0' :: digits else digits)
    | 'x' => (if alternate then "0x" else [], Nat.toDigits 16 unsigned)
    | 'X' =>
      (if alternate then "0X" else [], (Nat.toDigits 16 unsigned).map Char.toUpper)
    | 'u' => ([], Octets.ofNat unsigned)
    | _ => (d.signOf (n < 0), Octets.ofNat n.natAbs)
  match d.precision with
  | some places =>
    let digits := if places = 0 ∧ n = 0 ∧ !(d.letter = 'o' ∧ d.has '#') then []
      else List.replicate (places - digits.length) '0' ++ digits
    d.withoutZeros.padded sign digits
  | none => d.padded sign digits

def fixed (x : Binary64) (places : Nat) : Octets :=
  let (num, den) := Binary64.scale x.significand 2 x.exponent
  let n := Binary64.roundDiv (num * Nat.pow 10 places) den
  let digits := Octets.ofNat n
  let digits := List.replicate (places + 1 - digits.length) '0' ++ digits
  let whole := digits.take (digits.length - places)
  if places = 0 then whole else whole ++ '.' :: digits.drop (digits.length - places)

def leadingDigits (x : Binary64) (places : Nat) : Octets × Int :=
  if x.significand = 0 then (List.replicate (places + 1) '0', 0)
  else
    let (num, den) := Binary64.scale x.significand 2 x.exponent
    let bits : Int := (Nat.log2 num : Int) - (Nat.log2 den : Int) + 1
    let e := Binary64.leadingPower num den 700 (bits * 30103 / 100000 + 1)
    let (p, q) := Binary64.scale 1 10 ((places : Int) - e)
    let n := Binary64.roundDiv (num * p) (den * q)
    if Nat.pow 10 (places + 1) ≤ n then (Octets.ofNat (n / 10), e + 1) else (Octets.ofNat n, e)

def powerText (e : Int) : Octets :=
  let digits := Octets.ofNat e.natAbs
  'e' :: (if e < 0 then '-' else '+') :: (List.replicate (2 - digits.length) '0' ++ digits)

def pointed (digits : Octets) : Octets :=
  match digits with
  | d :: e :: rest => d :: '.' :: e :: rest
  | _ => digits

def trimmed (cs : Octets) : Octets :=
  if cs.contains '.' then
    let kept := (cs.reverse.dropWhile (· == '0')).reverse
    if kept.getLast? = some '.' then kept.dropLast else kept
  else cs

def hexadecimal (x : Binary64) : Octets :=
  let bits := Nat.log2 x.significand + 1
  let rest := (x.significand <<< (53 - bits)) % Nat.pow 2 52
  let power := if x.significand = 0 then 0 else x.exponent + bits - 1
  let digits := Nat.toDigits 16 rest
  let digits := List.replicate (13 - digits.length) '0' ++ digits
  let digits := (digits.reverse.dropWhile (· == '0')).reverse
  (if x.significand = 0 then '0' else '1') :: (if digits.isEmpty then [] else '.' :: digits) ++
    'p' :: (if power < 0 then '-' else '+') :: Octets.ofNat power.natAbs

def withPoint (d : Directive) (digits : Octets) : Octets :=
  if d.has '#' ∧ !digits.contains '.' then digits ++ ['.'] else digits

def digitsOf (d : Directive) (letter : Char) (x : Binary64) : Octets :=
  let places := d.precision.getD 6
  match letter with
  | 'e' =>
    let (digits, e) := leadingDigits x places
    d.withPoint (pointed digits) ++ powerText e
  | 'g' =>
    let count := max places 1
    let (digits, e) := leadingDigits x (count - 1)
    let shorten (cs : Octets) : Octets := if d.has '#' then d.withPoint cs else trimmed cs
    if e < -4 ∨ (count : Int) ≤ e then shorten (pointed digits) ++ powerText e
    else shorten (fixed x ((count : Int) - 1 - e).toNat)
  | 'a' => hexadecimal x
  | _ => d.withPoint (fixed x places)

def quantity (d : Directive) (q : Quantity) : Octets :=
  let large := d.letter.isUpper
  let inCase (cs : Octets) : Octets := if large then cs.map Char.toUpper else cs
  let sign := d.signOf q.isNegative
  match q with
  | .infinite _ => d.withoutZeros.padded sign (inCase "inf")
  | .undefined _ => d.withoutZeros.padded sign (inCase "nan")
  | .finite x =>
    let letter := d.letter.toLower
    let lead := if letter = 'a' then inCase "0x" else []
    d.padded (sign ++ lead) (inCase (d.digitsOf letter x))

end Directive

end Mutagenesis.Shell
