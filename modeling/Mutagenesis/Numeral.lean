/-!
# Numerals

Unsigned whole numbers as they are written in locations, diffs and arguments: an optional plus
sign and decimal digits, with a value below 2^64. Written numerals have no sign and no leading
zero.
-/

set_option autoImplicit false

namespace Mutagenesis.Numeral

/-- The first number that is too large to be written as a numeral. -/
def limit : Nat := Nat.pow 2 64

/-- The value of decimal digits read after those worth `value`. -/
def digitsValue? : Nat → List Char → Option Nat
  | value, [] => some value
  | value, c :: cs =>
    if c.isDigit then digitsValue? (value * 10 + (c.toNat - '0'.toNat)) cs else none

def unsigned? : List Char → Option Nat
  | [] => none
  | c :: cs => digitsValue? 0 (c :: cs)

/-- Reads a numeral: a plus sign or none, one or more digits, and a value below the limit. -/
def read? (cs : List Char) : Option Nat :=
  let digits := match cs with
    | '+' :: rest => rest
    | _ => cs
  (unsigned? digits).filter (· < limit)

def write (n : Nat) : List Char :=
  Nat.toDigits 10 n

def text (n : Nat) : String :=
  String.ofList (write n)

end Mutagenesis.Numeral
