/-!
# UTF-8

The bytes of a text, and the text of bytes. Where bytes are no text, reading can fail, or put a
replacement character for each longest piece that could have started a character.
-/

set_option autoImplicit false

namespace Mutagenesis.Text

/-- The bytes of a character. -/
def charBytes (c : Char) : List UInt8 :=
  let n := c.toNat
  if n < 0x80 then [n.toUInt8]
  else if n < 0x800 then [(0xC0 + n / 0x40).toUInt8, (0x80 + n % 0x40).toUInt8]
  else if n < 0x10000 then
    [(0xE0 + n / 0x1000).toUInt8, (0x80 + n / 0x40 % 0x40).toUInt8, (0x80 + n % 0x40).toUInt8]
  else
    [(0xF0 + n / 0x40000).toUInt8, (0x80 + n / 0x1000 % 0x40).toUInt8,
      (0x80 + n / 0x40 % 0x40).toUInt8, (0x80 + n % 0x40).toUInt8]

/-- The bytes of a text. -/
def bytesOf (cs : List Char) : List UInt8 :=
  cs.flatMap charBytes

/-- The ranges of the bytes that follow a first byte. -/
def followers (first : UInt8) : List (UInt8 × UInt8) :=
  let any : UInt8 × UInt8 := (0x80, 0xBF)
  if 0xC2 ≤ first ∧ first ≤ 0xDF then [any]
  else if first = 0xE0 then [(0xA0, 0xBF), any]
  else if first = 0xED then [(0x80, 0x9F), any]
  else if 0xE1 ≤ first ∧ first ≤ 0xEF then [any, any]
  else if first = 0xF0 then [(0x90, 0xBF), any, any]
  else if 0xF1 ≤ first ∧ first ≤ 0xF3 then [any, any, any]
  else if first = 0xF4 then [(0x80, 0x8F), any, any]
  else []

/-- The number of bytes that lie in the ranges, one after the other. -/
def followed : List (UInt8 × UInt8) → List UInt8 → Nat
  | (low, high) :: ranges, b :: bs =>
    if low ≤ b ∧ b ≤ high then followed ranges bs + 1 else 0
  | _, _ => 0

/-- The value of the bytes that follow, after the bits of a first byte. -/
def joinBits (start : Nat) (bs : List UInt8) : Nat :=
  bs.foldl (fun n b => n * 0x40 + b.toNat % 0x40) start

/-- The bits of a first byte that belong to the character, by the number of bytes that follow. -/
def firstBits (first : UInt8) (count : Nat) : Nat :=
  match count with
  | 0 => first.toNat
  | 1 => first.toNat % 0x20
  | 2 => first.toNat % 0x10
  | _ => first.toNat % 0x08

/-- The first character of bytes, if they start with one, and how many bytes it takes; else how
many bytes could have started one. -/
def firstChar (first : UInt8) (rest : List UInt8) : Option Char × Nat :=
  if first < 0x80 then (some (Char.ofNat first.toNat), 1)
  else
    let ranges := followers first
    let count := followed ranges rest
    if ranges.isEmpty ∨ count < ranges.length then (none, count + 1)
    else (some (Char.ofNat (joinBits (firstBits first count) (rest.take count))), count + 1)

/-- Reads bytes as characters; `skip` bytes belong to the character before. -/
def charsFrom (skip : Nat) : List UInt8 → List (Option Char)
  | [] => []
  | b :: bs =>
    match skip with
    | skip + 1 => charsFrom skip bs
    | 0 =>
      let (c, length) := firstChar b bs
      c :: charsFrom (length - 1) bs

/-- The text of bytes, if they are one. -/
def ofBytes? (bs : List UInt8) : Option (List Char) :=
  (charsFrom 0 bs).mapM id

/-- The text of bytes, with a replacement character where they are none. -/
def ofBytesLossy (bs : List UInt8) : List Char :=
  (charsFrom 0 bs).map (·.getD '�')

end Mutagenesis.Text
