/-!
# Sizes in bytes

Offsets and columns count bytes of the UTF-8 form. `splitAtByte?` cuts a text at a byte offset
that falls between two characters.
-/

set_option autoImplicit false

namespace Mutagenesis.Text

/-- The number of bytes of a text's UTF-8 form. -/
def byteLength : List Char → Nat
  | [] => 0
  | c :: cs => c.utf8Size + byteLength cs

/-- The text before and after a byte offset; none if the offset is beyond the end or inside a
character. -/
def splitAtByte? : Nat → List Char → Option (List Char × List Char)
  | 0, cs => some ([], cs)
  | _ + 1, [] => none
  | n + 1, c :: cs =>
    if c.utf8Size ≤ n + 1 then
      (splitAtByte? (n + 1 - c.utf8Size) cs).map fun (before, rest) => (c :: before, rest)
    else none

@[simp]
theorem byteLength_nil : byteLength [] = 0 := rfl

@[simp]
theorem byteLength_cons (c : Char) (cs : List Char) :
    byteLength (c :: cs) = c.utf8Size + byteLength cs := rfl

@[simp]
theorem byteLength_append (as bs : List Char) :
    byteLength (as ++ bs) = byteLength as + byteLength bs := by
  induction as with
  | nil => simp
  | cons a as ih => simp [ih, Nat.add_assoc]

end Mutagenesis.Text
