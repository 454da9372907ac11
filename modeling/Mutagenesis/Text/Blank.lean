/-!
# Blank characters

The characters that separate words (the Unicode property White_Space), and trimming a text of
them at either end.
-/

set_option autoImplicit false

namespace Mutagenesis.Text

def isBlank (c : Char) : Bool :=
  let n := c.toNat
  (0x9 ≤ n && n ≤ 0xD) || n == 0x20 || n == 0x85 || n == 0xA0 || n == 0x1680 ||
    (0x2000 ≤ n && n ≤ 0x200A) || n == 0x2028 || n == 0x2029 || n == 0x202F || n == 0x205F ||
    n == 0x3000

/-- A text without the blanks it starts with. -/
def trimStart (cs : List Char) : List Char :=
  cs.dropWhile isBlank

/-- A text without the blanks it ends with. -/
def trimEnd (cs : List Char) : List Char :=
  (cs.reverse.dropWhile isBlank).reverse

/-- A text without the blanks at either end. -/
def trim (cs : List Char) : List Char :=
  trimEnd (trimStart cs)

/-- The maximal pieces of a text without blanks, in order. -/
def words : List Char → List (List Char)
  | [] => []
  | c :: cs =>
    if isBlank c then words cs
    else if cs.head?.all isBlank then [c] :: words cs
    else
      match words cs with
      | [] => [[c]]
      | word :: rest => (c :: word) :: rest

end Mutagenesis.Text
