import Mutagenesis.Text.Runs

/-!
# Word characters

The characters an identifier is made of: letters and numbers in the sense of Unicode, and the
underscore.
-/

set_option autoImplicit false

namespace Mutagenesis.Text

/-- A letter or a number: Unicode's Alphabetic characters and its categories Nd, Nl and No. -/
def isAlphanumeric (c : Char) : Bool :=
  if c.toNat < 0x80 then c.isAlphanum else inRuns wordRuns (c.toNat - 0x80)

def isWord (c : Char) : Bool :=
  isAlphanumeric c || c == '_'

end Mutagenesis.Text
