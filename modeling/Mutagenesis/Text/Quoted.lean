import Mutagenesis.Text.Runs

/-!
# Quoted texts

A text in double quotes, as messages show it: quotes and backslashes are escaped, and so are the
characters that a reader could not see.
-/

set_option autoImplicit false

namespace Mutagenesis.Text

/-- A character that does not show by itself in a printed text. -/
def isHidden (c : Char) : Bool :=
  let n := c.toNat
  if n < 0x80 then n < 0x20 || n == 0x7F
  else inRuns hiddenRuns (n - 0x80)

def quoteChar (c : Char) : List Char :=
  if c = '"' then ['\\', '"']
  else if c = '\\' then ['\\', '\\']
  else if c = '\n' then ['\\', 'n']
  else if c = '\r' then ['\\', 'r']
  else if c = '\t' then ['\\', 't']
  else if c.toNat = 0 then ['\\', '0']
  else if isHidden c then ['\\', 'u', '{'] ++ Nat.toDigits 16 c.toNat ++ ['}']
  else [c]

def quoted (s : String) : String :=
  String.ofList ('"' :: s.toList.flatMap quoteChar ++ ['"'])

end Mutagenesis.Text
