import Mutagenesis.Shell.Octets

/-!
# Escapes

What a backslash and the characters after it stand for: a control character, or the character of a
number.
-/

namespace Mutagenesis.Shell.Escapes

def octal (limit : Nat) (cs : Octets) : Option (Char × Octets) :=
  let digits := (cs.take limit).takeWhile fun c => '0' ≤ c ∧ c ≤ '7'
  if digits.isEmpty then none
  else
    let value := digits.foldl (fun n c => n * 8 + (c.toNat - '0'.toNat)) 0
    some (Char.ofNat (value % 256), cs.drop digits.length)

def letter? : Char → Option Char
  | 'a' => some '\x07'
  | 'b' => some '\x08'
  | 'e' => some '\x1b'
  | 'f' => some '\x0c'
  | 'n' => some '\n'
  | 'r' => some '\r'
  | 't' => some '\t'
  | 'v' => some '\x0b'
  | '\\' => some '\\'
  | _ => none

end Mutagenesis.Shell.Escapes
