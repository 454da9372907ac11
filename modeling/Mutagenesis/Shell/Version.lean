import Mutagenesis.Shell.Octets

/-!
# The order of versions

Names with numbers in them are ordered so that the numbers count by their values.
-/

namespace Mutagenesis.Shell.Version

def rank : Octets → Int
  | [] => -1
  | c :: _ =>
    if c.isDigit then 0
    else if c.isAlpha then c.toNat
    else if c = '~' then -2
    else c.toNat + 256

def atDigit (cs : Octets) : Bool :=
  cs.head?.any Char.isDigit

def compareWords : (steps : Nat) → Octets → Octets → Ordering × Octets × Octets
  | 0, a, b => (.eq, a, b)
  | steps + 1, a, b =>
    if (a.isEmpty ∨ atDigit a) ∧ (b.isEmpty ∨ atDigit b) then (.eq, a, b)
    else
      match compare (rank a) (rank b) with
      | .eq => compareWords steps (a.drop 1) (b.drop 1)
      | o => (o, a, b)

def compareNumbers (a b : Octets) : Ordering :=
  (compare a.length b.length).then
    (if a = b then .eq else if Octets.le a b then .lt else .gt)

def compareParts : (steps : Nat) → Octets → Octets → Ordering
  | 0, _, _ => .eq
  | steps + 1, a, b =>
    if a.isEmpty ∧ b.isEmpty then .eq
    else
      match compareWords (a.length + b.length + 1) a b with
      | (.eq, a, b) =>
        let first := (a.dropWhile (· == '0')).takeWhile Char.isDigit
        let second := (b.dropWhile (· == '0')).takeWhile Char.isDigit
        (compareNumbers first second).then
          (compareParts steps (a.dropWhile Char.isDigit) (b.dropWhile Char.isDigit))
      | (o, _, _) => o

def compareNames (a b : Octets) : Ordering :=
  compareParts (a.length + b.length + 1) a b

end Mutagenesis.Shell.Version
