import Mutagenesis.Shell.Octets

/-!
# Written permissions

Permissions are written as octal digits, or as changes: who gets which ones in addition, loses them,
or gets only them.
-/

namespace Mutagenesis.Shell.Permissions

def without (bits others : Nat) : Nat :=
  bits - (bits &&& others)

def all : Nat := 0o7777

def ofUsers (who : Octets) : Nat :=
  who.foldl (fun n c => n ||| (match c with
    | 'u' => 0o4700
    | 'g' => 0o2070
    | 'o' => 0o1007
    | _ => all)) 0

def ofLetters (isFolder : Bool) (before : Nat) (letters : Octets) : Nat :=
  letters.foldl (fun n c => n ||| (match c with
    | 'r' => 0o444
    | 'w' => 0o222
    | 'x' => 0o111
    | 'X' => if isFolder ∨ before &&& 0o111 ≠ 0 then 0o111 else 0
    | 's' => 0o6000
    | _ => 0o1000)) 0

def octal (digits : Octets) : Nat :=
  digits.foldl (fun n c => n * 8 + (c.toNat - '0'.toNat)) 0

def isOctal (c : Char) : Bool :=
  '0' ≤ c && c ≤ '7'

def clause? (mask : Nat) (isFolder : Bool) (who : Nat) :
    (steps : Nat) → (now : Nat) → Octets → Option Nat
  | 0, now, _ => some now
  | steps + 1, now, cs =>
    match cs with
    | [] => some now
    | operator :: rest =>
      if operator ∉ ['+', '-', '='] then none
      else
        let letters := rest.takeWhile (· ∈ ['r', 'w', 'x', 'X', 's', 't'])
        let reach := if who = 0 then without all mask else who
        let value := ofLetters isFolder now letters &&& reach
        let kept := if operator ≠ '=' then now
          else if who = 0 then (if isFolder then now &&& 0o6000 else 0)
          else without now who
        let after := if operator = '-' then without now value else kept ||| value
        clause? mask isFolder who steps after (rest.drop letters.length)

def change? (mask : Nat) (isFolder : Bool) (before : Nat) (w : Octets) : Option Nat :=
  if !w.isEmpty ∧ w.all isOctal then
    let value := octal w
    if all < value then none
    else some (if isFolder ∧ w.length < 5 then value ||| (before &&& 0o6000) else value)
  else if w.isEmpty then none
  else
    (Text.pieces ',' w).foldlM (fun now clause =>
      let who := clause.takeWhile (· ∈ ['u', 'g', 'o', 'a'])
      let changes := clause.drop who.length
      if changes.isEmpty then none
      else clause? mask isFolder (ofUsers who) (clause.length + 1) now changes) before

def digits (mode : Nat) : Octets :=
  Nat.toDigits 8 mode

def fourDigits (mode : Nat) : Octets :=
  let ds := digits mode
  List.replicate (4 - ds.length) '0' ++ ds

end Mutagenesis.Shell.Permissions
