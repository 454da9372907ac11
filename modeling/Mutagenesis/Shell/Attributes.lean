import Mutagenesis.Disk

/-!
# Attributes of files

What is known of the places on a disk besides what they hold: permissions, and the time of the last
change.
-/

namespace Mutagenesis.Shell

/-- What is known of a place. -/
structure Attributes where
  mode : Option Nat := none
  changed : Option Int := none
  deriving Inhabited

def usualMask : Nat := 0o022

def fullMode : Entry → Nat
  | .file _ => 0o666
  | .folder _ | .link _ => 0o777

def masked (mask mode : Nat) : Nat :=
  mode - (mode &&& mask)

abbrev AttributeTable := List (List String × Attributes)

namespace AttributeTable

def find (table : AttributeTable) (place : List String) : Attributes :=
  (table.lookup place).getD {}

def update (table : AttributeTable) (place : List String) (f : Attributes → Attributes) :
    AttributeTable :=
  (place, f (table.find place)) :: table.filter (·.1 ≠ place)

def mode (table : AttributeTable) (place : List String) (entry : Entry) : Nat :=
  match entry with
  | .link _ => 0o777
  | entry => (table.find place).mode.getD (masked usualMask (fullMode entry))

def mayRun (table : AttributeTable) (place : List String) : Bool :=
  (table.find place).mode.any fun m => m &&& 0o111 ≠ 0

def made (table : AttributeTable) (mask : Nat) (now : Int) (place : List String) (full : Nat) :
    AttributeTable :=
  table.update place fun _ => { mode := some (masked mask full), changed := some now }

def changed (table : AttributeTable) (now : Int) (place : List String) : AttributeTable :=
  table.update place fun a => { a with changed := some now }

def moved (table : AttributeTable) (start goal : List String) : AttributeTable :=
  (table.filter fun (p, _) => !goal.isPrefixOf p).map fun (p, a) =>
    (if start.isPrefixOf p then goal ++ p.drop start.length else p, a)

def onDisk (table : AttributeTable) (d : Disk) : AttributeTable :=
  table.filter fun (p, _) => (d.top.at? p).isSome

end AttributeTable

def firstMoment : Int := 1767225600000000

end Mutagenesis.Shell
