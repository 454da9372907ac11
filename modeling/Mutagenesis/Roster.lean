/-!
# Rosters

A roster is a list of entries of which each has a key. Putting an entry in replaces the one with
the same key where it stands, or else appends it, so the order is that in which the keys first
came.
-/

set_option autoImplicit false

namespace Mutagenesis.Roster

variable {α κ : Type} [DecidableEq κ]

/-- Replaces the entry with the same key in its place, or appends the entry. -/
def put (key : α → κ) (x : α) : List α → List α
  | [] => [x]
  | y :: rest => if key y = key x then x :: rest else y :: put key x rest

/-- The first entry with a key. -/
def find? (key : α → κ) (k : κ) (entries : List α) : Option α :=
  entries.find? (key · = k)

def has (key : α → κ) (k : κ) (entries : List α) : Bool :=
  entries.any (key · = k)

/-- The entries without those that have the key. -/
def erase (key : α → κ) (k : κ) (entries : List α) : List α :=
  entries.filter (key · ≠ k)

/-- The entries of a list, each put in turn. -/
def ofList (key : α → κ) (entries : List α) : List α :=
  entries.foldl (fun sofar x => put key x sofar) []

end Mutagenesis.Roster
