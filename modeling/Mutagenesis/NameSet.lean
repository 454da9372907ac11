/-!
# Sets of names

A set of names, kept in increasing order and without repetition, so that equal sets are equal
values and listing one shows it in its order.
-/

set_option autoImplicit false

namespace Mutagenesis

/-- A finite set of names, listed in increasing order. -/
structure NameSet where
  names : List String
  increasing : names.Pairwise (· < ·) := by simp
  deriving DecidableEq, Repr

namespace NameSet

/-- Puts a name into an increasing list, unless it is there. -/
def insertName (name : String) : List String → List String
  | [] => [name]
  | other :: rest =>
    if name < other then name :: other :: rest
    else if name = other then other :: rest
    else other :: insertName name rest

theorem mem_insertName {name x : String} {names : List String} :
    x ∈ insertName name names ↔ x = name ∨ x ∈ names := by
  induction names with
  | nil => simp [insertName]
  | cons other rest ih =>
    unfold insertName
    split
    · simp
    · split
      · next h => subst h; simp
      · simp only [List.mem_cons, ih]
        exact ⟨fun h => by rcases h with h | h | h <;> simp [h],
          fun h => by rcases h with h | h | h <;> simp [h]⟩

theorem pairwise_insertName (name : String) {names : List String}
    (h : names.Pairwise (· < ·)) : (insertName name names).Pairwise (· < ·) := by
  induction names with
  | nil => simp [insertName]
  | cons other rest ih =>
    obtain ⟨hlt, hrest⟩ := List.pairwise_cons.1 h
    unfold insertName
    split
    · next hn =>
      refine List.pairwise_cons.2 ⟨?_, h⟩
      intro x hx
      rcases List.mem_cons.1 hx with rfl | hx
      · exact hn
      · exact String.lt_trans hn (hlt x hx)
    · next hn =>
      split
      · exact h
      · next hne =>
        refine List.pairwise_cons.2 ⟨?_, ih hrest⟩
        intro x hx
        rcases mem_insertName.1 hx with rfl | hx
        · rcases String.le_total x other with hle | hle
          · exact absurd (String.le_antisymm hle (String.not_lt.1 hn)) hne
          · exact String.not_le.1 fun hle' => hne (String.le_antisymm hle' hle)
        · exact hlt x hx

/-- The set without names. -/
def empty : NameSet := ⟨[], by simp⟩

instance : Inhabited NameSet := ⟨empty⟩

def insert (set : NameSet) (name : String) : NameSet :=
  ⟨insertName name set.names, pairwise_insertName name set.increasing⟩

def ofList (names : List String) : NameSet :=
  names.foldl insert empty

def contains (set : NameSet) (name : String) : Bool :=
  set.names.contains name

/-- There is no name in the set. -/
def isEmpty (set : NameSet) : Bool :=
  set.names.isEmpty

end NameSet

end Mutagenesis
