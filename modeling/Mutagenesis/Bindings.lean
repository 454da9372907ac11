/-!
# Bindings

A finite map from hole names to texts, kept in increasing order of the names, so that equal maps
are equal values and listing one shows it in its order.
-/

set_option autoImplicit false

namespace Mutagenesis

/-- The texts bound to names, listed in increasing order of the names. -/
structure Bindings where
  entries : List (String × String)
  increasing : entries.Pairwise (fun a b => a.1 < b.1) := by simp
  deriving DecidableEq, Repr

namespace Bindings

/-- Puts an entry into an increasing list; an entry of the same name is replaced. -/
def insertEntry (name text : String) : List (String × String) → List (String × String)
  | [] => [(name, text)]
  | (other, kept) :: rest =>
    if name < other then (name, text) :: (other, kept) :: rest
    else if name = other then (name, text) :: rest
    else (other, kept) :: insertEntry name text rest

theorem fst_of_mem_insertEntry {name text : String} {entries : List (String × String)}
    {x : String × String} (h : x ∈ insertEntry name text entries) :
    x.1 = name ∨ x ∈ entries := by
  induction entries with
  | nil => simp [insertEntry] at h; simp [h]
  | cons entry rest ih =>
    obtain ⟨other, kept⟩ := entry
    unfold insertEntry at h
    split at h
    · rcases List.mem_cons.1 h with rfl | h
      · exact Or.inl rfl
      · exact Or.inr h
    · split at h
      · rcases List.mem_cons.1 h with rfl | h
        · exact Or.inl rfl
        · exact Or.inr (List.mem_cons_of_mem _ h)
      · rcases List.mem_cons.1 h with rfl | h
        · exact Or.inr (List.mem_cons_self ..)
        · exact (ih h).imp_right (List.mem_cons_of_mem _)

theorem pairwise_insertEntry (name text : String) {entries : List (String × String)}
    (h : entries.Pairwise (fun a b => a.1 < b.1)) :
    (insertEntry name text entries).Pairwise (fun a b => a.1 < b.1) := by
  induction entries with
  | nil => simp [insertEntry]
  | cons entry rest ih =>
    obtain ⟨other, kept⟩ := entry
    obtain ⟨hlt, hrest⟩ := List.pairwise_cons.1 h
    unfold insertEntry
    split
    · next hn =>
      refine List.pairwise_cons.2 ⟨?_, h⟩
      intro x hx
      rcases List.mem_cons.1 hx with rfl | hx
      · exact hn
      · exact String.lt_trans hn (hlt x hx)
    · next hn =>
      split
      · next he =>
        subst he
        exact List.pairwise_cons.2 ⟨hlt, hrest⟩
      · next hne =>
        refine List.pairwise_cons.2 ⟨?_, ih hrest⟩
        intro x hx
        rcases fst_of_mem_insertEntry hx with hname | hx
        · have hle : other ≤ name := String.not_lt.1 hn
          have : other < name :=
            String.not_le.1 fun hle' => hne (String.le_antisymm hle' hle)
          exact hname ▸ this
        · exact hlt x hx

def empty : Bindings := ⟨[], by simp⟩

instance : Inhabited Bindings := ⟨empty⟩

/-- Binds a name to a text; an earlier binding of the name is replaced. -/
def insert (b : Bindings) (name text : String) : Bindings :=
  ⟨insertEntry name text b.entries, pairwise_insertEntry name text b.increasing⟩

/-- The bindings of a list of entries; of two entries with one name the later one counts. -/
def ofList (entries : List (String × String)) : Bindings :=
  entries.foldl (fun b entry => b.insert entry.1 entry.2) empty

def get? (b : Bindings) (name : String) : Option String :=
  b.entries.lookup name

end Bindings

end Mutagenesis
