import Mutagenesis.Roster

/-!
# Laws of rosters

What is found under a key after an entry was put (`find?_put`) or erased (`find?_erase`), and in
which order the keys stand (`keys_put`). Entries put one after another leave the keys of before in
their places, add the new ones in the order in which they first come (`keys_putAll`), and the last
entry of a key is the one that is found (`find?_putAll`).
-/

set_option autoImplicit false

namespace Mutagenesis.Roster

variable {α κ : Type} [DecidableEq κ] {key : α → κ}

/-- The entry that was put is found under its key, and nothing else changes. -/
theorem find?_put (x : α) (k : κ) (entries : List α) :
    find? key k (put key x entries) = if key x = k then some x else find? key k entries := by
  induction entries with
  | nil =>
    by_cases hk : key x = k <;> simp [put, find?, hk]
  | cons y rest ih =>
    unfold put
    unfold find? at ih ⊢
    by_cases hy : key y = key x
    · rw [if_pos hy, List.find?_cons, List.find?_cons, hy]
      by_cases hk : key x = k <;> simp [hk]
    · rw [if_neg hy, List.find?_cons, List.find?_cons, ih]
      by_cases hk : key x = k
      · have hyk : key y ≠ k := fun h => hy (h.trans hk.symm)
        simp [hk, hyk]
      · simp [hk]

/-- Nothing is found under a key that was erased, and nothing else changes. -/
theorem find?_erase (k k' : κ) (entries : List α) :
    find? key k' (erase key k entries) = if k = k' then none else find? key k' entries := by
  induction entries with
  | nil => simp [find?, erase]
  | cons y rest ih =>
    unfold erase find? at ih ⊢
    by_cases hy : key y = k
    · rw [List.filter_cons_of_neg (by simp [hy]), ih, List.find?_cons, hy]
      by_cases hk : k = k' <;> simp [hk]
    · rw [List.filter_cons_of_pos (by simp [hy]), List.find?_cons, List.find?_cons, ih]
      by_cases hk : k = k'
      · simp [← hk, hy]
      · simp [hk]

theorem has_eq_isSome_find? (k : κ) (entries : List α) :
    has key k entries = (find? key k entries).isSome := by
  unfold has find?
  rw [Bool.eq_iff_iff, List.find?_isSome, List.any_eq_true]

theorem has_put (x : α) (k : κ) (entries : List α) :
    has key k (put key x entries) = (decide (key x = k) || has key k entries) := by
  rw [has_eq_isSome_find?, has_eq_isSome_find?, find?_put]
  by_cases hk : key x = k <;> simp [hk]

theorem has_erase (k k' : κ) (entries : List α) :
    has key k' (erase key k entries) = (decide (k ≠ k') && has key k' entries) := by
  rw [has_eq_isSome_find?, has_eq_isSome_find?, find?_erase]
  by_cases hk : k = k' <;> simp [hk]

variable {entries : List α}

/-- What is in a roster after an entry is put is the entry or was there. -/
theorem mem_put {x y : α} (h : y ∈ put key x entries) : y = x ∨ y ∈ entries := by
  induction entries with
  | nil => exact Or.inl (by simpa [put] using h)
  | cons z rest ih =>
    unfold put at h
    split at h
    · rcases List.mem_cons.mp h with rfl | h
      · exact Or.inl rfl
      · exact Or.inr (by simp [h])
    · rcases List.mem_cons.mp h with rfl | h
      · exact Or.inr (by simp)
      · exact (ih h).imp_right (by simp_all)

/-- Putting an entry under a key that is there keeps all keys and their order. -/
theorem keys_put {x : α} (h : (find? key (key x) entries).isSome) :
    (put key x entries).map key = entries.map key := by
  induction entries with
  | nil => simp [find?] at h
  | cons y rest ih =>
    unfold put
    by_cases hy : key y = key x
    · simp [hy]
    · rw [if_neg hy, List.map_cons, List.map_cons, ih]
      simpa [find?, List.find?_cons, hy] using h

theorem find?_append_of_none {k : κ} (h : find? key k entries = none) (x : α) (hx : key x = k) :
    find? key k (entries ++ [x]) = some x := by
  unfold find? at h ⊢
  rw [List.find?_append, h]
  simp [hx]

/-- Looking a key up in pairs is finding the pair. -/
theorem lookup_eq_find? {β : Type} (k : String) (pairs : List (String × β)) :
    pairs.lookup k = (find? Prod.fst k pairs).map Prod.snd := by
  induction pairs with
  | nil => rfl
  | cons pair rest ih =>
    obtain ⟨k', b⟩ := pair
    unfold find? at ih ⊢
    by_cases hk : k' = k
    · simp [hk]
    · have hk' : (k == k') = false := by simpa using Ne.symm hk
      rw [List.lookup_cons, hk', List.find?_cons, ih]
      simp [hk]


/-- An entry under a key that is not there comes last. -/
theorem put_of_absent {x : α} (h : find? key (key x) entries = none) :
    put key x entries = entries ++ [x] := by
  induction entries with
  | nil => rfl
  | cons y rest ih =>
    have hy : key y ≠ key x := by
      intro hy
      simp [find?, hy] at h
    rw [put, if_neg hy, ih (by simpa [find?, List.find?_cons, hy] using h), List.cons_append]

/-- Putting an entry that is there changes nothing. -/
theorem put_of_found {x : α} (h : find? key (key x) entries = some x) :
    put key x entries = entries := by
  induction entries with
  | nil => cases h
  | cons y rest ih =>
    by_cases hy : key y = key x
    · have hyx : y = x := by simpa [find?, hy] using h
      rw [put, if_pos hy, hyx]
    · rw [put, if_neg hy, ih (by simpa [find?, List.find?_cons, hy] using h)]

/-- Erasing a key that is not there changes nothing. -/
theorem erase_of_absent {k : κ} (h : find? key k entries = none) :
    erase key k entries = entries := by
  unfold find? at h
  rw [List.find?_eq_none] at h
  exact List.filter_eq_self.mpr fun x hx => by simpa using h x hx

theorem find?_eq_none_iff {k : κ} : find? key k entries = none ↔ k ∉ entries.map key := by
  simp [find?]

/-! ## Rosters with one entry for each key -/

/-- Keys stay apart when an entry is put. -/
theorem nodup_keys_put (x : α) (h : (entries.map key).Nodup) :
    ((put key x entries).map key).Nodup := by
  cases hfind : find? key (key x) entries with
  | some y => rwa [keys_put (by simp [hfind])]
  | none =>
    rw [put_of_absent hfind, List.map_append, List.nodup_append]
    refine ⟨h, by simp, fun a ha b hb => ?_⟩
    rw [List.map_singleton, List.mem_singleton] at hb
    rintro rfl
    exact find?_eq_none_iff.mp hfind (hb ▸ ha)

/-- An entry is found exactly under its own key. -/
theorem find?_eq_some_iff {k : κ} {x : α} (h : (entries.map key).Nodup) :
    find? key k entries = some x ↔ x ∈ entries ∧ key x = k := by
  constructor
  · intro hfind
    exact ⟨List.mem_of_find?_eq_some hfind, by simpa using List.find?_some hfind⟩
  · rintro ⟨hx, rfl⟩
    induction entries with
    | nil => simp at hx
    | cons y rest ih =>
      rw [List.map_cons, List.nodup_cons] at h
      unfold find? at ih ⊢
      rcases List.mem_cons.mp hx with rfl | hx
      · simp
      · have hy : key y ≠ key x := fun hy => h.1 (hy ▸ List.mem_map_of_mem hx)
        rw [List.find?_cons_of_neg (by simpa using hy)]
        exact ih h.2 hx

/-- Of the entries of before, the one with the key of the entry that is put goes. -/
theorem mem_put_iff {x y : α} (h : (entries.map key).Nodup) :
    y ∈ put key x entries ↔ y = x ∨ (y ∈ entries ∧ key y ≠ key x) := by
  have hput := find?_eq_some_iff (x := y) (k := key y) (nodup_keys_put x h)
  have hold := find?_eq_some_iff (x := y) (k := key y) h
  rw [find?_put] at hput
  by_cases hkey : key x = key y
  · rw [if_pos hkey] at hput
    simp_all [eq_comm]
  · rw [if_neg hkey, hold] at hput
    have hne : y ≠ x := fun hyx => hkey (hyx ▸ rfl)
    simp_all [eq_comm]

/-! ## Entries put one after another -/

/-- Puts entries into a roster, one after another. -/
def putAll (key : α → κ) (entries old : List α) : List α :=
  entries.foldl (fun sofar x => put key x sofar) old

@[simp]
theorem putAll_nil (old : List α) : putAll key [] old = old := rfl

@[simp]
theorem putAll_cons (x : α) (entries old : List α) :
    putAll key (x :: entries) old = putAll key entries (put key x old) := rfl

/-- The keys of a roster after entries with given keys were put: those of before stay in their
places, and the new ones follow in the order in which they first come. -/
def keysAfter (new old : List κ) : List κ :=
  old ++ (new.filter (· ∉ old)).eraseDups

/-- A key that is not there yet comes last. -/
theorem keysAfter_cons (k : κ) (new old : List κ) :
    keysAfter (k :: new) old =
      if k ∈ old then keysAfter new old else keysAfter new (old ++ [k]) := by
  unfold keysAfter
  by_cases hk : k ∈ old
  · simp [hk]
  · have hlater : (new.filter (· ∉ old)).filter (fun k' => !k' == k) =
        new.filter (· ∉ old ++ [k]) := by
      rw [List.filter_filter]
      refine List.filter_congr fun k' _ => ?_
      by_cases hk' : k' = k <;> simp [hk']
    rw [if_neg hk, List.filter_cons_of_pos (by simpa using hk), List.eraseDups_cons, hlater]
    simp

/-- The keys after many entries are put. -/
theorem keys_putAll (entries old : List α) :
    (putAll key entries old).map key = keysAfter (entries.map key) (old.map key) := by
  induction entries generalizing old with
  | nil => simp [keysAfter]
  | cons x rest ih =>
    rw [putAll_cons, ih, List.map_cons, keysAfter_cons]
    cases hfind : find? key (key x) old with
    | some y =>
      have hkey : key y = key x := by simpa using List.find?_some hfind
      have hmem : key x ∈ old.map key :=
        hkey ▸ List.mem_map_of_mem (List.mem_of_find?_eq_some hfind)
      rw [keys_put (by simp [hfind]), if_pos hmem]
    | none =>
      rw [put_of_absent hfind, if_neg (find?_eq_none_iff.mp hfind)]
      simp

/-- The last entry of a key is found, or else the one of before. -/
theorem find?_putAll (k : κ) (entries old : List α) :
    find? key k (putAll key entries old) =
      (find? key k entries.reverse).or (find? key k old) := by
  induction entries generalizing old with
  | nil => simp [find?]
  | cons x rest ih =>
    rw [putAll_cons, ih, find?_put, List.reverse_cons]
    unfold find?
    rw [List.find?_append, Option.or_assoc]
    by_cases hk : key x = k <;> simp [hk]

end Mutagenesis.Roster
