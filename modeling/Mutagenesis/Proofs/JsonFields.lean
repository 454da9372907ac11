import Mutagenesis.Json

/-!
# The fields of sorted JSON values

Sorting a value keeps, under each name, the last field that was given with it (`field?_sorted`), and
sorting again changes nothing (`sorted_sorted`).
-/

set_option autoImplicit false

namespace Mutagenesis.Json

variable {name : String} {value : Json} {fields sofar : List (String × Json)}

/-- The value of the last field with a name, in an object as it was given. -/
def last? (name : String) : Json → Option Json
  | .object fields => fields.reverse.lookup name
  | _ => none

theorem lookup_cons_eq (name : String) (f : String × Json) (rest : List (String × Json)) :
    (f :: rest).lookup name = if name = f.1 then some f.2 else rest.lookup name := by
  by_cases h : name = f.1
  · rw [if_pos h, List.lookup_cons, beq_iff_eq.mpr h]
  · rw [if_neg h, List.lookup_cons, beq_eq_false_iff_ne.mpr h]

/-! ## Putting in one field -/

/-- After a field is inserted, its name has the new value and all others their own. -/
theorem lookup_insertField (other : String) :
    (insertField name value fields).lookup other =
      if other = name then some value else fields.lookup other := by
  induction fields with
  | nil => exact lookup_cons_eq other (name, value) []
  | cons f rest ih =>
    obtain ⟨kept, stays⟩ := f
    unfold insertField
    split
    · exact lookup_cons_eq other (name, value) _
    · split
      · next heq =>
        subst heq
        rw [lookup_cons_eq, lookup_cons_eq]
        by_cases h : other = name <;> simp [h]
      · next hne =>
        rw [lookup_cons_eq, lookup_cons_eq, ih]
        by_cases h : other = kept
        · simp [h, Ne.symm hne]
        · simp [h]

/-- Inserting a field brings no other. -/
theorem mem_insertField {f : String × Json} (h : f ∈ insertField name value fields) :
    f = (name, value) ∨ f ∈ fields := by
  induction fields with
  | nil => exact Or.inl (List.mem_singleton.mp h)
  | cons g rest ih =>
    unfold insertField at h
    split at h
    · exact List.mem_cons.mp h
    · split at h
      · exact (List.mem_cons.mp h).imp id (List.mem_cons_of_mem _)
      · rcases List.mem_cons.mp h with rfl | h
        · exact Or.inr List.mem_cons_self
        · exact (ih h).imp id (List.mem_cons_of_mem _)

/-- The names of the fields increase. -/
def Increasing (fields : List (String × Json)) : Prop :=
  fields.Pairwise (·.1 < ·.1)

/-- Inserting a field keeps the names increasing. -/
theorem Increasing.insertField (h : Increasing fields) :
    Increasing (insertField name value fields) := by
  induction fields with
  | nil => exact List.pairwise_singleton _ _
  | cons f rest ih =>
    obtain ⟨kept, stays⟩ := f
    obtain ⟨hhead, hrest⟩ := List.pairwise_cons.mp h
    unfold Json.insertField
    split
    · next hlt =>
      refine List.pairwise_cons.mpr ⟨fun g hg => ?_, h⟩
      rcases List.mem_cons.mp hg with rfl | hg
      · exact hlt
      · exact String.lt_trans hlt (hhead g hg)
    · next hge =>
      split
      · next heq => exact List.pairwise_cons.mpr ⟨heq ▸ hhead, hrest⟩
      · next hne =>
        have hkept : kept < name := by grind
        refine List.pairwise_cons.mpr ⟨fun g hg => ?_, ih hrest⟩
        rcases mem_insertField hg with rfl | hg
        · exact hkept
        · exact hhead g hg

/-- A field with a greater name than all others is put last. -/
theorem insertField_of_greater (h : ∀ f ∈ fields, f.1 < name) :
    insertField name value fields = fields ++ [(name, value)] := by
  induction fields with
  | nil => rfl
  | cons f rest ih =>
    obtain ⟨kept, stays⟩ := f
    have hkept : kept < name := h _ List.mem_cons_self
    have hne : name ≠ kept := fun heq => String.lt_irrefl kept (heq ▸ hkept)
    unfold insertField
    rw [if_neg (String.lt_asymm hkept), if_neg hne, ih fun g hg => h g (List.mem_cons_of_mem _ hg)]
    rfl

/-! ## Putting in all fields -/

/-- Fields put one after the other into others. -/
def gather (sofar fields : List (String × Json)) : List (String × Json) :=
  fields.foldl (fun sofar f => insertField f.1 f.2 sofar) sofar

theorem lookup_gather : (gather sofar fields).lookup name =
    (fields.reverse.lookup name).or (sofar.lookup name) := by
  induction fields generalizing sofar with
  | nil => simp [gather]
  | cons f rest ih =>
    have hgather : gather sofar (f :: rest) = gather (insertField f.1 f.2 sofar) rest := rfl
    rw [hgather, ih, lookup_insertField, List.reverse_cons, List.lookup_append, Option.or_assoc]
    rw [lookup_cons_eq, List.lookup_nil]
    by_cases h : name = f.1 <;> simp [h]

/-- Gathering fields brings no other. -/
theorem mem_gather {f : String × Json} (h : f ∈ gather sofar fields) :
    f ∈ sofar ∨ f ∈ fields := by
  induction fields generalizing sofar with
  | nil => exact Or.inl h
  | cons g rest ih =>
    rcases ih h with hmem | hmem
    · rcases mem_insertField hmem with rfl | hmem
      · exact Or.inr List.mem_cons_self
      · exact Or.inl hmem
    · exact Or.inr (List.mem_cons_of_mem _ hmem)

theorem Increasing.gather (h : Increasing sofar) : Increasing (gather sofar fields) := by
  induction fields generalizing sofar with
  | nil => exact h
  | cons f rest ih => exact ih h.insertField

/-- Elements that are put one after another into a list, each behind those that are smaller, leave
an increasing list as it is. -/
theorem foldl_put_of_increasing {α : Type} {lt : α → α → Prop} {put : α → List α → List α}
    (hput : ∀ x sofar, (∀ y ∈ sofar, lt y x) → put x sofar = sofar ++ [x]) {sofar xs : List α}
    (h : (sofar ++ xs).Pairwise lt) :
    xs.foldl (fun sofar x => put x sofar) sofar = sofar ++ xs := by
  induction xs generalizing sofar with
  | nil => simp
  | cons x rest ih =>
    have hlast := hput x sofar fun y hy => (List.pairwise_append.mp h).2.2 y hy x List.mem_cons_self
    rw [List.foldl_cons, hlast, ih (by simpa using h)]
    simp

/-- Fields in increasing order stay as they are. -/
theorem gather_of_increasing (h : Increasing (sofar ++ fields)) :
    gather sofar fields = sofar ++ fields :=
  foldl_put_of_increasing (fun _ _ hgreater => insertField_of_greater hgreater) h

/-! ## Sorting values -/

theorem sorted_object (fields : List (String × Json)) :
    sorted (.object fields) = .object (gather [] (sortedFields fields)) := by
  rw [sorted]
  rfl

theorem sortedFields_eq_map (fields : List (String × Json)) :
    sortedFields fields = fields.map fun f => (f.1, sorted f.2) := by
  induction fields with
  | nil => rfl
  | cons f rest ih => rw [sortedFields, ih, List.map_cons]

/-- A field of a sorted value is the last one of its name, sorted. -/
theorem field?_sorted (name : String) (j : Json) :
    (sorted j).field? name = (j.last? name).map sorted := by
  cases j with
  | object fields =>
    rw [sorted_object, field?, lookup_gather, List.lookup_nil, Option.or_none, last?,
      sortedFields_eq_map, ← List.map_reverse]
    induction fields.reverse with
    | nil => rfl
    | cons f rest ih =>
      rw [List.map_cons, lookup_cons_eq, lookup_cons_eq, ih]
      by_cases h : name = f.1 <;> simp [h]
  | array items => rw [sorted]; rfl
  | null | bool | number | string => rfl

theorem sorted_object_of_fixed (h : ∀ f ∈ fields, sorted f.2 = f.2)
    (hincreasing : Increasing fields) : sorted (.object fields) = .object fields := by
  have hfields : sortedFields fields = fields := by
    rw [sortedFields_eq_map]
    conv => rhs; rw [← List.map_id fields]
    exact List.map_congr_left fun f hf => Prod.ext rfl (h f hf)
  rw [sorted_object, hfields]
  exact congrArg _ (gather_of_increasing hincreasing)

mutual

/-- Sorting again changes nothing. -/
theorem sorted_sorted : (j : Json) → sorted (sorted j) = sorted j
  | .null | .bool _ | .number _ | .string _ => rfl
  | .array items => by rw [sorted, sorted, sortedItems_sortedItems items]
  | .object fields => by
    rw [sorted_object]
    refine sorted_object_of_fixed (fun f hf => ?_) (Increasing.gather List.Pairwise.nil)
    exact sorted_of_mem_sortedFields fields f ((mem_gather hf).resolve_left List.not_mem_nil)

theorem sortedItems_sortedItems : (items : List Json) →
    sortedItems (sortedItems items) = sortedItems items
  | [] => rfl
  | item :: rest => by
    rw [sortedItems, sortedItems, sorted_sorted item, sortedItems_sortedItems rest]

theorem sorted_of_mem_sortedFields : (fields : List (String × Json)) →
    ∀ f ∈ sortedFields fields, sorted f.2 = f.2
  | [], _, hf => absurd hf List.not_mem_nil
  | (name, value) :: rest, f, hf => by
    rw [sortedFields] at hf
    rcases List.mem_cons.mp hf with rfl | hf
    · exact sorted_sorted value
    · exact sorted_of_mem_sortedFields rest f hf

end

end Mutagenesis.Json
