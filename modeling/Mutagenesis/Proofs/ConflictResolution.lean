import Mathlib.Data.List.Sort
import Mutagenesis.Splice

/-!
# Which replacements are kept

Of the replacements of a file, put in order and stably so (`stablySorted_inOrder`), those are kept
that start where the one kept last stops, or later. One that is left out starts inside one that was
kept before it (`exists_choice`). All else follows from that: what is kept is free of conflicts and
cannot be made larger, keeping again keeps all, and the spans kept depend on the spans given only
(`resolve_greedy`).
-/

set_option autoImplicit false

namespace Mutagenesis.Replacement

/-- A list holds the replacements of another one in order: those that start earlier come first, of
those that start together the ones that stop later, and those of one span come as they did. -/
structure StablySorted (rs sorted : List Replacement) : Prop where
  perm : sorted.Perm rs
  ordered : sorted.Pairwise fun a b => a.start < b.start ∨ a.start = b.start ∧ b.stop ≤ a.stop
  stable : ∀ span, sorted.filter (·.location.span = span) = rs.filter (·.location.span = span)

/-- Each replacement stops where the later ones start, or before. -/
def ConflictFree (rs : List Replacement) : Prop :=
  rs.Pairwise fun a b => a.stop ≤ b.start

/-- The replacements at the chosen positions of a list. -/
def chosen (choice : Nat → Bool) : List Replacement → List Replacement
  | [] => []
  | r :: rest =>
    if choice 0 then r :: chosen (fun j => choice (j + 1)) rest
    else chosen (fun j => choice (j + 1)) rest

theorem precedes_iff {a b : Replacement} : a.precedes b = true ↔
    a.start < b.start ∨ a.start = b.start ∧ b.stop ≤ a.stop := by
  simp [precedes]

instance : Std.Total fun a b : Replacement => a.precedes b = true where
  total a b := by
    rw [precedes_iff, precedes_iff]
    grind

instance : IsTrans Replacement fun a b => a.precedes b = true where
  trans a b c := by
    rw [precedes_iff, precedes_iff, precedes_iff]
    grind

/-- Putting replacements in order is an insertion sort. -/
theorem inOrder_eq_insertionSort (rs : List Replacement) :
    inOrder rs = rs.insertionSort fun a b => a.precedes b = true := by
  have hinsert : ∀ r : Replacement, ∀ sorted,
      insertInOrder r sorted = sorted.orderedInsert (fun a b => a.precedes b = true) r := by
    intro r sorted
    induction sorted with
    | nil => rfl
    | cons x rest ih => rw [insertInOrder, List.orderedInsert_cons, ih]
  induction rs with
  | nil => rfl
  | cons r rest ih =>
    rw [List.insertionSort_cons, ← ih, ← hinsert]
    rfl

/-- Inserting keeps the order of replacements of one span. -/
theorem filter_insertInOrder (r : Replacement) (sorted : List Replacement) (span : Span) :
    (insertInOrder r sorted).filter (·.location.span = span) =
      (r :: sorted).filter (·.location.span = span) := by
  induction sorted with
  | nil => rfl
  | cons x rest ih =>
    rw [insertInOrder]
    split
    · rfl
    next hnot =>
    -- Only one of the two can have the span, since equal spans are not put apart.
    have hne : r.location.span ≠ x.location.span := by
      intro heq
      refine hnot (precedes_iff.mpr (Or.inr ⟨?_, ?_⟩))
      · rw [start, start, heq]
      · rw [stop, stop, heq]
        exact Std.le_refl _
    rw [List.filter_cons, ih]
    by_cases hx : x.location.span = span
    · have hr : r.location.span ≠ span := fun h => hne (h.trans hx.symm)
      simp [hx, hr]
    · simp [List.filter_cons, hx]

/-- The order is the one of a stable sort. -/
theorem stablySorted_inOrder (rs : List Replacement) : StablySorted rs (inOrder rs) where
  perm := by
    rw [inOrder_eq_insertionSort]
    exact List.perm_insertionSort _ rs
  ordered := by
    rw [inOrder_eq_insertionSort]
    exact (List.pairwise_insertionSort _ rs).imp precedes_iff.mp
  stable span := by
    induction rs with
    | nil => rfl
    | cons r rest ih =>
      rw [inOrder, List.foldr_cons, ← inOrder, filter_insertInOrder, List.filter_cons,
        List.filter_cons, ih]

/-- The spans of replacements in order depend on the spans given only. -/
theorem spans_inOrder {rs rs' : List Replacement} (h : rs'.Perm rs) :
    (inOrder rs').map (·.location.span) = (inOrder rs).map (·.location.span) := by
  have hordered : ∀ given : List Replacement, ((inOrder given).map (·.location.span)).Pairwise
      fun a b => a.start < b.start ∨ a.start = b.start ∧ b.stop ≤ a.stop := fun given =>
    List.pairwise_map.mpr (stablySorted_inOrder given).ordered
  refine List.Perm.eq_of_pairwise ?_ (hordered rs') (hordered rs) ?_
  · rintro ⟨start, stop⟩ ⟨start', stop'⟩ - - hab hba
    rw [Span.mk.injEq]
    grind
  · exact (((stablySorted_inOrder rs').perm.trans h).trans
      (stablySorted_inOrder rs).perm.symm).map _

/-- Keeping is choosing positions: what is left out starts before `free` or inside a replacement
that was chosen before it. -/
theorem exists_choice (free : Option Location) (rs : List Replacement) :
    ∃ choice, keepFrom free rs = chosen choice rs ∧
      ∀ j r, rs[j]? = some r → choice j = false →
        (∃ f ∈ free, r.start < f) ∨
          ∃ i a, i < j ∧ rs[i]? = some a ∧ choice i = true ∧ r.start < a.stop := by
  induction rs generalizing free with
  | nil => exact ⟨fun _ => true, rfl, nofun⟩
  | cons r rest ih =>
    by_cases hdrop : free.any (r.start < ·) = true
    · obtain ⟨choice, hkeep, hleft⟩ := ih free
      refine ⟨fun j => j.casesOn false choice, ?_, ?_⟩
      · rw [keepFrom, if_pos hdrop, hkeep, chosen]
        rfl
      · rintro (_ | j) x hx hout
        · cases hx
          obtain ⟨f, hf, hlt⟩ := (Option.any_eq_true _ _).mp hdrop
          exact Or.inl ⟨f, hf, of_decide_eq_true hlt⟩
        · rcases hleft j x hx hout with hbefore | ⟨i, a, hi, ha, hin, hlt⟩
          · exact Or.inl hbefore
          · exact Or.inr ⟨i + 1, a, by omega, ha, hin, hlt⟩
    · obtain ⟨choice, hkeep, hleft⟩ := ih (some r.stop)
      refine ⟨fun j => j.casesOn true choice, ?_, ?_⟩
      · rw [keepFrom, if_neg hdrop, hkeep, chosen]
        rfl
      · rintro (_ | j) x hx hout
        · cases hout
        · rcases hleft j x hx hout with ⟨f, hf, hlt⟩ | ⟨i, a, hi, ha, hin, hlt⟩
          · cases hf
            exact Or.inr ⟨0, r, Nat.succ_pos j, rfl, rfl, hlt⟩
          · exact Or.inr ⟨i + 1, a, by omega, ha, hin, hlt⟩

theorem keepFrom_sublist (free : Option Location) (rs : List Replacement) :
    (keepFrom free rs).Sublist rs := by
  induction rs generalizing free with
  | nil => exact List.Sublist.slnil
  | cons r rest ih =>
    rw [keepFrom]
    split
    · exact (ih free).cons r
    · exact (ih (some r.stop)).cons_cons r

variable {rs : List Replacement}

/-- What is kept starts at `free` or later, and is free of conflicts. -/
theorem conflictFree_keepFrom {free : Option Location}
    (hsorted : rs.Pairwise fun a b => a.start ≤ b.start) :
    (∀ f ∈ free, ∀ r ∈ keepFrom free rs, f ≤ r.start) ∧ ConflictFree (keepFrom free rs) := by
  induction rs generalizing free with
  | nil => exact ⟨nofun, .nil⟩
  | cons r rest ih =>
    obtain ⟨hfirst, hrest⟩ := List.pairwise_cons.mp hsorted
    rw [keepFrom]
    split
    · exact ih hrest
    next hfree =>
    obtain ⟨hlater, hrests⟩ := @ih (some r.stop) hrest
    refine ⟨fun f hf x hx => ?_, List.pairwise_cons.mpr ⟨hlater r.stop rfl, hrests⟩⟩
    have hle : f ≤ r.start := by
      rw [hf] at hfree
      exact Std.not_lt.mp fun hlt => hfree (decide_eq_true hlt)
    rcases List.mem_cons.mp hx with rfl | hx
    · exact hle
    · exact Std.le_trans hle (hfirst x ((keepFrom_sublist _ _).mem hx))

/-- What is kept is kept again. -/
theorem keepFrom_keepFrom (free : Option Location) (rs : List Replacement) :
    keepFrom free (keepFrom free rs) = keepFrom free rs := by
  induction rs generalizing free with
  | nil => rfl
  | cons r rest ih =>
    by_cases hdrop : free.any (r.start < ·) = true
    · rw [keepFrom, if_pos hdrop, ih]
    · rw [keepFrom, if_neg hdrop, keepFrom, if_neg hdrop, ih]

/-- Whether a replacement is kept depends on the spans only. -/
theorem spans_keepFrom {rs rs' : List Replacement}
    (h : rs.map (·.location.span) = rs'.map (·.location.span)) (free : Option Location) :
    (keepFrom free rs).map (·.location.span) = (keepFrom free rs').map (·.location.span) := by
  induction rs generalizing rs' free with
  | nil =>
    obtain rfl : rs' = [] := List.map_eq_nil_iff.mp h.symm
    rfl
  | cons r rest ih =>
    obtain ⟨r', rest', rfl, hr, hrest⟩ := List.map_eq_cons_iff.mp h.symm
    have hstart : r'.start = r.start := by rw [start, start, hr]
    have hstop : r'.stop = r.stop := by rw [stop, stop, hr]
    rw [keepFrom, keepFrom, hstart, hstop]
    split
    · exact ih hrest.symm free
    · rw [List.map_cons, List.map_cons, hr, ih hrest.symm (some r.stop)]

/-- A replacement at a chosen index is among those chosen. -/
theorem mem_chosen {choice : Nat → Bool} {j : Nat} {r : Replacement} (hr : rs[j]? = some r)
    (hj : choice j = true) : r ∈ chosen choice rs := by
  induction rs generalizing choice j with
  | nil => cases hr
  | cons x rest ih =>
    rw [chosen]
    cases j with
    | zero =>
      cases hr
      rw [if_pos hj]
      exact List.mem_cons_self
    | succ j =>
      have hmem : r ∈ chosen (fun j => choice (j + 1)) rest := ih hr hj
      split
      · exact List.mem_cons_of_mem x hmem
      · exact hmem

/-- Two replacements at chosen positions are free of conflicts if all that are chosen are. -/
theorem le_of_conflictFree_chosen {choice : Nat → Bool} (h : ConflictFree (chosen choice rs))
    {i j : Nat} (hij : i < j) {a b : Replacement} (ha : rs[i]? = some a) (hb : rs[j]? = some b)
    (hi : choice i = true) (hj : choice j = true) : a.stop ≤ b.start := by
  induction rs generalizing choice i j with
  | nil => cases ha
  | cons x rest ih =>
    obtain ⟨j, rfl⟩ := Nat.exists_eq_succ_of_ne_zero (Nat.ne_zero_of_lt hij)
    rw [chosen] at h
    cases i with
    | zero =>
      cases ha
      rw [if_pos hi] at h
      exact (List.pairwise_cons.mp h).1 b (mem_chosen hb hj)
    | succ i =>
      have hrest : ConflictFree (chosen (fun j => choice (j + 1)) rest) := by
        split at h
        · exact (List.pairwise_cons.mp h).2
        · exact h
      exact ih hrest (Nat.lt_of_succ_lt_succ hij) ha hb hi hj

theorem chosen_congr {choice choice' : Nat → Bool} (h : ∀ j < rs.length, choice j = choice' j) :
    chosen choice rs = chosen choice' rs := by
  induction rs generalizing choice choice' with
  | nil => rfl
  | cons r rest ih =>
    have hrest := ih fun j hj => h (j + 1) (Nat.succ_lt_succ hj)
    rw [chosen, chosen, h 0 (Nat.succ_pos _), hrest]

/-- If all that is left out starts inside what was chosen before it, no larger choice is free of
conflicts. -/
theorem eq_of_larger {choice larger : Nat → Bool}
    (hleft : ∀ j r, rs[j]? = some r → choice j = false →
      ∃ i a, i < j ∧ rs[i]? = some a ∧ choice i = true ∧ a.start ≤ r.start ∧ r.start < a.stop)
    (hlarger : ∀ j, choice j = true → larger j = true) (h : ConflictFree (chosen larger rs)) :
    chosen larger rs = chosen choice rs := by
  refine chosen_congr fun j hj => Bool.eq_iff_iff.mpr ⟨fun hin => ?_, hlarger j⟩
  by_contra hout
  have hr := List.getElem?_eq_getElem hj
  obtain ⟨i, a, hij, ha, hi, -, hlt⟩ := hleft j _ hr (Bool.eq_false_iff.mpr hout)
  have hle := le_of_conflictFree_chosen h hij ha hr (hlarger i hi) hin
  exact Std.not_lt.mpr hle hlt

theorem starts_inOrder (rs : List Replacement) :
    (inOrder rs).Pairwise fun a b => a.start ≤ b.start :=
  (stablySorted_inOrder rs).ordered.imp fun h =>
    h.elim Std.le_of_lt fun heq => heq.1 ▸ Std.le_refl _

theorem conflictFree_resolve (rs : List Replacement) : ConflictFree (resolve rs) :=
  (conflictFree_keepFrom (starts_inOrder rs)).2

theorem mem_of_mem_resolve {r : Replacement} (h : r ∈ resolve rs) : r ∈ rs :=
  (stablySorted_inOrder rs).perm.mem_iff.mp ((keepFrom_sublist none _).mem h)

theorem resolve_resolve (rs : List Replacement) : resolve (resolve rs) = resolve rs := by
  have hkept : (resolve rs).Pairwise fun a b => a.precedes b = true :=
    ((stablySorted_inOrder rs).ordered.imp precedes_iff.mpr).sublist (keepFrom_sublist none _)
  have hagain : inOrder (resolve rs) = resolve rs := by
    rw [inOrder_eq_insertionSort]
    exact hkept.insertionSort_eq
  conv_lhs => rw [resolve, hagain]
  exact keepFrom_keepFrom none (inOrder rs)

/-- The replacements that are kept are chosen from the stably sorted ones. Each that is left out
starts inside an earlier one that is kept, so no larger choice is free of conflicts, while the one
made is. Keeping again changes nothing, and the order of what is given does not matter to the
spans that are kept. -/
theorem resolve_greedy (rs : List Replacement) :
    (∃ sorted choice, StablySorted rs sorted ∧ resolve rs = chosen choice sorted ∧
      (∀ j r, sorted[j]? = some r → choice j = false →
        ∃ i a, i < j ∧ sorted[i]? = some a ∧ choice i = true ∧
          a.start ≤ r.start ∧ r.start < a.stop) ∧
      ∀ larger, (∀ j, choice j = true → larger j = true) → ConflictFree (chosen larger sorted) →
        chosen larger sorted = resolve rs) ∧
    ConflictFree (resolve rs) ∧
    resolve (resolve rs) = resolve rs ∧
    ∀ rs', rs'.Perm rs →
      (resolve rs').map (·.location.span) = (resolve rs).map (·.location.span) := by
  refine ⟨?_, conflictFree_resolve rs, resolve_resolve rs,
    fun rs' hperm => spans_keepFrom (spans_inOrder hperm) none⟩
  obtain ⟨choice, hchosen, hleft⟩ := exists_choice none (inOrder rs)
  have hinside : ∀ j r, (inOrder rs)[j]? = some r → choice j = false →
      ∃ i a, i < j ∧ (inOrder rs)[i]? = some a ∧ choice i = true ∧
        a.start ≤ r.start ∧ r.start < a.stop := by
    intro j r hr hout
    rcases hleft j r hr hout with ⟨f, hf, -⟩ | ⟨i, a, hij, ha, hin, hlt⟩
    · cases hf
    · obtain ⟨hi, rfl⟩ := List.getElem?_eq_some_iff.mp ha
      obtain ⟨hj, rfl⟩ := List.getElem?_eq_some_iff.mp hr
      exact ⟨i, _, hij, ha, hin,
        List.pairwise_iff_getElem.mp (starts_inOrder rs) i j hi hj hij, hlt⟩
  refine ⟨inOrder rs, choice, stablySorted_inOrder rs, hchosen, hinside, fun larger hlarger h => ?_⟩
  rw [resolve, hchosen]
  exact eq_of_larger hinside hlarger h

end Mutagenesis.Replacement
