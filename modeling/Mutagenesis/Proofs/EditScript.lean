import Mutagenesis.Proofs.DiffReading

/-!
# Edit scripts and their hunks

An edit script is correct when its edits cover both sequences one after another, from the start to
the end, and what it keeps is the same in both. An edit that only removes or only inserts may carry
any index on the side it leaves alone; just the first and the last edit of the script have to say
where they stand on both sides, since headers are made of that. The groups that become hunks are
then runs of edits with kept items in front of, between and behind them (`hunks_groups`). The lines
that a group is written as hold the old items of its range on one side and the new ones on the
other.
-/

set_option autoImplicit false

namespace Mutagenesis.LineDiff

section

variable {α : Type}

/-- What the edit keeps is the same in both sequences. -/
def Edit.Sound (old new : List α) (e : Edit) : Prop :=
  e.kind = .keep → e.newLength = e.oldLength ∧ e.oldRun old = e.newRun new

instance [DecidableEq α] (old new : List α) (e : Edit) : Decidable (e.Sound old new) :=
  inferInstanceAs (Decidable (_ → _))

/-- The edit stands at `i` and `j`; on a side where it has no items its index does not matter,
unless it is a kept run. -/
def Edit.At (i j : Nat) (e : Edit) : Prop :=
  (e.kind = .keep ∨ 0 < e.oldLength → e.oldIndex = i) ∧
    (e.kind = .keep ∨ 0 < e.newLength → e.newIndex = j)

instance (i j : Nat) (e : Edit) : Decidable (e.At i j) :=
  inferInstanceAs (Decidable (_ ∧ _))

variable {i j m n : Nat} {as bs : List Edit} {e : Edit} {script : List Edit}

theorem Edit.At.oldIndex_eq (h : e.At i j) (hkind : e.kind = .keep) : e.oldIndex = i :=
  h.1 (Or.inl hkind)

theorem Edit.At.newIndex_eq (h : e.At i j) (hkind : e.kind = .keep) : e.newIndex = j :=
  h.2 (Or.inl hkind)

theorem Edit.At.oldRun (h : e.At i j) (old : List α) :
    e.oldRun old = (old.drop i).take e.oldLength := by
  rw [Edit.oldRun]
  by_cases hlength : 0 < e.oldLength
  · rw [h.1 (Or.inr hlength)]
  · rw [Nat.eq_zero_of_not_pos hlength, List.take_zero, List.take_zero]

theorem Edit.At.newRun (h : e.At i j) (new : List α) :
    e.newRun new = (new.drop j).take e.newLength := by
  rw [Edit.newRun]
  by_cases hlength : 0 < e.newLength
  · rw [h.2 (Or.inr hlength)]
  · rw [Nat.eq_zero_of_not_pos hlength, List.take_zero, List.take_zero]

/-- Sound edits that stand one after another, from the indices `i` and `j` to `m` and `n`. -/
def Spans (old new : List α) : (i j : Nat) → List Edit → (m n : Nat) → Prop
  | i, j, [], m, n => i = m ∧ j = n
  | i, j, e :: rest, m, n =>
    e.At i j ∧ e.Sound old new ∧ Spans old new (i + e.oldLength) (j + e.newLength) rest m n

/-- Whether edits span a range can be computed. -/
def decideSpans [DecidableEq α] (old new : List α) :
    (i j : Nat) → (script : List Edit) → (m n : Nat) → Decidable (Spans old new i j script m n)
  | i, j, [], m, n => inferInstanceAs (Decidable (i = m ∧ j = n))
  | i, j, e :: rest, m, n =>
    have := decideSpans old new (i + e.oldLength) (j + e.newLength) rest m n
    inferInstanceAs (Decidable (e.At i j ∧ e.Sound old new ∧
      Spans old new (i + e.oldLength) (j + e.newLength) rest m n))

instance [DecidableEq α] (old new : List α) (i j : Nat) (script : List Edit) (m n : Nat) :
    Decidable (Spans old new i j script m n) :=
  decideSpans old new i j script m n

/-- The first edit starts at `i` and `j`, and the last one stops at `m` and `n`. -/
def Bounded (edits : List Edit) (i j m n : Nat) : Prop :=
  (∀ e ∈ edits.head?, e.oldIndex = i ∧ e.newIndex = j) ∧
    (∀ e ∈ edits.getLast?, e.oldIndex + e.oldLength = m ∧ e.newIndex + e.newLength = n)

instance (edits : List Edit) (i j m n : Nat) : Decidable (Bounded edits i j m n) :=
  inferInstanceAs (Decidable (_ ∧ _))

/-- An edit script that turns one sequence into the other. -/
def IsScript (old new : List α) (script : List Edit) : Prop :=
  Spans old new 0 0 script old.length new.length ∧
    Bounded script 0 0 old.length new.length

instance [DecidableEq α] (old new : List α) (script : List Edit) :
    Decidable (IsScript old new script) :=
  inferInstanceAs (Decidable (_ ∧ _))

variable {old new : List α}

theorem Spans.append {i j k l m n : Nat} (has : Spans old new i j as k l)
    (hbs : Spans old new k l bs m n) : Spans old new i j (as ++ bs) m n := by
  induction as generalizing i j with
  | nil =>
    obtain ⟨rfl, rfl⟩ := has
    exact hbs
  | cons e rest ih => exact ⟨has.1, has.2.1, ih has.2.2⟩

theorem Spans.split (h : Spans old new i j (as ++ bs) m n) :
    ∃ k l, Spans old new i j as k l ∧ Spans old new k l bs m n := by
  induction as generalizing i j with
  | nil => exact ⟨i, j, ⟨rfl, rfl⟩, h⟩
  | cons e rest ih =>
    obtain ⟨k, l, hrest, hbs⟩ := ih h.2.2
    exact ⟨k, l, ⟨h.1, h.2.1, hrest⟩, hbs⟩

theorem Spans.le (h : Spans old new i j script m n) : i ≤ m ∧ j ≤ n := by
  induction script generalizing i j with
  | nil => exact ⟨Nat.le_of_eq h.1, Nat.le_of_eq h.2⟩
  | cons e rest ih =>
    have hrest := ih h.2.2
    omega

/-- The same `n` items stand at `i` in the old sequence and at `j` in the new one. -/
structure Kept (old new : List α) (i j n : Nat) : Prop where
  eq : (old.drop i).take n = (new.drop j).take n
  oldBound : i + n ≤ old.length
  newBound : j + n ≤ new.length

theorem Kept.sub (h : Kept old new i j n) {skip count : Nat} (hcount : skip + count ≤ n) :
    Kept old new (i + skip) (j + skip) count := by
  have hdrop := congrArg (fun xs => (xs.drop skip).take count) h.eq
  have hold := h.oldBound
  have hnew := h.newBound
  refine ⟨?_, by omega, by omega⟩
  simp only [List.drop_take, List.drop_drop, List.take_take] at hdrop
  rwa [Nat.min_eq_left (by omega)] at hdrop

/-- Kept items with the same rest behind them. -/
theorem Kept.drop_eq (h : Kept old new i j n) (hrest : old.drop (i + n) = new.drop (j + n)) :
    old.drop i = new.drop j := by
  rw [← List.take_append_drop n (old.drop i), ← List.take_append_drop n (new.drop j), h.eq,
    List.drop_drop, List.drop_drop, hrest]

/-- A kept edit in a span keeps its items. -/
theorem Spans.kept {rest : List Edit} (h : Spans old new i j (e :: rest) m n)
    (hkind : e.kind = .keep) (hm : m ≤ old.length) (hn : n ≤ new.length) :
    e.newLength = e.oldLength ∧ Kept old new i j e.oldLength := by
  obtain ⟨hat, hsound, hrest⟩ := h
  obtain ⟨hlength, hrun⟩ := hsound hkind
  have hle := hrest.le
  rw [hlength] at hle
  refine ⟨hlength, ⟨?_, by omega, by omega⟩⟩
  rwa [hat.oldRun, hat.newRun, hlength] at hrun

/-- A kept edit with fewer of its items. -/
theorem spans_moveDown (hlength : e.newLength = e.oldLength)
    (hkept : Kept old new e.oldIndex e.newIndex e.oldLength) {steps shorter : Nat}
    (h : steps ≤ shorter) (hshorter : shorter ≤ e.oldLength) :
    Spans old new (e.oldIndex + steps) (e.newIndex + steps) [e.moveDown steps shorter]
      (e.oldIndex + steps + (e.oldLength - shorter))
      (e.newIndex + steps + (e.oldLength - shorter)) := by
  have hsub := hkept.sub (show steps + (e.oldLength - shorter) ≤ e.oldLength by omega)
  refine ⟨⟨fun _ => rfl, fun _ => rfl⟩, fun _ => ⟨?_, ?_⟩, rfl, ?_⟩
  · simp [Edit.moveDown, hlength]
  · simpa [Edit.moveDown, Edit.oldRun, Edit.newRun, hlength] using hsub.eq
  · simp [Edit.moveDown, hlength]

/-- Edits up to one of which the end was moved. -/
theorem Bounded.endingAt {e e' : Edit} (h : Bounded (as ++ e :: bs) i j m n)
    (hold : e'.oldIndex = e.oldIndex) (hnew : e'.newIndex = e.newIndex) :
    Bounded (as ++ [e']) i j (e'.oldIndex + e'.oldLength) (e'.newIndex + e'.newLength) := by
  refine ⟨?_, ?_⟩
  · cases as with
    | nil =>
      rintro x hx
      obtain rfl : e' = x := Option.some.inj hx
      rw [hold, hnew]
      exact h.1 e rfl
    | cons a rest => exact h.1
  · rintro x hx
    obtain rfl : e' = x := by simpa using hx
    exact ⟨rfl, rfl⟩

/-- Edits from one on of which the start was moved. -/
theorem Bounded.startingAt {e e' : Edit} (h : Bounded (as ++ e :: bs) i j m n)
    (hold : e'.oldIndex + e'.oldLength = e.oldIndex + e.oldLength)
    (hnew : e'.newIndex + e'.newLength = e.newIndex + e.newLength) :
    Bounded (e' :: bs) e'.oldIndex e'.newIndex m n := by
  refine ⟨?_, ?_⟩
  · rintro x hx
    obtain rfl : e' = x := Option.some.inj hx
    exact ⟨rfl, rfl⟩
  · intro x hx
    cases bs with
    | nil =>
      obtain rfl : e' = x := by simpa using hx
      rw [hold, hnew]
      exact h.2 e (by simp)
    | cons b rest => exact h.2 x (by simpa using hx)

/-- The group ends with kept items. -/
def EndsKept (group : List Edit) : Prop :=
  ∃ start e, group = start ++ [e] ∧ e.kind = .keep ∧ 0 < e.oldLength

/-- Groups of edits, each with kept items in front of it, at least `least` before the first one, and
with the same rest behind the last one. Only the last group may end with a change. -/
inductive Hunks (old new : List α) : (least i j : Nat) → List (List Edit) → Prop
  | done {least i j : Nat} : old.drop i = new.drop j → Hunks old new least i j []
  | hunk {least i j n a b : Nat} {group : List Edit} {groups : List (List Edit)} :
      least ≤ n → Kept old new i j n → group ≠ [] → Spans old new (i + n) (j + n) group a b →
      Bounded group (i + n) (j + n) a b → a ≤ old.length → b ≤ new.length →
      (groups ≠ [] → EndsKept group) → Hunks old new 1 a b groups →
      Hunks old new least i j (group :: groups)

/-- Nothing is shown of a group only if it keeps all of its items. -/
theorem Spans.kept_of_not_showsChange {group : List Edit} (h : Spans old new i j group m n)
    (hm : m ≤ old.length) (hn : n ≤ new.length) (hshows : showsChange group = false) :
    ∃ k, m = i + k ∧ n = j + k ∧ Kept old new i j k := by
  match group, h, hshows with
  | [], h, _ =>
    obtain ⟨rfl, rfl⟩ := h
    exact ⟨0, rfl, rfl, by simp, hm, hn⟩
  | [e], h, hshows =>
    have hkind : e.kind = .keep := by simpa [showsChange] using hshows
    obtain ⟨hlength, hkept⟩ := h.kept hkind hm hn
    obtain ⟨-, -, rfl, rfl⟩ := h
    exact ⟨e.oldLength, rfl, by rw [hlength], hkept⟩
  | _ :: _ :: _, _, hshows => simp [showsChange] at hshows

/-- The first items of a long kept run, which end the group in front of it. -/
theorem spans_front (hlength : e.newLength = e.oldLength)
    (hkept : Kept old new e.oldIndex e.newIndex e.oldLength) (hlong : 2 * context < e.oldLength) :
    Spans old new e.oldIndex e.newIndex [e.moveDown 0 (e.oldLength - context)]
      (e.oldIndex + context) (e.newIndex + context) := by
  have hfront := spans_moveDown hlength hkept (Nat.zero_le (e.oldLength - context)) (Nat.sub_le _ _)
  have hcount : e.oldLength - (e.oldLength - context) = context := by omega
  rwa [hcount, Nat.add_zero, Nat.add_zero] at hfront

/-- The last items of a long kept run, which start the group behind it. -/
theorem spans_back (hlength : e.newLength = e.oldLength)
    (hkept : Kept old new e.oldIndex e.newIndex e.oldLength) (hlong : 2 * context < e.oldLength) :
    Spans old new (e.oldIndex + (e.oldLength - context)) (e.newIndex + (e.oldLength - context))
      [e.moveDown (e.oldLength - context) (e.oldLength - context)]
      (e.oldIndex + e.oldLength) (e.newIndex + e.oldLength) := by
  have hback := spans_moveDown hlength hkept (Nat.le_refl (e.oldLength - context)) (Nat.sub_le _ _)
  have hstop : ∀ index, index + (e.oldLength - context) +
      (e.oldLength - (e.oldLength - context)) = index + e.oldLength := by omega
  rwa [hstop, hstop] at hback

/-- What stands before the middle of a long equal part is bounded by it. -/
theorem Bounded.front (h : Bounded (as ++ e :: bs) i j m n) (hlength : e.newLength = e.oldLength)
    (hlong : 2 * context < e.oldLength) :
    Bounded (as ++ [e.moveDown 0 (e.oldLength - context)]) i j (e.oldIndex + context)
      (e.newIndex + context) := by
  have hfront : Bounded (as ++ [e.moveDown 0 (e.oldLength - context)]) i j
      (e.oldIndex + (e.oldLength - (e.oldLength - context)))
      (e.newIndex + (e.newLength - (e.oldLength - context))) := h.endingAt rfl rfl
  have hcount : e.oldLength - (e.oldLength - context) = context := by omega
  rwa [hlength, hcount] at hfront

theorem Bounded.back (h : Bounded (as ++ e :: bs) i j m n) (hlength : e.newLength = e.oldLength) :
    Bounded (e.moveDown (e.oldLength - context) (e.oldLength - context) :: bs)
      (e.oldIndex + (e.oldLength - context)) (e.newIndex + (e.oldLength - context)) m n :=
  h.startingAt (by simp only [Edit.moveDown]; omega) (by simp only [Edit.moveDown]; omega)

/-- Cutting a script at its long kept runs leaves hunks. The group so far starts after `gap` kept
items; the rest of the script ends where the sequences have the same rest. -/
theorem hunks_groupFrom {script group : List Edit} {least i j gap k l m n : Nat}
    (hleast : least ≤ gap) (hgap : Kept old new i j gap)
    (hgroup : Spans old new (i + gap) (j + gap) group k l)
    (hscript : Spans old new k l script m n)
    (hbounded : Bounded (group ++ script) (i + gap) (j + gap) m n) (hm : m ≤ old.length)
    (hn : n ≤ new.length) (hrest : old.drop m = new.drop n) :
    Hunks old new least i j (groupFrom group script) := by
  induction script generalizing group least i j gap k l with
  | nil =>
    obtain ⟨rfl, rfl⟩ := hscript
    rw [List.append_nil] at hbounded
    rw [groupFrom]
    split
    · next hshows =>
      have hne : group ≠ [] := by rintro rfl; simp [showsChange] at hshows
      exact .hunk hleast hgap hne hgroup hbounded hm hn (fun h => absurd rfl h) (.done hrest)
    · next hshows =>
      obtain ⟨count, rfl, rfl, hkept⟩ :=
        hgroup.kept_of_not_showsChange hm hn (Bool.eq_false_iff.mpr hshows)
      exact .done (hgap.drop_eq (hkept.drop_eq hrest))
  | cons e rest ih =>
    rw [groupFrom]
    split
    · next hlong =>
      obtain ⟨hkind, hlong⟩ := hlong
      obtain ⟨hlength, hkept⟩ := hscript.kept hkind hm hn
      obtain ⟨hat, -, hscript⟩ := hscript
      obtain rfl := hat.oldIndex_eq hkind
      obtain rfl := hat.newIndex_eq hkind
      rw [hlength] at hscript
      have hbound := hkept.oldBound
      have hbound' := hkept.newBound
      have hcontext : 0 < context := by decide
      have hends : EndsKept (group ++ [e.moveDown 0 (e.oldLength - context)]) :=
        ⟨group, _, rfl, hkind, by simp only [Edit.moveDown]; omega⟩
      refine .hunk hleast hgap (by simp) (hgroup.append (spans_front hlength hkept hlong))
        (hbounded.front hlength hlong) (by omega) (by omega) (fun _ => hends) ?_
      -- the items between the two parts of the kept run are the gap in front of the next group
      have hbetween := hkept.sub
        (show context + (e.oldLength - 2 * context) ≤ e.oldLength by omega)
      have hstart : ∀ index, index + context + (e.oldLength - 2 * context) =
          index + (e.oldLength - context) := by omega
      refine ih (show 1 ≤ e.oldLength - 2 * context by omega) hbetween ?_ hscript ?_
      · rw [hstart, hstart]
        exact spans_back hlength hkept hlong
      · rw [hstart, hstart]
        exact hbounded.back hlength
    · have hone : Spans old new k l [e] (k + e.oldLength) (l + e.newLength) :=
        ⟨hscript.1, hscript.2.1, rfl, rfl⟩
      refine ih hleast hgap (hgroup.append hone) hscript.2.2 ?_
      rwa [List.append_assoc]

/-- Trimming the first equal part leaves a script that starts after a gap. -/
theorem spans_trimFirst (h : IsScript old new script) :
    ∃ gap, Kept old new 0 0 gap ∧
      Spans old new gap gap (trimFirst script) old.length new.length ∧
      Bounded (trimFirst script) gap gap old.length new.length := by
  have hnone : Kept old new 0 0 0 := ⟨by simp, Nat.zero_le _, Nat.zero_le _⟩
  obtain ⟨hspans, hbounded⟩ := h
  cases script with
  | nil => exact ⟨0, hnone, hspans, hbounded⟩
  | cons e rest =>
    rw [trimFirst]
    split
    · next hkind =>
      obtain ⟨hlength, hkept⟩ := hspans.kept hkind (Nat.le_refl _) (Nat.le_refl _)
      obtain ⟨hat, -, hrest⟩ := hspans
      have hold := hat.oldIndex_eq hkind
      have hnew := hat.newIndex_eq hkind
      have hgap := hkept.sub (show 0 + (e.oldLength - context) ≤ e.oldLength by omega)
      have hplaced : Kept old new e.oldIndex e.newIndex e.oldLength := by rwa [hold, hnew]
      have hmoved := spans_moveDown hlength hplaced (Nat.le_refl (e.oldLength - context))
        (Nat.sub_le _ _)
      have hstop : 0 + (e.oldLength - context) + (e.oldLength - (e.oldLength - context)) =
          0 + e.oldLength := by omega
      have hfrom : Bounded (e.moveDown (e.oldLength - context) (e.oldLength - context) :: rest)
          (e.oldIndex + (e.oldLength - context)) (e.newIndex + (e.oldLength - context))
          old.length new.length :=
        (show Bounded ([] ++ e :: rest) 0 0 _ _ from hbounded).startingAt
          (by simp only [Edit.moveDown]; omega) (by simp only [Edit.moveDown]; omega)
      rw [hold, hnew, hstop] at hmoved
      rw [hlength] at hrest
      refine ⟨e.oldLength - context, hgap, ?_, ?_⟩
      · simpa using hmoved.append hrest
      · rwa [hold, hnew, Nat.zero_add] at hfrom
    · exact ⟨0, hnone, hspans, hbounded⟩

/-- Trimming the last equal part leaves a script that ends before a common rest. -/
theorem spans_trimLast (h : Spans old new i j script old.length new.length)
    (hbounded : Bounded script i j old.length new.length) :
    ∃ m n, Spans old new i j (trimLast script) m n ∧ Bounded (trimLast script) i j m n ∧
      m ≤ old.length ∧ n ≤ new.length ∧ old.drop m = new.drop n := by
  have hsame : old.drop old.length = new.drop new.length := by simp
  rw [trimLast]
  split
  · next hrev =>
    obtain rfl : script = [] := by simpa using hrev
    exact ⟨_, _, h, hbounded, Nat.le_refl _, Nat.le_refl _, hsame⟩
  · next e rest hrev =>
    split
    · next hkind =>
      have hscript : script = rest.reverse ++ [e] := by
        rw [← List.reverse_reverse script, hrev, List.reverse_cons]
      rw [hscript] at h hbounded
      obtain ⟨k, l, hstart, hlast⟩ := h.split
      obtain ⟨hlength, hkept⟩ := hlast.kept hkind (Nat.le_refl _) (Nat.le_refl _)
      obtain ⟨hat, -, hstop, hstop'⟩ := hlast
      obtain rfl := hat.oldIndex_eq hkind
      obtain rfl := hat.newIndex_eq hkind
      have hmoved := spans_moveDown hlength hkept (Nat.zero_le (e.oldLength - context))
        (Nat.sub_le _ _)
      have hupTo := hbounded.endingAt (show (e.moveDown 0 (e.oldLength - context)).oldIndex =
        e.oldIndex from rfl) rfl
      have hbound := hkept.oldBound
      have hbound' := hkept.newBound
      -- what the last run loses is the rest that both sequences share
      have hlost := hkept.sub (show (e.oldLength - (e.oldLength - context)) +
        (e.oldLength - context) ≤ e.oldLength by omega)
      refine ⟨_, _, ?_, ?_, ?_, ?_, hlost.drop_eq ?_⟩
      · rw [List.reverse_cons]
        exact hstart.append hmoved
      · rw [List.reverse_cons]
        simpa [Edit.moveDown, hlength] using hupTo
      · omega
      · omega
      · rw [List.drop_eq_nil_of_le (by omega), List.drop_eq_nil_of_le (by omega)]
    · exact ⟨_, _, h, hbounded, Nat.le_refl _, Nat.le_refl _, hsame⟩

/-- The groups of a script are hunks of the two sequences. -/
theorem hunks_groups (h : IsScript old new script) : Hunks old new 0 0 0 (groups script) := by
  obtain ⟨gap, hgap, hfirst, hbounded⟩ := spans_trimFirst h
  obtain ⟨m, n, hlast, hbounded', hm, hn, hrest⟩ := spans_trimLast hfirst hbounded
  refine hunks_groupFrom (Nat.zero_le gap) hgap ?_ hlast ?_ hm hn hrest
  · exact ⟨Nat.zero_add gap, Nat.zero_add gap⟩
  · rw [Nat.zero_add]
    exact hbounded'

/-- If no hunk is left, the sequences are the same. -/
theorem eq_of_groups_eq_nil (h : IsScript old new script) (hgroups : groups script = []) :
    old = new := by
  have hhunks := hunks_groups h
  rw [hgroups] at hhunks
  cases hhunks with
  | done hrest => simpa using hrest

end

/-- The lines of a hunk that an edit is written as. -/
def Edit.lines (old new : List (List Char)) (e : Edit) : List HunkLine :=
  match e.kind with
  | .keep => (e.oldRun old).map fun text => ⟨.keep, text⟩
  | _ => ((e.oldRun old).map fun text => ⟨.remove, text⟩) ++
      ((e.newRun new).map fun text => ⟨.add, text⟩)

/-- The lines of a hunk that a group is written as. -/
def groupLines (old new : List (List Char)) (group : List Edit) : List HunkLine :=
  group.flatMap (Edit.lines old new)

variable {old new : List (List Char)}

theorem body_editLines (e : Edit) : HunkLine.body (e.lines old new) = writeEdit old new e := by
  unfold Edit.lines writeEdit
  cases e.kind <;>
    simp [HunkLine.body, List.map_map, Function.comp_def, HunkLine.write, LineRole.mark]

theorem body_groupLines (group : List Edit) :
    HunkLine.body (groupLines old new group) = (group.map (writeEdit old new)).flatten := by
  induction group with
  | nil => rfl
  | cons e rest ih =>
    rw [groupLines, List.flatMap_cons, HunkLine.body_append, body_editLines, List.map_cons,
      List.flatten_cons, ← ih]
    rfl

/-- Every line of a group is one of the old or the new lines. -/
theorem text_mem_of_mem_groupLines {group : List Edit} {line : HunkLine}
    (h : line ∈ groupLines old new group) : line.text ∈ old ∨ line.text ∈ new := by
  obtain ⟨e, -, he⟩ := List.mem_flatMap.mp h
  have hold : ∀ text ∈ e.oldRun old, text ∈ old := fun text htext =>
    List.mem_of_mem_drop (List.mem_of_mem_take htext)
  have hnew : ∀ text ∈ e.newRun new, text ∈ new := fun text htext =>
    List.mem_of_mem_drop (List.mem_of_mem_take htext)
  unfold Edit.lines at he
  split at he
  · obtain ⟨text, htext, rfl⟩ := List.mem_map.mp he
    exact Or.inl (hold text htext)
  · rcases List.mem_append.mp he with he | he
    · obtain ⟨text, htext, rfl⟩ := List.mem_map.mp he
      exact Or.inl (hold text htext)
    · obtain ⟨text, htext, rfl⟩ := List.mem_map.mp he
      exact Or.inr (hnew text htext)

end Mutagenesis.LineDiff
