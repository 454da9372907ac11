import Mutagenesis.Proofs.Action
import Mutagenesis.Proofs.EditScript

/-!
# Applying a patch

What applying a line, a hunk and a patch means, each as one equivalence: a hunk applies exactly when
its old side stands at its place in the file, and then its new side takes that place. On top of
that, the hunks of an exact edit script turn the old lines into the new ones, also when the file is
cut into other lines than the script was made for, as long as both cuts agree in front of each hunk.
-/

set_option autoImplicit false

namespace Mutagenesis

namespace HunkLine

/-- The texts that have to stand in the file. -/
def oldTexts (lines : List HunkLine) : List (List Char) :=
  (lines.filter (·.role ≠ .add)).map (·.text)

/-- The texts that take their place. -/
def newTexts (lines : List HunkLine) : List (List Char) :=
  (lines.filter (·.role ≠ .remove)).map (·.text)

theorem oldTexts_append (as bs : List HunkLine) :
    oldTexts (as ++ bs) = oldTexts as ++ oldTexts bs := by
  simp [oldTexts]

theorem newTexts_append (as bs : List HunkLine) :
    newTexts (as ++ bs) = newTexts as ++ newTexts bs := by
  simp [newTexts]

/-- The old texts of lines with one role. -/
theorem oldTexts_map (role : LineRole) (texts : List (List Char)) :
    oldTexts (texts.map fun text => ⟨role, text⟩) = if role = .add then [] else texts := by
  induction texts with
  | nil => simp [oldTexts]
  | cons text rest ih => cases role <;> simp_all [oldTexts]

/-- The new texts of lines with one role. -/
theorem newTexts_map (role : LineRole) (texts : List (List Char)) :
    newTexts (texts.map fun text => ⟨role, text⟩) = if role = .remove then [] else texts := by
  induction texts with
  | nil => simp [newTexts]
  | cons text rest ih => cases role <;> simp_all [newTexts]

theorem length_oldTexts (lines : List HunkLine) : (oldTexts lines).length = oldCount lines := by
  simp [oldTexts, oldCount]

theorem length_newTexts (lines : List HunkLine) : (newTexts lines).length = newCount lines := by
  simp [newTexts, newCount]

end HunkLine

namespace FilePatch

/-- A line of a hunk applies exactly when its old text, if it has one, comes next in the file. -/
theorem applyLine_eq_ok_iff (p : FilePatch) (h : Hunk) (line : HunkLine) (s s' : Applied) :
    p.applyLine h s line = .ok s' ↔
      ∃ left, s.left = HunkLine.oldTexts [line] ++ left ∧
        s' = ⟨s.passed + (HunkLine.oldTexts [line]).length, left,
          s.result ++ HunkLine.newTexts [line]⟩ := by
  obtain ⟨role, text⟩ := line
  obtain ⟨passed, left, result⟩ := s
  cases role with
  | add => simp [applyLine, HunkLine.oldTexts, HunkLine.newTexts, eq_comm]
  | keep | remove =>
    cases left with
    | nil => simp [applyLine, HunkLine.oldTexts]
    | cons next left =>
      by_cases hnext : next = text
      · simp [applyLine, HunkLine.oldTexts, HunkLine.newTexts, hnext, eq_comm]
      · simp [applyLine, HunkLine.oldTexts, hnext]

/-- The lines of a hunk apply exactly when their old texts come next in the file. -/
theorem applyLines_eq_ok_iff (p : FilePatch) (h : Hunk) (lines : List HunkLine) (s s' : Applied) :
    lines.foldlM (p.applyLine h) s = .ok s' ↔
      ∃ left, s.left = HunkLine.oldTexts lines ++ left ∧
        s' = ⟨s.passed + (HunkLine.oldTexts lines).length, left,
          s.result ++ HunkLine.newTexts lines⟩ := by
  induction lines generalizing s with
  | nil => simp [HunkLine.oldTexts, HunkLine.newTexts, pure, Except.pure, eq_comm]
  | cons line rest ih =>
    have hold := HunkLine.oldTexts_append [line] rest
    have hnew := HunkLine.newTexts_append [line] rest
    rw [List.singleton_append] at hold hnew
    rw [List.foldlM_cons, Except.bind_eq_ok_iff]
    constructor
    · rintro ⟨middle, hline, hrest⟩
      obtain ⟨left, hleft, rfl⟩ := (applyLine_eq_ok_iff p h line s middle).mp hline
      obtain ⟨left', rfl, rfl⟩ := (ih _).mp hrest
      refine ⟨left', ?_, ?_⟩
      · rw [hleft, hold, List.append_assoc]
      · simp [hold, hnew, Nat.add_assoc]
    · rintro ⟨left, hleft, rfl⟩
      rw [hold, List.append_assoc] at hleft
      refine ⟨_, (applyLine_eq_ok_iff p h line s _).mpr ⟨_, hleft, rfl⟩, ?_⟩
      exact (ih _).mpr ⟨left, rfl, by simp [hold, hnew, Nat.add_assoc]⟩

theorem oldSide_eq (h : Hunk) : h.oldSide = HunkLine.oldTexts h.lines := rfl

theorem newSide_eq (h : Hunk) : h.newSide = HunkLine.newTexts h.lines := rfl

/-- A hunk applies exactly when its place is neither behind nor beyond the file, and its old side
stands there. -/
theorem applyHunk_eq_ok_iff (p : FilePatch) (h : Hunk) (s s' : Applied) :
    p.applyHunk s h = .ok s' ↔
      s.passed ≤ h.position ∧ h.position ≤ s.passed + s.left.length ∧
        ∃ left, s.left.drop (h.position - s.passed) = h.oldSide ++ left ∧
          s' = ⟨h.position + h.oldSide.length, left,
            s.result ++ s.left.take (h.position - s.passed) ++ h.newSide⟩ := by
  unfold applyHunk
  split
  · next hplace =>
    constructor
    · exact nofun
    · rintro ⟨hlow, hhigh, -⟩
      omega
  · next hplace =>
    have hlow : s.passed ≤ h.position := by omega
    have hhigh : h.position ≤ s.passed + s.left.length := by omega
    simp only [hlow, hhigh, true_and, oldSide_eq, newSide_eq]
    exact applyLines_eq_ok_iff p h h.lines _ s'

end FilePatch

namespace LineDiff

/-- The hunk that a group of edits is written as. -/
def hunkOf (old new : List (List Char)) (group : List Edit) : Hunk :=
  match group.head?, group.getLast? with
  | some first, some last =>
    ⟨rangeStart first.oldIndex (last.oldIndex + last.oldLength),
      last.oldIndex + last.oldLength - first.oldIndex, groupLines old new group⟩
  | _, _ => ⟨0, 0, []⟩

variable {old new : List (List Char)}

theorem oldTexts_editLines (e : Edit) :
    HunkLine.oldTexts (e.lines old new) = e.oldRun old := by
  unfold Edit.lines
  cases e.kind <;> simp [HunkLine.oldTexts_append, HunkLine.oldTexts_map]

theorem newTexts_editLines {e : Edit} (h : e.Sound old new) :
    HunkLine.newTexts (e.lines old new) = e.newRun new := by
  unfold Edit.lines
  cases hkind : e.kind
  case keep =>
    rw [← (h hkind).2]
    simp [HunkLine.newTexts_map]
  all_goals simp [HunkLine.newTexts_append, HunkLine.newTexts_map]

/-- Adjacent ranges of a list make up one range. -/
theorem range_append {α : Type} (xs : List α) {i k m : Nat} (hk : i ≤ k) (hm : k ≤ m) :
    (xs.drop i).take (k - i) ++ (xs.drop k).take (m - k) = (xs.drop i).take (m - i) := by
  have hsum : m - i = (k - i) + (m - k) := by omega
  have hdrop : i + (k - i) = k := by omega
  rw [hsum, List.take_add, List.drop_drop, hdrop]

theorem take_append_range {α : Type} (xs : List α) {i m : Nat} (h : i ≤ m) :
    xs.take i ++ (xs.drop i).take (m - i) = xs.take m := by
  have hrange := range_append xs (Nat.zero_le i) h
  simpa using hrange

variable {group : List Edit} {i j m n : Nat} {groups : List (List Edit)}

/-- The old side of a group is the range of the old lines that it spans. -/
theorem Spans.oldTexts (h : Spans old new i j group m n) :
    HunkLine.oldTexts (groupLines old new group) = (old.drop i).take (m - i) := by
  induction group generalizing i j with
  | nil =>
    obtain ⟨rfl, -⟩ := h
    simp [groupLines, HunkLine.oldTexts]
  | cons e rest ih =>
    obtain ⟨hat, hsound, hrest⟩ := h
    have hrange := range_append old (Nat.le_add_right i e.oldLength) hrest.le.1
    rw [Nat.add_sub_cancel_left] at hrange
    rw [groupLines, List.flatMap_cons, HunkLine.oldTexts_append, oldTexts_editLines, hat.oldRun,
      ← hrange]
    exact congrArg _ (ih hrest)

/-- The new side of a group is the range of the new lines that it spans. -/
theorem Spans.newTexts (h : Spans old new i j group m n) :
    HunkLine.newTexts (groupLines old new group) = (new.drop j).take (n - j) := by
  induction group generalizing i j with
  | nil =>
    obtain ⟨-, rfl⟩ := h
    simp [groupLines, HunkLine.newTexts]
  | cons e rest ih =>
    obtain ⟨hat, hsound, hrest⟩ := h
    have hrange := range_append new (Nat.le_add_right j e.newLength) hrest.le.2
    rw [Nat.add_sub_cancel_left] at hrange
    rw [groupLines, List.flatMap_cons, HunkLine.newTexts_append, newTexts_editLines hsound,
      hat.newRun, ← hrange]
    exact congrArg _ (ih hrest)

theorem Spans.oldCount (h : Spans old new i j group m n) (hm : m ≤ old.length) :
    HunkLine.oldCount (groupLines old new group) = m - i := by
  rw [← HunkLine.length_oldTexts, h.oldTexts, List.length_take, List.length_drop]
  omega

theorem Spans.newCount (h : Spans old new i j group m n) (hn : n ≤ new.length) :
    HunkLine.newCount (groupLines old new group) = n - j := by
  rw [← HunkLine.length_newTexts, h.newTexts, List.length_take, List.length_drop]
  omega

/-- The first and the last edit of a group say where it starts and where it stops. -/
theorem Bounded.ends (h : Bounded group i j m n) (hne : group ≠ []) :
    ∃ first last, group.head? = some first ∧ group.getLast? = some last ∧
      first.oldIndex = i ∧ first.newIndex = j ∧ last.oldIndex + last.oldLength = m ∧
        last.newIndex + last.newLength = n := by
  obtain ⟨first, rest, rfl⟩ := List.exists_cons_of_ne_nil hne
  have hlast : (first :: rest).getLast? = some ((first :: rest).getLast hne) :=
    List.getLast?_eq_some_getLast hne
  obtain ⟨hold, hnew⟩ := h.1 first rfl
  obtain ⟨hold', hnew'⟩ := h.2 _ hlast
  exact ⟨first, _, rfl, hlast, hold, hnew, hold', hnew'⟩

theorem Bounded.hunkOf_eq (h : Bounded group i j m n) (hne : group ≠ []) :
    hunkOf old new group = ⟨rangeStart i m, m - i, groupLines old new group⟩ := by
  obtain ⟨first, last, hfirst, hlast, rfl, -, rfl, -⟩ := h.ends hne
  simp [hunkOf, hfirst, hlast]

theorem Bounded.writeHunk_eq (h : Bounded group i j m n) (hne : group ≠ []) :
    writeHunk old new group = header i m j n ++ HunkLine.body (groupLines old new group) := by
  obtain ⟨first, last, hfirst, hlast, rfl, rfl, rfl, rfl⟩ := h.ends hne
  unfold header
  simp [writeHunk, writeHeader, hfirst, hlast, body_groupLines]

theorem position_rangeStart (i m : Nat) (lines : List HunkLine) :
    Hunk.position ⟨rangeStart i m, m - i, lines⟩ = i := by
  unfold Hunk.position rangeStart
  split <;> rfl

/-- A range of two lists that start alike is the same in both. -/
theorem range_eq_of_take_eq {α : Type} {xs ys : List α} (h : xs.take m = ys.take m) :
    (xs.drop i).take (m - i) = (ys.drop i).take (m - i) := by
  rw [← List.drop_take, ← List.drop_take, h]

/-- With a file that starts as the old lines do up to a hunk, the hunk applies exactly when that
goes on to its end, and turns its old range into the new one. -/
theorem applyHunk_group (p : FilePatch) {file : List (List Char)} {i j n a b : Nat}
    (hkept : Kept old new i j n) (hne : group ≠ [])
    (hspans : Spans old new (i + n) (j + n) group a b)
    (hbounded : Bounded group (i + n) (j + n) a b) (ha : a ≤ old.length)
    (halign : file.take (i + n) = old.take (i + n)) (s : Applied) :
    p.applyHunk ⟨i, file.drop i, new.take j⟩ (hunkOf old new group) = .ok s ↔
      file.take a = old.take a ∧ s = ⟨a, file.drop a, new.take b⟩ := by
  obtain ⟨hia, hjb⟩ := hspans.le
  have hbound := hkept.oldBound
  have hfile : i + n ≤ file.length := by
    have hlength := congrArg List.length halign
    rw [List.length_take, List.length_take] at hlength
    omega
  have hgap : (file.drop i).take n = (new.drop j).take n := by
    have hrange : (file.drop i).take (i + n - i) = (old.drop i).take (i + n - i) :=
      range_eq_of_take_eq halign
    rw [Nat.add_sub_cancel_left] at hrange
    rw [hrange, hkept.eq]
  have hnew : new.take j ++ (file.drop i).take n ++ (new.drop (j + n)).take (b - (j + n)) =
      new.take b := by
    have hgap' : (new.drop j).take n = (new.drop j).take (j + n - j) := by
      rw [Nat.add_sub_cancel_left]
    rw [hgap, hgap', take_append_range new (Nat.le_add_right j n), take_append_range new hjb]
  have hsize : ((old.drop (i + n)).take (a - (i + n))).length = a - (i + n) := by
    rw [List.length_take, List.length_drop]
    omega
  rw [hbounded.hunkOf_eq hne, FilePatch.applyHunk_eq_ok_iff, position_rangeStart,
    FilePatch.oldSide_eq, FilePatch.newSide_eq, hspans.oldTexts, hspans.newTexts]
  simp only [Nat.add_sub_cancel_left, List.drop_drop, hnew, hsize]
  constructor
  · rintro ⟨-, -, left, hleft, rfl⟩
    have hrange : (file.drop (i + n)).take (a - (i + n)) =
        (old.drop (i + n)).take (a - (i + n)) := by
      rw [hleft, List.take_left' hsize]
    have hdrop : file.drop a = left := by
      have hskip : a = i + n + (a - (i + n)) := by omega
      rw [hskip, ← List.drop_drop, hleft, List.drop_left' hsize]
    refine ⟨?_, ?_⟩
    · rw [← take_append_range file hia, ← take_append_range old hia, halign, hrange]
    · rw [hdrop]
      congr 1
      omega
  · rintro ⟨htake, rfl⟩
    refine ⟨by omega, by rw [List.length_drop]; omega, file.drop a, ?_, ?_⟩
    · have hskip : a = i + n + (a - (i + n)) := by omega
      have hrest : file.drop a = (file.drop (i + n)).drop (a - (i + n)) := by
        rw [List.drop_drop, ← hskip]
      rw [hrest, ← range_eq_of_take_eq htake, List.take_append_drop]
    · congr 1
      omega

/-- Both cuts of a file into lines agree in front of every hunk. -/
def Aligned (file old : List (List Char)) (groups : List (List Edit)) : Prop :=
  ∀ group ∈ groups, ∀ first ∈ group.head?, file.take first.oldIndex = old.take first.oldIndex

instance (file old : List (List Char)) (groups : List (List Edit)) :
    Decidable (Aligned file old groups) :=
  inferInstanceAs (Decidable (∀ group ∈ groups, ∀ first ∈ group.head?, _))

theorem Aligned.start {file : List (List Char)} (h : Aligned file old groups)
    (hmem : group ∈ groups) (hne : group ≠ []) (hbounded : Bounded group i j m n) :
    file.take i = old.take i := by
  obtain ⟨first, -, hfirst, -, rfl, -⟩ := hbounded.ends hne
  exact h group hmem first hfirst

/-- Hunks that apply to a file turn all of its old lines into the new ones, and the rest is what
both texts share. -/
theorem foldlM_hunks (p : FilePatch) {file : List (List Char)} {least i j : Nat}
    (h : Hunks old new least i j groups) (halign : Aligned file old groups)
    (hstart : file.take i = old.take i) {s : Applied}
    (hs : (groups.map (hunkOf old new)).foldlM p.applyHunk ⟨i, file.drop i, new.take j⟩ = .ok s) :
    ∃ m n, s = ⟨m, file.drop m, new.take n⟩ ∧ file.take m = old.take m ∧
      old.drop m = new.drop n := by
  induction h with
  | done hrest =>
    cases hs
    exact ⟨_, _, rfl, hstart, hrest⟩
  | @hunk least i j n a b group groups hleast hkept hne hspans hbounded ha hb hends hrest ih =>
    rw [List.map_cons, List.foldlM_cons, Except.bind_eq_ok_iff] at hs
    obtain ⟨middle, hgroup, hs⟩ := hs
    have hat := halign.start (by simp) hne hbounded
    obtain ⟨htake, rfl⟩ := (applyHunk_group p hkept hne hspans hbounded ha hat middle).mp hgroup
    exact ih (fun other hother => halign other (by simp [hother])) htake hs

/-- The hunks apply to the old lines themselves. -/
theorem foldlM_hunks_self (p : FilePatch) {least i j : Nat} (h : Hunks old new least i j groups) :
    ∃ s, (groups.map (hunkOf old new)).foldlM p.applyHunk ⟨i, old.drop i, new.take j⟩ =
      .ok s := by
  induction h with
  | done hrest => exact ⟨_, rfl⟩
  | @hunk least i j n a b group groups hleast hkept hne hspans hbounded ha hb hends hrest ih =>
    obtain ⟨s, hs⟩ := ih
    refine ⟨s, ?_⟩
    rw [List.map_cons, List.foldlM_cons, Except.bind_eq_ok_iff]
    exact ⟨_, (applyHunk_group p hkept hne hspans hbounded ha rfl _).mpr ⟨rfl, rfl⟩, hs⟩

/-- A patch made of the hunks of a script, where it applies, gives the new text. -/
theorem apply_hunks_eq (p : FilePatch) {text result : List Char} (h : Hunks old new 0 0 0 groups)
    (hhunks : p.hunks = groups.map (hunkOf old new)) (halign : Aligned (Text.lines text) old groups)
    (hold : old.flatten = text) (happly : p.apply text = .ok result) : result = new.flatten := by
  rw [FilePatch.apply, Except.bind_eq_ok_iff] at happly
  obtain ⟨s, hs, hresult⟩ := happly
  rw [hhunks] at hs
  obtain ⟨m, n, rfl, htake, hrest⟩ := foldlM_hunks p h halign rfl hs
  have hflat : ((Text.lines text).drop m).flatten = (old.drop m).flatten := by
    have hboth : (Text.lines text).flatten = old.flatten := by rw [Text.flatten_lines, hold]
    rw [← List.take_append_drop m (Text.lines text), ← List.take_append_drop m old, htake,
      List.flatten_append, List.flatten_append] at hboth
    exact List.append_cancel_left hboth
  cases hresult
  rw [List.flatten_append, hflat, hrest, ← List.flatten_append, List.take_append_drop]

/-- A patch made of the hunks of a script applies to the old text. -/
theorem apply_hunks_self (p : FilePatch) {text : List Char} (h : Hunks old new 0 0 0 groups)
    (hhunks : p.hunks = groups.map (hunkOf old new)) (hold : Text.lines text = old) :
    p.apply text = .ok new.flatten := by
  obtain ⟨s, hs⟩ := foldlM_hunks_self p h
  have happly : p.apply text = .ok (s.result ++ s.left).flatten := by
    rw [FilePatch.apply, Except.bind_eq_ok_iff]
    refine ⟨s, ?_, rfl⟩
    rw [hhunks, hold]
    exact hs
  have halign : Aligned (Text.lines text) old groups := fun _ _ _ _ => by rw [hold]
  have hflat : old.flatten = text := by rw [← hold, Text.flatten_lines]
  rw [happly, apply_hunks_eq p h hhunks halign hflat happly]

end LineDiff

end Mutagenesis
