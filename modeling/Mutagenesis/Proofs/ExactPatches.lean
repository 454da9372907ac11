import Mathlib.Data.List.Chain
import Mutagenesis.Proofs.DiffReading
import Mutagenesis.Proofs.PatchApplication

/-!
# Patches are read and applied to the letter

Every line of an accepted diff that starts with `@@` is the header of a hunk, and the hunk has as
many lines of the old and of the new file as its header says (`parse_accounts`). What a patch does
to a file is said without a cursor: each of its hunks stands in the file where it says, behind the
one before, and the result is the file with every hunk replaced, the last one first
(`apply_eq_ok_iff`).
-/

set_option autoImplicit false

namespace Mutagenesis

/-! ## Reading -/

namespace Diff

/-- The lines of a diff that look like the header of a hunk. -/
def headers (lines : List (List Char)) : List (List Char) :=
  lines.filter (['@', '@'].isPrefixOf ·)

/-- The header gives the numbers of the hunk, and of the lines that it announces the old file lacks
`old` and the new file `new`. -/
def Announces (old new : Nat) (header : List Char) (h : Hunk) : Prop :=
  ∃ newLength, hunkHeader header = .ok (h.oldStart, h.oldLength, newLength) ∧
    h.oldSide.length + old = h.oldLength ∧ h.newSide.length + new = newLength

/-- The hunks read so far have these headers; a hunk that is being read has the last of them. -/
def Reading.Accounts (r : Reading) (headers : List (List Char)) : Prop :=
  let hunks := r.patches.flatMap (·.hunks)
  match r.place with
  | .outside | .oldNamed _ => List.Forall₂ (Announces 0 0) headers hunks
  | .inside o => r.patches ≠ [] ∧ ∃ earlier header, headers = earlier ++ [header] ∧
      List.Forall₂ (Announces 0 0) earlier hunks ∧ Announces o.oldLeft o.newLeft header o.hunk

theorem headers_eq_nil {line : List Char} (h : line.head? ≠ some '@') : headers [line] = [] := by
  cases line with
  | nil => rfl
  | cons c cs =>
    have hc : '@' ≠ c := by
      rintro rfl
      exact h rfl
    simp [headers, hc]

theorem head?_of_isPrefixOf {c : Char} {cs line : List Char}
    (h : (c :: cs).isPrefixOf line = true) : line.head? = some c := by
  cases line with
  | nil => cases h
  | cons d rest =>
    rw [List.isPrefixOf, Bool.and_eq_true, beq_iff_eq] at h
    rw [h.1, List.head?_cons]

/-- A header line starts with the first character of its lead. -/
theorem head?_of_headerPath {c : Char} {cs line path : List Char}
    (h : headerPath (c :: cs) line = .ok path) : line.head? = some c := by
  unfold headerPath at h
  split at h
  · cases h
  · next rest hrest =>
    cases line with
    | nil => cases hrest
    | cons d ds =>
      rw [Text.after?_cons] at hrest
      split at hrest
      · next hc => simp [eq_of_beq hc]
      · cases hrest

variable {o o' : OpenHunk} {line header : List Char}

theorem OpenHunk.hasRoom_of_push {l : HunkLine} (h : o.push l = .ok o') : o.HasRoom l := by
  obtain ⟨role, text⟩ := l
  constructor
  · intro hrole
    by_contra hnone
    cases role <;> simp_all [push]
  · intro hrole
    by_contra hnone
    cases role <;> simp_all [push]

/-- A line that is added counts for each of the files that have it. -/
theorem OpenHunk.push_announces {l : HunkLine} (h : o.push l = .ok o')
    (ho : Announces o.oldLeft o.newLeft header o.hunk) :
    Announces o'.oldLeft o'.newLeft header o'.hunk := by
  have hroom := hasRoom_of_push h
  obtain rfl : o.pushed l = o' := Except.ok.inj ((push_eq hroom).symm.trans h)
  obtain ⟨newLength, hheader, hold, hnew⟩ := ho
  refine ⟨newLength, hheader, ?_, ?_⟩
  · by_cases hrole : l.role = .add
    · simpa [pushed, Hunk.oldSide, hrole] using hold
    · have := hroom.1 hrole
      simp [pushed, Hunk.oldSide, hrole] at hold ⊢
      omega
  · by_cases hrole : l.role = .remove
    · simpa [pushed, Hunk.newSide, hrole] using hnew
    · have := hroom.2 hrole
      simp [pushed, Hunk.newSide, hrole] at hnew ⊢
      omega

/-- A line that loses its newline counts as before. -/
theorem OpenHunk.takeNewline_announces (h : o.takeNewline = .ok o')
    (ho : Announces o.oldLeft o.newLeft header o.hunk) :
    Announces o'.oldLeft o'.newLeft header o'.hunk := by
  obtain ⟨newLength, hheader, hold, hnew⟩ := ho
  obtain ⟨lines, hlines, hrest⟩ := Except.bind_eq_ok_iff.mp h
  cases hrest
  unfold Diff.takeNewline at hlines
  split at hlines
  · cases hlines
  · next last rest hreverse =>
    cases hlines
    rw [List.reverse_eq_iff] at hreverse
    refine ⟨newLength, hheader, ?_, ?_⟩
    · rw [← hold, Hunk.oldSide, Hunk.oldSide, hreverse]
      by_cases hrole : last.role = .add <;> simp [hrole]
    · rw [← hnew, Hunk.newSide, Hunk.newSide, hreverse]
      by_cases hrole : last.role = .remove <;> simp [hrole]

/-- A line of a hunk is no header, and the hunk is still as announced. -/
theorem OpenHunk.read_announces (h : o.read line = .ok o')
    (ho : Announces o.oldLeft o.newLeft header o.hunk) :
    headers [line] = [] ∧ Announces o'.oldLeft o'.newLeft header o'.hunk := by
  unfold read at h
  dsimp only at h
  have hline {c : Char} (hhead : line.head? = some c) (hc : c ≠ '@') : headers [line] = [] :=
    headers_eq_nil (by simpa [hhead] using hc)
  split at h
  · next hhead => exact ⟨hline hhead (by decide), push_announces h ho⟩
  · next hhead => exact ⟨hline hhead (by decide), push_announces h ho⟩
  · next hhead => exact ⟨hline hhead (by decide), push_announces h ho⟩
  · next hhead => exact ⟨hline hhead (by decide), push_announces h ho⟩
  · next hhead => exact ⟨hline hhead (by decide), takeNewline_announces h ho⟩
  · cases h

variable {r r' : Reading} {known : List (List Char)} {patches : List FilePatch}

/-- A line outside hunks accounts for the headers so far. -/
theorem readOutside_accounts (h : readOutside patches line = .ok r')
    (hpatches : List.Forall₂ (Announces 0 0) known (patches.flatMap (·.hunks))) :
    r'.Accounts (known ++ headers [line]) := by
  unfold readOutside at h
  split at h
  · next hminus =>
    obtain ⟨old, -, hr⟩ := Except.bind_eq_ok_iff.mp h
    cases hr
    rw [headers_eq_nil (by simp [head?_of_isPrefixOf hminus]), List.append_nil]
    exact hpatches
  · split at h
    · next hheader =>
      split at h
      · cases h
      · next hne =>
        obtain ⟨⟨oldStart, oldLength, newLength⟩, hnumbers, hr⟩ := Except.bind_eq_ok_iff.mp h
        cases hr
        have hline : headers [line] = [line] := by simp [headers, hheader]
        refine ⟨by simpa using hne, known, line, by rw [hline], hpatches, newLength, hnumbers, ?_⟩
        simp [Hunk.oldSide, Hunk.newSide]
    · next hheader =>
      cases h
      have hline : headers [line] = [] := by simp [headers, hheader]
      rw [hline, List.append_nil]
      exact hpatches

theorem hunks_addHunk (hne : patches ≠ []) (h : Hunk) :
    (addHunk patches h).flatMap (·.hunks) = patches.flatMap (·.hunks) ++ [h] := by
  obtain ⟨earlier, last, rfl⟩ := (List.eq_nil_or_concat patches).resolve_left hne
  simp [addHunk]

theorem Reading.Accounts.closed (h : (⟨patches, .inside o⟩ : Reading).Accounts known)
    (hdone : o.oldLeft = 0 ∧ o.newLeft = 0) :
    List.Forall₂ (Announces 0 0) known ((addHunk patches o.hunk).flatMap (·.hunks)) := by
  obtain ⟨hne, earlier, header, rfl, hearlier, hlast⟩ := h
  rw [hdone.1, hdone.2] at hlast
  rw [hunks_addHunk hne]
  exact List.rel_append hearlier (.cons hlast .nil)

/-- One line keeps the account. -/
theorem readLine_accounts (h : readLine r line = .ok r') (hr : r.Accounts known) :
    r'.Accounts (known ++ headers [line]) := by
  obtain ⟨patches, place⟩ := r
  cases place with
  | outside => exact readOutside_accounts h hr
  | oldNamed old =>
    obtain ⟨new, hnew, hr'⟩ := Except.bind_eq_ok_iff.mp h
    cases hr'
    rw [headers_eq_nil (by simp [head?_of_headerPath hnew]), List.append_nil]
    simpa [Reading.Accounts] using hr
  | inside o =>
    simp only [readLine] at h
    split at h
    · next hdone =>
      split at h
      · next hmarker =>
        obtain ⟨o', ho', hr'⟩ := Except.bind_eq_ok_iff.mp h
        cases hr'
        obtain ⟨hne, earlier, header, rfl, hearlier, hlast⟩ := hr
        rw [headers_eq_nil (by simp [hmarker]), List.append_nil]
        exact ⟨hne, earlier, header, rfl, hearlier, o.takeNewline_announces ho' hlast⟩
      · exact readOutside_accounts h (hr.closed hdone)
    · obtain ⟨o', ho', hr'⟩ := Except.bind_eq_ok_iff.mp h
      cases hr'
      obtain ⟨hne, earlier, header, rfl, hearlier, hlast⟩ := hr
      obtain ⟨hline, hread⟩ := o.read_announces ho' hlast
      rw [hline, List.append_nil]
      exact ⟨hne, earlier, header, rfl, hearlier, hread⟩

/-- Lines that are read account for all their headers. -/
theorem readLines_accounts {lines : List (List Char)} (h : lines.foldlM readLine r = .ok r')
    (hr : r.Accounts known) : r'.Accounts (known ++ headers lines) := by
  induction lines generalizing r known with
  | nil =>
    cases h
    simpa [headers] using hr
  | cons line rest ih =>
    rw [List.foldlM_cons] at h
    obtain ⟨r₁, hline, hrest⟩ := Except.bind_eq_ok_iff.mp h
    have hall := ih hrest (readLine_accounts hline hr)
    rwa [List.append_assoc, headers, headers, ← List.filter_append] at hall

/-- The hunks of an accepted diff are those that its headers announce, each with all its lines. -/
theorem parse_accounts {diff : List Char} (h : parse diff = .ok patches) :
    List.Forall₂ (Announces 0 0) (headers (Text.lines diff)) (patches.flatMap (·.hunks)) := by
  obtain ⟨r, hlines, hfinish⟩ := Except.bind_eq_ok_iff.mp h
  have hstart : Reading.Accounts ⟨[], .outside⟩ [] := .nil
  have hr := readLines_accounts hlines hstart
  rw [List.nil_append] at hr
  obtain ⟨patches', place⟩ := r
  cases place with
  | outside =>
    cases hfinish
    exact hr
  | oldNamed old => cases hfinish
  | inside o =>
    simp only [finish] at hfinish
    split at hfinish
    · next hdone =>
      cases hfinish
      exact hr.closed hdone
    · cases hfinish

end Diff

/-! ## Applying -/

namespace Hunk

/-- The old side of the hunk stands in the file where the hunk says. -/
def StandsIn (lines : List (List Char)) (h : Hunk) : Prop :=
  h.position ≤ lines.length ∧ h.oldSide <+: lines.drop h.position

/-- The lines with the new side of the hunk in place of its old side. -/
def replace (h : Hunk) (lines : List (List Char)) : List (List Char) :=
  lines.take h.position ++ (h.newSide ++ lines.drop (h.position + h.oldSide.length))

theorem StandsIn.end_le {lines : List (List Char)} {h : Hunk} (hstands : h.StandsIn lines) :
    h.position + h.oldSide.length ≤ lines.length := by
  have hlength := hstands.2.length_le
  rw [List.length_drop] at hlength
  have := hstands.1
  omega

end Hunk

/-- The hunks stand in the file, the first one at `start` or later and each of the others not before
the end of the one before. -/
structure AppliesFrom (lines : List (List Char)) (start : Nat) (hunks : List Hunk) : Prop where
  stand : ∀ h ∈ hunks, h.StandsIn lines
  behind : hunks.IsChain fun a b => a.position + a.oldSide.length ≤ b.position
  first : ∀ h ∈ hunks.head?, start ≤ h.position

/-- The cursor is in the file, and what is left is the file from there on. -/
structure Applied.InFile (lines : List (List Char)) (s : Applied) : Prop where
  passed_le : s.passed ≤ lines.length
  left_eq : s.left = lines.drop s.passed

section

variable {lines : List (List Char)} {start : Nat} {h : Hunk} {hunks : List Hunk}

/-- Hunks apply if the first one does and the others do after it. -/
theorem appliesFrom_cons : AppliesFrom lines start (h :: hunks) ↔
    start ≤ h.position ∧ h.StandsIn lines ∧
      AppliesFrom lines (h.position + h.oldSide.length) hunks := by
  constructor
  · rintro ⟨hstand, hbehind, hfirst⟩
    rw [List.isChain_cons] at hbehind
    exact ⟨hfirst h rfl, hstand h (by simp), fun x hx => hstand x (by simp [hx]), hbehind.2,
      hbehind.1⟩
  · rintro ⟨hstart, hstands, hstand, hbehind, hfirst⟩
    refine ⟨?_, List.isChain_cons.mpr ⟨hfirst, hbehind⟩, ?_⟩
    · simpa using ⟨hstands, hstand⟩
    · simpa using hstart

/-- Hunks that apply from a line on stand at or after it. -/
theorem AppliesFrom.le_position (hhunks : AppliesFrom lines start hunks) :
    ∀ h ∈ hunks, start ≤ h.position := by
  induction hunks generalizing start with
  | nil => simp
  | cons h rest ih =>
    obtain ⟨hstart, -, hrest⟩ := appliesFrom_cons.mp hhunks
    intro x hx
    rcases List.mem_cons.mp hx with rfl | hx
    · exact hstart
    · have := ih hrest x hx
      omega

/-- Hunks leave the lines in front of them alone. -/
theorem take_replaces (hstart : start ≤ lines.length) (hle : ∀ h ∈ hunks, start ≤ h.position) :
    (hunks.foldr Hunk.replace lines).take start = lines.take start := by
  induction hunks with
  | nil => rfl
  | cons h rest ih =>
    have hrest := ih fun x hx => hle x (by simp [hx])
    have hposition := hle h (by simp)
    have hlength := congrArg List.length hrest
    rw [List.length_take, List.length_take] at hlength
    rw [List.foldr_cons, Hunk.replace, List.take_append_of_le_length, List.take_take,
      Nat.min_eq_left hposition, hrest]
    rw [List.length_take]
    omega

end

namespace FilePatch

variable {lines : List (List Char)} {p : FilePatch} {s s' : Applied} {hunks : List Hunk}

/-- From a cursor in the file a hunk applies exactly if it stands there or further on. -/
theorem applyHunk_eq_ok_iff_standsIn (hs : s.InFile lines) (h : Hunk) :
    p.applyHunk s h = .ok s' ↔ s.passed ≤ h.position ∧ h.StandsIn lines ∧
      s' = ⟨h.position + h.oldSide.length, lines.drop (h.position + h.oldSide.length),
        s.result ++ (lines.drop s.passed).take (h.position - s.passed) ++ h.newSide⟩ := by
  have hpassed := hs.passed_le
  rw [applyHunk_eq_ok_iff, hs.left_eq, List.length_drop, List.drop_drop]
  constructor
  · rintro ⟨hlow, hhigh, left, hleft, rfl⟩
    rw [Nat.add_sub_cancel' hlow] at hleft
    have hdrop := congrArg (List.drop h.oldSide.length) hleft
    rw [List.drop_drop, List.drop_left] at hdrop
    exact ⟨hlow, ⟨by omega, left, hleft.symm⟩, by rw [hdrop]⟩
  · rintro ⟨hlow, ⟨hhigh, left, hleft⟩, rfl⟩
    have hdrop := congrArg (List.drop h.oldSide.length) hleft
    rw [List.drop_drop, List.drop_left] at hdrop
    rw [Nat.add_sub_cancel' hlow]
    exact ⟨hlow, by omega, left, hleft.symm, by rw [hdrop]⟩

theorem applyHunk_inFile (hs : s.InFile lines) {h : Hunk} (hhunk : p.applyHunk s h = .ok s') :
    s'.InFile lines := by
  obtain ⟨-, hstands, rfl⟩ := (applyHunk_eq_ok_iff_standsIn hs h).mp hhunk
  exact ⟨hstands.end_le, rfl⟩

/-- Applying hunks stays within the lines of the file. -/
theorem applyHunks_inFile (hs : s.InFile lines) (hhunks : hunks.foldlM p.applyHunk s = .ok s') :
    s'.InFile lines := by
  induction hunks generalizing s with
  | nil =>
    cases hhunks
    exact hs
  | cons h rest ih =>
    rw [List.foldlM_cons] at hhunks
    obtain ⟨s₁, hhunk, hrest⟩ := Except.bind_eq_ok_iff.mp hhunks
    exact ih (applyHunk_inFile hs hhunk) hrest

/-- From a cursor in the file the hunks apply exactly if they stand in order from there on. -/
theorem exists_applyHunks_iff (hs : s.InFile lines) :
    (∃ s', hunks.foldlM p.applyHunk s = .ok s') ↔ AppliesFrom lines s.passed hunks := by
  induction hunks generalizing s with
  | nil => exact iff_of_true ⟨s, rfl⟩ ⟨by simp, .nil, by simp⟩
  | cons h rest ih =>
    rw [appliesFrom_cons, List.foldlM_cons]
    simp only [Except.bind_eq_ok_iff]
    constructor
    · rintro ⟨s', s₁, hhunk, hrest⟩
      have hs₁ := applyHunk_inFile hs hhunk
      obtain ⟨hlow, hstands, rfl⟩ := (applyHunk_eq_ok_iff_standsIn hs h).mp hhunk
      exact ⟨hlow, hstands, (ih hs₁).mp ⟨s', hrest⟩⟩
    · rintro ⟨hlow, hstands, hrest⟩
      have hhunk := (applyHunk_eq_ok_iff_standsIn (p := p) hs h).mpr ⟨hlow, hstands, rfl⟩
      obtain ⟨s', hs'⟩ := (ih (applyHunk_inFile hs hhunk)).mpr hrest
      exact ⟨s', _, hhunk, hs'⟩

/-- The result and what is left make up the file from the cursor on, with the hunks replaced. -/
theorem result_applyHunks (hs : s.InFile lines) (hhunks : hunks.foldlM p.applyHunk s = .ok s') :
    s'.result ++ s'.left = s.result ++ (hunks.foldr Hunk.replace lines).drop s.passed := by
  induction hunks generalizing s with
  | nil =>
    cases hhunks
    rw [hs.left_eq]
    rfl
  | cons h rest ih =>
    rw [List.foldlM_cons] at hhunks
    obtain ⟨s₁, hhunk, hrest⟩ := Except.bind_eq_ok_iff.mp hhunks
    have hs₁ := applyHunk_inFile hs hhunk
    have hafter := (exists_applyHunks_iff hs₁).mp ⟨s', hrest⟩
    rw [ih hs₁ hrest]
    obtain ⟨hlow, hstands, rfl⟩ := (applyHunk_eq_ok_iff_standsIn hs h).mp hhunk
    -- The hunks that follow leave all lines in front of this one alone.
    have hbehind (x : Hunk) (hx : x ∈ rest) : h.position ≤ x.position :=
      Nat.le_trans (Nat.le_add_right _ _) (hafter.le_position x hx)
    have hfront := take_replaces hstands.1 hbehind
    have hlength : s.passed ≤ (lines.take h.position).length := by
      rw [List.length_take, Nat.min_eq_left hstands.1]
      exact hlow
    rw [List.foldr_cons, Hunk.replace, hfront, List.drop_append_of_le_length hlength,
      List.drop_take]
    simp

/-- A patch applies exactly if its hunks stand in the file one behind the other, and then each of
them is replaced. -/
theorem apply_eq_ok_iff (p : FilePatch) (text result : List Char) :
    p.apply text = .ok result ↔ AppliesFrom (Text.lines text) 0 p.hunks ∧
      result = (p.hunks.foldr Hunk.replace (Text.lines text)).flatten := by
  have hs : (⟨0, Text.lines text, []⟩ : Applied).InFile (Text.lines text) := ⟨Nat.zero_le _, rfl⟩
  unfold apply
  rw [Except.bind_eq_ok_iff, ← exists_applyHunks_iff (p := p) hs]
  constructor
  · rintro ⟨s, hhunks, hresult⟩
    cases hresult
    refine ⟨⟨s, hhunks⟩, ?_⟩
    rw [result_applyHunks hs hhunks]
    rfl
  · rintro ⟨⟨s, hhunks⟩, rfl⟩
    refine ⟨s, hhunks, ?_⟩
    rw [result_applyHunks hs hhunks]
    rfl

/-- Every hunk of an accepted diff has as many lines of the old and of the new file as its header
says. Any patch applies to a text exactly if each of its hunks stands in it where the hunk says, not
before the end of the one before; the result is the text with the old side of each hunk replaced by
its new side; and on the way the cursor never leaves the text. -/
theorem exact_of_parse {diff : List Char} {patches : List FilePatch}
    (h : Diff.parse diff = .ok patches) (p : FilePatch) (text : List Char) :
    let lines := Text.lines text
    List.Forall₂ (Diff.Announces 0 0) (Diff.headers (Text.lines diff))
        (patches.flatMap (·.hunks)) ∧
      (∀ result, p.apply text = .ok result ↔ AppliesFrom lines 0 p.hunks ∧
        result = (p.hunks.foldr Hunk.replace lines).flatten) ∧
      ∀ applied s, applied <+: p.hunks → applied.foldlM p.applyHunk ⟨0, lines, []⟩ = .ok s →
        s.InFile lines :=
  ⟨Diff.parse_accounts h, p.apply_eq_ok_iff text,
    fun _ _ _ hhunks => applyHunks_inFile ⟨Nat.zero_le _, rfl⟩ hhunks⟩

namespace HunkSample

/-- The lines of the first hunk look like the names of files; the second hunk covers no old line. -/
def diff : List Char :=
  "--- a/f\n+++ b/f\n@@ -1 +1 @@\n--- x\n+++ y\n@@ -2,0 +3 @@\n+new\n".toList

def patch : FilePatch where
  path := "f"
  hunks := [⟨1, 1, [⟨.remove, "-- x\n".toList⟩, ⟨.add, "++ y\n".toList⟩]⟩,
    ⟨2, 0, [⟨.add, "new\n".toList⟩]⟩]

def text : List Char := "-- x\nb\nc".toList

end HunkSample

/-- The sample diff, as it is read and applied. -/
theorem exact_of_parse_sample :
    Diff.parse HunkSample.diff = .ok [HunkSample.patch] ∧
      List.Forall₂ (Diff.Announces 0 0) ["@@ -1 +1 @@\n".toList, "@@ -2,0 +3 @@\n".toList]
        HunkSample.patch.hunks ∧
      AppliesFrom (Text.lines HunkSample.text) 0 HunkSample.patch.hunks ∧
      (HunkSample.patch.hunks.foldr Hunk.replace (Text.lines HunkSample.text)).flatten =
        "++ y\nb\nnew\nc".toList := by
  have hparse : Diff.parse HunkSample.diff = .ok [HunkSample.patch] := by decide +kernel
  have hheaders : Diff.headers (Text.lines HunkSample.diff) =
      ["@@ -1 +1 @@\n".toList, "@@ -2,0 +3 @@\n".toList] := by decide +kernel
  have happly : HunkSample.patch.apply HunkSample.text = .ok "++ y\nb\nnew\nc".toList := by
    decide +kernel
  obtain ⟨haccounts, hexact, -⟩ := exact_of_parse hparse HunkSample.patch HunkSample.text
  rw [hheaders] at haccounts
  obtain ⟨happlies, hresult⟩ := (hexact _).mp happly
  exact ⟨hparse, haccounts, happlies, hresult.symm⟩

end FilePatch

end Mutagenesis
