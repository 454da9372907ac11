import Mutagenesis.Proofs.PatchApplication
import Mutagenesis.Text.Size

/-!
# Unified diffs are read back

The hunks of an exact edit script, written one after another, are read back as they are, if no line
ends in a carriage return that stands alone and the numbers of lines have numerals
(`readAll_groups`). Without these conditions, but with a file whose lines agree in front of each
hunk, the reader still gives back nothing else than these hunks (`hunks_of_readAll`).
-/

set_option autoImplicit false

namespace Mutagenesis

namespace LineDiff

variable {old new : List (List Char)}

/-- Written hunks start with the mark of a header. -/
theorem head?_hunks {groups : List (List Edit)} {least i j : Nat}
    (h : Hunks old new least i j groups) {c : Char}
    (hc : c ∈ ((groups.map (writeHunk old new)).flatten).head?) : c = '@' := by
  cases h with
  | done => simp at hc
  | hunk hleast hkept hne hspans hbounded ha hb hends hrest =>
    rw [List.map_cons, List.flatten_cons, hbounded.writeHunk_eq hne, List.append_assoc,
      List.head?_append, Diff.head?_header] at hc
    exact (Option.some.inj hc).symm

theorem Spans.fits {group : List Edit} {i j m n : Nat} (h : Spans old new i j group m n)
    (hm : m ≤ old.length) (hn : n ≤ new.length) (hold : old.length < Numeral.limit)
    (hnew : new.length < Numeral.limit) : Fits i m ∧ Fits j n := by
  have hle := h.le
  refine ⟨⟨?_, by omega⟩, ⟨?_, by omega⟩⟩ <;> unfold rangeStart <;> split <;> omega

/-- The hunks of a script are read back as they are written. -/
theorem readAll_groups {groups : List (List Edit)} {least i j : Nat}
    (h : Hunks old new least i j groups)
    (hlines : ∀ text, text ∈ old ∨ text ∈ new → Text.IsLine text ∧ text.getLast? ≠ some '\r')
    (hold : old.length < Numeral.limit) (hnew : new.length < Numeral.limit)
    {tail : List Char} (htail : tail.head? ≠ some '\\')
    (ps : List FilePatch) (path : String) (hunks : List Hunk) :
    Diff.readAll ⟨ps ++ [⟨path, hunks⟩], .outside⟩
        ((groups.map (writeHunk old new)).flatten ++ tail) =
      Diff.readAll ⟨ps ++ [⟨path, hunks ++ groups.map (hunkOf old new)⟩], .outside⟩ tail := by
  induction h generalizing hunks with
  | done => simp
  | @hunk least i j n a b group groups hleast hkept hne hspans hbounded ha hb hends hrest ih =>
    have htexts : ∀ line ∈ groupLines old new group,
        Text.IsLine line.text ∧ ¬line.Returns := fun line hline =>
      hlines line.text (text_mem_of_mem_groupLines hline)
    have hnext : ((groups.map (writeHunk old new)).flatten ++ tail).head? ≠ some '\\' := by
      intro hhead
      rw [List.head?_append] at hhead
      cases hc : ((groups.map (writeHunk old new)).flatten).head? with
      | none =>
        rw [hc] at hhead
        exact htail hhead
      | some c =>
        rw [hc, head?_hunks hrest hc] at hhead
        exact absurd (Option.some.inj hhead) (by decide)
    rw [List.map_cons, List.flatten_cons, hbounded.writeHunk_eq hne, List.append_assoc,
      List.append_assoc,
      Diff.readAll_hunk (fun line hline => (htexts line hline).1)
        (fun line hline => (htexts line (List.dropLast_subset _ hline)).2)
        (fun line hline hreturn => absurd hreturn (htexts line (List.mem_of_getLast? hline)).2)
        (hspans.oldCount ha).symm (hspans.newCount hb).symm (hspans.fits ha hb hold hnew) hnext,
      ih, List.map_cons, hbounded.hunkOf_eq hne, List.append_assoc, List.singleton_append]

/-- A group that ends with kept items ends with a kept line of its old side. -/
theorem EndsKept.groupLines_eq {group : List Edit} {i j m n : Nat} (h : EndsKept group)
    (hspans : Spans old new i j group m n) (hm : m ≤ old.length) :
    ∃ lines text, groupLines old new group = lines ++ [⟨.keep, text⟩] := by
  obtain ⟨start, e, rfl, hkind, hlength⟩ := h
  obtain ⟨k, l, -, hlast⟩ := hspans.split
  obtain ⟨hat, -, rfl, rfl⟩ := hlast
  obtain rfl := hat.oldIndex_eq hkind
  have hrun : e.oldRun old ≠ [] := by
    intro hnil
    have hzero := congrArg List.length hnil
    rw [Edit.oldRun, List.length_take, List.length_drop, List.length_nil] at hzero
    omega
  have hlines : e.lines old new = (e.oldRun old).map fun text => ⟨.keep, text⟩ := by
    simp [Edit.lines, hkind]
  refine ⟨groupLines old new start ++ ((e.oldRun old).dropLast.map fun text => ⟨.keep, text⟩),
    (e.oldRun old).getLast hrun, ?_⟩
  rw [groupLines, List.flatMap_append, List.flatMap_singleton, hlines, List.append_assoc]
  congr 1
  conv => lhs; rw [← List.dropLast_concat_getLast hrun]
  simp

/-- Where the lines of the file agree in front of the next hunk, a hunk does not end in a carriage
return: its last line has a newline, since a line of the file follows it. -/
theorem EndsKept.not_returns {text : List Char} {group : List Edit} {i j m n gap : Nat}
    (h : EndsKept group) (hspans : Spans old new i j group m n) (hm : m + gap ≤ old.length)
    (hgap : 0 < gap) (halign : (Text.lines text).take (m + gap) = old.take (m + gap))
    {line : HunkLine} (hline : line ∈ (groupLines old new group).getLast?) : ¬line.Returns := by
  obtain ⟨lines, last, hlines⟩ := h.groupLines_eq hspans (by omega)
  obtain rfl : line = ⟨.keep, last⟩ := by
    rw [hlines, List.getLast?_append] at hline
    exact (Option.some.inj hline).symm
  have hold : old.take m = (old.take i ++ HunkLine.oldTexts lines) ++ [last] := by
    have htexts := hspans.oldTexts
    rw [hlines, HunkLine.oldTexts_append] at htexts
    rw [← take_append_range old hspans.le.1, ← htexts, List.append_assoc]
    rfl
  have hfile : (Text.lines text).take m = old.take m := by
    have htake := congrArg (List.take m) halign
    rwa [List.take_take, List.take_take, Nat.min_eq_left (Nat.le_add_right m gap)] at htake
  have hrest : (Text.lines text).drop m ≠ [] := by
    intro hnil
    have hlength := congrArg List.length halign
    have hshort := congrArg List.length hnil
    rw [List.length_take, List.length_take] at hlength
    rw [List.length_drop, List.length_nil] at hshort
    omega
  have hsplit : Text.lines text =
      (old.take i ++ HunkLine.oldTexts lines) ++ last :: (Text.lines text).drop m := by
    conv => lhs; rw [← List.take_append_drop m (Text.lines text), hfile, hold]
    simp
  have hnewline := Text.ended_of_lines_eq hsplit hrest
  intro hreturn
  rw [HunkLine.Returns, hnewline] at hreturn
  exact absurd hreturn (by decide)

/-- If written hunks are read at all, they are read as they were written: a hunk with joined lines
or with numbers that do not fit is refused. -/
theorem hunks_of_readAll {text : List Char} {groups : List (List Edit)} {least i j : Nat}
    (h : Hunks old new least i j groups)
    (hlines : ∀ line, line ∈ old ∨ line ∈ new → Text.IsLine line)
    (halign : Aligned (Text.lines text) old groups) (ps : List FilePatch) (path : String)
    (hunks : List Hunk) {result : List FilePatch}
    (hresult : Diff.readAll ⟨ps ++ [⟨path, hunks⟩], .outside⟩
      (groups.map (writeHunk old new)).flatten = .ok result) :
    result = ps ++ [⟨path, hunks ++ groups.map (hunkOf old new)⟩] := by
  induction h generalizing hunks with
  | done =>
    cases hresult
    simp
  | @hunk least i j n a b group groups hleast hkept hne hspans hbounded ha hb hends hrest ih =>
    have hgroup : ∀ line ∈ groupLines old new group, Text.IsLine line.text := fun line hline =>
      hlines line.text (text_mem_of_mem_groupLines hline)
    have hnext : Aligned (Text.lines text) old groups := fun other hother =>
      halign other (by simp [hother])
    have hlast : ∀ line ∈ (groupLines old new group).getLast?, line.Returns →
        (groups.map (writeHunk old new)).flatten = [] := by
      intro line hline hreturn
      cases hrest with
      | done => rfl
      | hunk hleast' hkept' hne' hspans' hbounded' ha' hb' hends' hrest' =>
        have hstart := hnext.start (by simp) hne' hbounded'
        exact absurd hreturn ((hends (by simp)).not_returns hspans hkept'.oldBound hleast' hstart
          hline)
    have hold := (hspans.oldCount ha).symm
    have hnew := (hspans.newCount hb).symm
    rw [List.map_cons, List.flatten_cons, hbounded.writeHunk_eq hne, List.append_assoc] at hresult
    by_cases hfits : Fits (i + n) a ∧ Fits (j + n) b
    · by_cases hseparate : HunkLine.Separate (groupLines old new group)
      · have hhead : ((groups.map (writeHunk old new)).flatten).head? ≠ some '\\' := fun hc =>
          absurd (head?_hunks hrest hc) (by decide)
        rw [Diff.readAll_hunk hgroup hseparate hlast hold hnew hfits hhead] at hresult
        rw [ih hnext _ hresult, List.map_cons, hbounded.hunkOf_eq hne, List.append_assoc,
          List.singleton_append]
      · obtain ⟨fault, hfault⟩ := Diff.readAll_hunk_joined hgroup hseparate hlast hold hnew
          (fun c hc => head?_hunks hrest hc) (ps ++ [⟨path, hunks⟩]) (by simp)
        rw [hfault] at hresult
        cases hresult
    · obtain ⟨fault, hfault⟩ := Diff.readAll_hunk_unfit hfits (ps ++ [⟨path, hunks⟩]) (by simp)
        (HunkLine.body (groupLines old new group) ++ (groups.map (writeHunk old new)).flatten)
      rw [hfault] at hresult
      cases hresult

/-- A text has no more lines than bytes. -/
theorem length_splitLines_le (cs : List Char) : (splitLines cs).length ≤ Text.byteLength cs := by
  induction cs with
  | nil => exact Nat.le_refl 0
  | cons c cs ih =>
    have hsize := c.utf8Size_pos
    rw [Text.byteLength_cons]
    unfold splitLines
    split
    · rw [List.length_cons]
      omega
    · cases hlines : splitLines cs with
      | nil =>
        simp only [List.length_cons, List.length_nil]
        omega
      | cons line rest =>
        rw [hlines, List.length_cons] at ih
        simp only [List.length_cons]
        omega

/-- A diff with hunks is the names of the file and the written hunks. -/
theorem unified_eq (file : String) (before after : List Char) {script : List Edit}
    (h : groups script ≠ []) :
    unified file before after script = Diff.names file.toList ++
      ((groups script).map (writeHunk (splitLines before) (splitLines after))).flatten := by
  unfold unified
  dsimp only
  split
  · next hnil => exact absurd hnil h
  · unfold Diff.names
    simp

end LineDiff

/-- A file with its text before and after a change, and the script of edits that a comparison of
the lines gave. -/
structure FileVersion where
  file : String
  original : List Char
  mutated : List Char
  script : List LineDiff.Edit
  deriving DecidableEq, Repr

namespace FileVersion

open LineDiff (splitLines groups hunkOf)

/-- A file with both texts, whose lines are compared. -/
def between (compare : LineDiff.Comparison) (file : String) (original mutated : List Char) :
    FileVersion :=
  ⟨file, original, mutated, compare (splitLines original) (splitLines mutated)⟩

/-- The change leaves another text. -/
def changed (v : FileVersion) : Bool :=
  v.original ≠ v.mutated

/-- The script is an exact one: its edits make the lines of the one text those of the other. -/
def Exact (v : FileVersion) : Prop :=
  LineDiff.IsScript (splitLines v.original) (splitLines v.mutated) v.script

instance (v : FileVersion) : Decidable v.Exact :=
  inferInstanceAs (Decidable (LineDiff.IsScript _ _ _))

/-- The name of the file fits into the header lines of a diff, and every carriage return of both
texts is followed by a newline. -/
structure Plain (v : FileVersion) : Prop where
  name : Diff.PlainName v.file.toList
  original : Text.ReturnsPaired v.original
  mutated : Text.ReturnsPaired v.mutated

/-- Both texts have fewer bytes than there are numerals, as every text in memory has. -/
structure Sized (v : FileVersion) : Prop where
  original : Text.byteLength v.original < Numeral.limit
  mutated : Text.byteLength v.mutated < Numeral.limit

/-- The diff of the file; none if its text stays as it is. -/
def diff (v : FileVersion) : List Char :=
  if v.original = v.mutated then [] else LineDiff.unified v.file v.original v.mutated v.script

/-- The patch that the diff of a changed file stands for. -/
def patch (v : FileVersion) : FilePatch :=
  ⟨v.file, (groups v.script).map (hunkOf (splitLines v.original) (splitLines v.mutated))⟩

theorem hunks (v : FileVersion) (h : v.Exact) :
    LineDiff.Hunks (splitLines v.original) (splitLines v.mutated) 0 0 0 (groups v.script) :=
  LineDiff.hunks_groups h

variable {v : FileVersion}

/-- An exact script between different texts has hunks. -/
theorem groups_ne_nil (h : v.Exact) (hchanged : v.original ≠ v.mutated) : groups v.script ≠ [] := by
  intro hnil
  have hlines := LineDiff.eq_of_groups_eq_nil h hnil
  apply hchanged
  rw [← LineDiff.flatten_splitLines v.original, hlines, LineDiff.flatten_splitLines]

theorem diff_of_changed (h : v.Exact) (hchanged : v.original ≠ v.mutated) :
    v.diff = Diff.names v.file.toList ++ ((groups v.script).map
      (LineDiff.writeHunk (splitLines v.original) (splitLines v.mutated))).flatten := by
  rw [diff, if_neg hchanged]
  exact LineDiff.unified_eq v.file _ _ (groups_ne_nil h hchanged)

/-- The diff of a changed file is not empty. -/
theorem diff_eq_nil_iff (h : v.changed → v.Exact) : v.diff = [] ↔ v.original = v.mutated := by
  constructor
  · intro hnil
    by_cases hsame : v.original = v.mutated
    · exact hsame
    · have hhead := Diff.head?_names v.file.toList
      rw [diff_of_changed (h (by simpa [changed] using hsame)) hsame] at hnil
      rw [(List.append_eq_nil_iff.mp hnil).1] at hhead
      cases hhead
  · intro hsame
    rw [diff, if_pos hsame]

/-- The diff of a changed file is read back as its patch. -/
theorem readAll_diff (hexact : v.Exact) (hplain : v.Plain) (hsized : v.Sized)
    (hchanged : v.original ≠ v.mutated) (ps : List FilePatch) {tail : List Char}
    (htail : tail.head? ≠ some '\\') :
    Diff.readAll ⟨ps, .outside⟩ (v.diff ++ tail) =
      Diff.readAll ⟨ps ++ [v.patch], .outside⟩ tail := by
  have hlines : ∀ line, line ∈ splitLines v.original ∨ line ∈ splitLines v.mutated →
      Text.IsLine line ∧ line.getLast? ≠ some '\r' := by
    rintro line (hline | hline)
    · exact ⟨LineDiff.isLine_of_mem_splitLines hline,
        LineDiff.not_return_of_mem_splitLines hplain.original hline⟩
    · exact ⟨LineDiff.isLine_of_mem_splitLines hline,
        LineDiff.not_return_of_mem_splitLines hplain.mutated hline⟩
  have hold : (splitLines v.original).length < Numeral.limit :=
    Nat.lt_of_le_of_lt (LineDiff.length_splitLines_le _) hsized.original
  have hnew : (splitLines v.mutated).length < Numeral.limit :=
    Nat.lt_of_le_of_lt (LineDiff.length_splitLines_le _) hsized.mutated
  rw [diff_of_changed hexact hchanged, List.append_assoc, Diff.readAll_names hplain.name,
    LineDiff.readAll_groups (v.hunks hexact) hlines hold hnew htail, String.ofList_toList]
  rfl

/-- The patch of a file turns its text into the changed one. -/
theorem patch_apply (hexact : v.Exact) (hplain : v.Plain) :
    v.patch.apply v.original = .ok v.mutated := by
  have happly := LineDiff.apply_hunks_self v.patch (v.hunks hexact) rfl
    (LineDiff.splitLines_eq_lines hplain.original).symm
  rwa [LineDiff.flatten_splitLines] at happly

theorem head?_diff (v : FileVersion) (h : v.changed → v.Exact) : v.diff.head? ≠ some '\\' := by
  by_cases hsame : v.original = v.mutated
  · simp [diff, hsame]
  · rw [diff_of_changed (h (by simpa [changed] using hsame)) hsame, List.head?_append,
      Diff.head?_names]
    exact fun hhead => absurd (Option.some.inj hhead) (by decide)

/-- The diffs of several files do not start like the note about a missing newline. -/
theorem head?_diffs {vs : List FileVersion} (h : ∀ v ∈ vs, v.changed → v.Exact) :
    ((vs.map diff).flatten).head? ≠ some '\\' := by
  induction vs with
  | nil => simp
  | cons v rest ih =>
    rw [List.map_cons, List.flatten_cons, List.head?_append]
    cases hc : v.diff.head? with
    | none => exact ih fun w hw => h w (by simp [hw])
    | some c =>
      have hv := head?_diff v fun hchanged => h v (by simp) hchanged
      rwa [hc] at hv

/-- The diffs of several files, one after another, are read back as the patches of those that
change. -/
theorem readAll_diffs {vs : List FileVersion}
    (h : ∀ v ∈ vs, v.changed → v.Exact ∧ v.Plain ∧ v.Sized) (ps : List FilePatch) :
    Diff.readAll ⟨ps, .outside⟩ (vs.map diff).flatten =
      .ok (ps ++ (vs.filter changed).map patch) := by
  induction vs generalizing ps with
  | nil =>
    simp only [List.map_nil, List.flatten_nil, List.filter_nil, List.append_nil]
    rfl
  | cons v rest ih =>
    have hrest : ∀ w ∈ rest, w.changed → w.Exact ∧ w.Plain ∧ w.Sized := fun w hw =>
      h w (by simp [hw])
    have hhead : ((rest.map diff).flatten).head? ≠ some '\\' :=
      head?_diffs fun w hw hchanged => (hrest w hw hchanged).1
    by_cases hsame : v.original = v.mutated
    · have hdiff : v.diff = [] := by rw [diff, if_pos hsame]
      have hfilter : v.changed = false := by simp [changed, hsame]
      rw [List.map_cons, List.flatten_cons, hdiff, List.nil_append, ih hrest,
        List.filter_cons_of_neg (by simp [hfilter])]
    · have hfilter : v.changed = true := by simpa [changed] using hsame
      obtain ⟨hexact, hplain, hsized⟩ := h v (by simp) hfilter
      rw [List.map_cons, List.flatten_cons, readAll_diff hexact hplain hsized hsame ps hhead,
        ih hrest, List.filter_cons_of_pos hfilter, List.map_cons, List.append_assoc,
        List.singleton_append]

/-- The name of the file fits into the header lines of a diff, and the number of the line at which a
hunk starts means the place of the hunk also for a reader who ends lines at newlines only. The texts
may hold any carriage returns. -/
structure Placed (v : FileVersion) : Prop where
  exact : v.Exact
  name : Diff.PlainName v.file.toList
  inPlace : ∀ group ∈ groups v.script, ∀ first ∈ group.head?,
    LineDiff.InPlace v.original first.oldIndex

theorem Placed.aligned (h : v.Placed) :
    LineDiff.Aligned (Text.lines v.original) (splitLines v.original) (groups v.script) :=
  fun group hgroup first hfirst => (h.inPlace group hgroup first hfirst).take_eq

/-- If the diff of a changed file is read at all, it is read as its patch. -/
theorem patches_of_parse (hv : v.Placed) (hchanged : v.original ≠ v.mutated) {ps : List FilePatch}
    (h : Diff.parse v.diff = .ok ps) : ps = [v.patch] := by
  have hlines : ∀ line, line ∈ splitLines v.original ∨ line ∈ splitLines v.mutated →
      Text.IsLine line := by
    rintro line (hline | hline) <;> exact LineDiff.isLine_of_mem_splitLines hline
  rw [Diff.parse_eq_readAll, diff_of_changed hv.exact hchanged, Diff.readAll_names hv.name] at h
  rw [LineDiff.hunks_of_readAll (v.hunks hv.exact) hlines hv.aligned [] _ [] h,
    String.ofList_toList]
  rfl

/-- The patch of a file, where it applies, gives the changed text. -/
theorem eq_of_patch_apply (hv : v.Placed) {result : List Char}
    (h : v.patch.apply v.original = .ok result) : result = v.mutated := by
  have hresult := LineDiff.apply_hunks_eq v.patch (v.hunks hv.exact) rfl hv.aligned
    (LineDiff.flatten_splitLines v.original) h
  rwa [LineDiff.flatten_splitLines] at hresult

end FileVersion

end Mutagenesis
