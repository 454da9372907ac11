import Mutagenesis.LineDiff.Unified
import Mutagenesis.Text.Lines

/-!
# Two ways to cut a text into lines

A patch counts lines that end in a newline (`Text.lines`); a line diff also ends a line at a
carriage return that stands alone (`LineDiff.splitLines`). This file says how `Text.lines` acts on
a text put together from pieces, what the pieces of either cut look like, and that the two cuts are
the same when every carriage return is followed by a newline.
-/

set_option autoImplicit false

namespace Mutagenesis

variable {cs : List Char}

namespace Text

/-- Text without a newline joins the first line of what follows it. -/
def glue (cs : List Char) : List (List Char) → List (List Char)
  | [] => [cs]
  | line :: rest => (cs ++ line) :: rest

theorem lines_newline_cons (cs : List Char) : lines ('\n' :: cs) = ['\n'] :: lines cs := by
  rw [lines, if_pos rfl]

theorem lines_cons_of_ne {c : Char} (h : c ≠ '\n') (cs : List Char) :
    lines (c :: cs) = glue [c] (lines cs) := by
  rw [lines, if_neg h]
  cases lines cs <;> rfl

/-- A text without newlines is glued to the first line of what follows. -/
theorem lines_append_of_unbroken (hne : cs ≠ []) (h : '\n' ∉ cs) (rest : List Char) :
    lines (cs ++ rest) = glue cs (lines rest) := by
  induction cs with
  | nil => exact absurd rfl hne
  | cons c cs ih =>
    simp only [List.mem_cons, not_or] at h
    rw [List.cons_append, lines_cons_of_ne (Ne.symm h.1)]
    cases cs with
    | nil => rfl
    | cons d ds =>
      rw [ih (by simp) h.2]
      cases lines rest <;> rfl

/-- A piece that ends in its only newline is the first line of a text. -/
theorem lines_append_newline (h : '\n' ∉ cs) (rest : List Char) :
    lines (cs ++ '\n' :: rest) = (cs ++ ['\n']) :: lines rest := by
  cases cs with
  | nil => exact lines_newline_cons rest
  | cons c cs =>
    rw [lines_append_of_unbroken (by simp) h, lines_newline_cons]
    rfl

/-- A text that ends in a newline does not touch the lines of what follows it. -/
theorem lines_append_of_ended (as bs : List Char) (h : as.getLast? = some '\n') :
    lines (as ++ bs) = lines as ++ lines bs := by
  induction as with
  | nil => simp at h
  | cons c as ih =>
    cases as with
    | nil =>
      obtain rfl : c = '\n' := by simpa using h
      simp [lines]
    | cons d ds =>
      have hih := ih (by simpa using h)
      by_cases hc : c = '\n'
      · subst hc
        rw [List.cons_append, lines_newline_cons, hih, lines_newline_cons]
        rfl
      · rw [List.cons_append, lines_cons_of_ne hc, hih, lines_cons_of_ne hc]
        have hne : lines (d :: ds) ≠ [] := by
          intro hnil
          simpa [hnil] using flatten_lines (d :: ds)
        cases hl : lines (d :: ds) with
        | nil => exact absurd hl hne
        | cons line rest => rfl

/-- A line: not empty, and with a newline at its end or nowhere. -/
def IsLine (line : List Char) : Prop :=
  line ≠ [] ∧ '\n' ∉ line.dropLast

theorem isLine_cons {c : Char} (hc : c ≠ '\n') {line : List Char} (h : IsLine line) :
    IsLine (c :: line) := by
  refine ⟨by simp, ?_⟩
  rw [List.dropLast_cons_of_ne_nil h.1]
  simpa [Ne.symm hc] using h.2

/-- A line that does not end in a newline holds none. -/
theorem IsLine.unbroken {line : List Char} (h : IsLine line) (hend : line.getLast? ≠ some '\n') :
    '\n' ∉ line := by
  obtain ⟨last, hlast⟩ := Option.ne_none_iff_exists'.mp (mt List.getLast?_eq_none_iff.mp h.1)
  obtain ⟨body, rfl⟩ := List.getLast?_eq_some_iff.mp hlast
  have hbody : '\n' ∉ body := by simpa using h.2
  have hchar : '\n' ≠ last := by rintro rfl; exact hend hlast
  simp [hbody, hchar]

/-- A line has no newline but at its end. -/
theorem isLine_of_mem_lines {cs line : List Char} (h : line ∈ lines cs) : IsLine line := by
  induction cs generalizing line with
  | nil => simp [lines] at h
  | cons c cs ih =>
    by_cases hc : c = '\n'
    · subst hc
      rw [lines_newline_cons, List.mem_cons] at h
      rcases h with rfl | h
      · exact ⟨by simp, by simp⟩
      · exact ih h
    · rw [lines_cons_of_ne hc] at h
      cases hl : lines cs with
      | nil =>
        rw [hl] at h
        obtain rfl : line = [c] := by simpa [glue] using h
        exact ⟨by simp, by simp⟩
      | cons first rest =>
        rw [hl] at h ih
        rcases List.mem_cons.mp h with rfl | h
        · exact isLine_cons hc (ih (by simp))
        · exact ih (by simp [h])

/-- Only the last line of a text can lack its newline. -/
theorem ended_of_lines_eq {cs line : List Char} {before after : List (List Char)}
    (h : lines cs = before ++ line :: after) (hafter : after ≠ []) :
    line.getLast? = some '\n' := by
  induction cs generalizing before line with
  | nil => simp [lines] at h
  | cons c cs ih =>
    by_cases hc : c = '\n'
    · subst hc
      rw [lines_newline_cons] at h
      cases before with
      | nil =>
        obtain rfl : line = ['\n'] := (List.cons.inj h).1.symm
        rfl
      | cons first before => exact ih (List.cons.inj h).2
    · rw [lines_cons_of_ne hc] at h
      cases hl : lines cs with
      | nil =>
        rw [hl] at h
        cases before with
        | nil => exact absurd (List.cons.inj h).2.symm hafter
        | cons first before => simp [glue] at h
      | cons first rest =>
        rw [hl] at h
        cases before with
        | nil =>
          obtain ⟨rfl, rfl⟩ := List.cons.inj h
          have hfirst := ih (show lines cs = [] ++ first :: rest from hl)
          simp [List.getLast?_cons, hfirst]
        | cons first' before =>
          have hrest : lines cs = (first :: before) ++ line :: after := by
            rw [hl, (List.cons.inj h).2]
            rfl
          exact ih hrest

/-- Every carriage return of a text is directly followed by a newline. -/
def ReturnsPaired (cs : List Char) : Prop :=
  ∀ before after : List Char, cs = before ++ '\r' :: after → after.head? = some '\n'

theorem ReturnsPaired.tail {c : Char} (h : ReturnsPaired (c :: cs)) : ReturnsPaired cs := by
  intro before after hcs
  exact h (c :: before) after (by rw [hcs]; rfl)

/-- Carriage returns are paired if the first one is and the others are. -/
theorem returnsPaired_cons {c : Char} :
    ReturnsPaired (c :: cs) ↔ (c = '\r' → cs.head? = some '\n') ∧ ReturnsPaired cs := by
  constructor
  · intro h
    exact ⟨fun hc => h [] cs (by rw [hc]; rfl), h.tail⟩
  · rintro ⟨hhead, htail⟩ before after hcs
    cases before with
    | nil =>
      cases hcs
      exact hhead rfl
    | cons b before =>
      cases hcs
      exact htail before after rfl

instance : (cs : List Char) → Decidable (ReturnsPaired cs)
  | [] => .isTrue fun before _ h => by cases before <;> cases h
  | c :: cs =>
    have : Decidable (ReturnsPaired cs) := instDecidableReturnsPaired cs
    decidable_of_iff _ returnsPaired_cons.symm

end Text

namespace LineDiff

/-- Split lines make up the text. -/
@[simp]
theorem flatten_splitLines (cs : List Char) : (splitLines cs).flatten = cs := by
  induction cs with
  | nil => rfl
  | cons c cs ih =>
    unfold splitLines
    split
    · simp [ih]
    · cases hl : splitLines cs with
      | nil => simp [hl] at ih; simp [← ih]
      | cons first rest => simp [hl] at ih; simp [← ih]

/-- A split line has no newline but at its end. -/
theorem isLine_of_mem_splitLines {cs line : List Char} (h : line ∈ splitLines cs) :
    Text.IsLine line := by
  induction cs generalizing line with
  | nil => simp [splitLines] at h
  | cons c cs ih =>
    unfold splitLines at h
    split at h
    · rcases List.mem_cons.mp h with rfl | h
      · exact ⟨by simp, by simp⟩
      · exact ih h
    · next hc =>
      have hne : c ≠ '\n' := fun hnl => hc (Or.inl hnl)
      cases hl : splitLines cs with
      | nil =>
        rw [hl] at h
        obtain rfl : line = [c] := by simpa using h
        exact ⟨by simp, by simp⟩
      | cons first rest =>
        rw [hl] at h ih
        rcases List.mem_cons.mp h with rfl | h
        · exact Text.isLine_cons hne (ih (by simp))
        · exact ih (by simp [h])

/-- Without a carriage return that stands alone, both cuts give the same lines. -/
theorem splitLines_eq_lines (h : Text.ReturnsPaired cs) : splitLines cs = Text.lines cs := by
  induction cs with
  | nil => rfl
  | cons c cs ih =>
    have hih := ih h.tail
    have hpaired : ¬(c = '\r' ∧ cs.head? ≠ some '\n') := by
      rintro ⟨rfl, hhead⟩
      exact hhead (h [] cs rfl)
    by_cases hc : c = '\n'
    · rw [splitLines, if_pos (Or.inl hc), Text.lines, if_pos hc, hih]
    · have hneither : ¬(c = '\n' ∨ (c = '\r' ∧ cs.head? ≠ some '\n')) := by
        rintro (hnewline | hreturn)
        · exact hc hnewline
        · exact hpaired hreturn
      cases hlines : Text.lines cs with
      | nil => simp only [splitLines, if_neg hneither, hih, Text.lines, if_neg hc, hlines]
      | cons line rest =>
        simp only [splitLines, if_neg hneither, hih, Text.lines, if_neg hc, hlines]

/-- No line ends in a carriage return when every one of them is followed by a newline. -/
theorem not_return_of_mem_splitLines {cs line : List Char} (h : Text.ReturnsPaired cs)
    (hline : line ∈ splitLines cs) : line.getLast? ≠ some '\r' := by
  intro hend
  obtain ⟨before, after, hsplit⟩ := List.append_of_mem hline
  obtain ⟨body, hbody⟩ := List.getLast?_eq_some_iff.mp hend
  have htext : cs = (before.flatten ++ body) ++ '\r' :: after.flatten := by
    rw [← flatten_splitLines cs, hsplit, hbody]
    simp
  have hhead := h _ _ htext
  -- the next line would start with the newline, but this one already ended
  rw [splitLines_eq_lines h] at hsplit
  cases after with
  | nil => simp at hhead
  | cons next rest =>
    have hnl := Text.ended_of_lines_eq hsplit (by simp)
    rw [hend] at hnl
    exact absurd hnl (by decide)

/-! ## Places by the number of a line -/

theorem splitLines_ne_nil (h : cs ≠ []) : splitLines cs ≠ [] := by
  intro hnil
  have hflat := flatten_splitLines cs
  rw [hnil] at hflat
  exact h hflat.symm

/-- The cut that also ends lines at carriage returns divides each line of the other one. -/
theorem splitLines_eq_flatMap_lines (cs : List Char) :
    splitLines cs = (Text.lines cs).flatMap splitLines := by
  induction cs with
  | nil => rfl
  | cons c cs ih =>
    by_cases hc : c = '\n'
    · subst hc
      rw [Text.lines_newline_cons, List.flatMap_cons, ← ih, splitLines, if_pos (Or.inl rfl)]
      rfl
    · rw [Text.lines_cons_of_ne hc]
      cases hlines : Text.lines cs with
      | nil =>
        have hflat := Text.flatten_lines cs
        rw [hlines] at hflat
        cases hflat
        simp [Text.glue]
      | cons line rest =>
        have hflat := Text.flatten_lines cs
        rw [hlines, List.flatten_cons] at hflat
        have hmem : line ∈ Text.lines cs := by simp [hlines]
        have hne : line ≠ [] := (Text.isLine_of_mem_lines hmem).1
        have hhead : cs.head? = line.head? := by
          rw [← hflat, List.head?_append]
          cases line with
          | nil => exact absurd rfl hne
          | cons d ds => rfl
        rw [hlines, List.flatMap_cons] at ih
        rw [Text.glue, List.flatMap_cons, List.singleton_append, splitLines, splitLines, hhead, ih]
        split
        · rfl
        · cases hfirst : splitLines line with
          | nil => exact absurd hfirst (splitLines_ne_nil hne)
          | cons first others => rfl

/-- The number of a line means the same place for both cuts: the text has that many lines, and what
stands in front of it is the same. -/
def InPlace (text : List Char) (line : Nat) : Prop :=
  line ≤ (Text.lines text).length ∧
    ((Text.lines text).take line).flatten = ((splitLines text).take line).flatten

instance (text : List Char) (line : Nat) : Decidable (InPlace text line) :=
  inferInstanceAs (Decidable (_ ∧ _))

/-- A text tells how many pieces it was joined from, if none of them is empty. -/
theorem take_eq_of_flatten_take_eq {pieces : List (List Char)} (hne : ∀ p ∈ pieces, p ≠ [])
    {m n : Nat} (h : (pieces.take m).flatten = (pieces.take n).flatten) :
    pieces.take m = pieces.take n := by
  induction pieces generalizing m n with
  | nil => simp
  | cons p rest ih =>
    have hp := hne p (by simp)
    cases m with
    | zero =>
      cases n with
      | zero => rfl
      | succ n => simp [hp] at h
    | succ m =>
      cases n with
      | zero => simp [hp] at h
      | succ n =>
        have hrest : (rest.take m).flatten = (rest.take n).flatten := by simpa using h
        rw [List.take_succ_cons, List.take_succ_cons,
          ih (fun q hq => hne q (by simp [hq])) hrest]

theorem length_le_length_flatMap_splitLines {lines : List (List Char)} (hne : ∀ l ∈ lines, l ≠ []) :
    lines.length ≤ (lines.flatMap splitLines).length := by
  induction lines with
  | nil => exact Nat.le_refl 0
  | cons line rest ih =>
    have hrest := ih fun l hl => hne l (by simp [hl])
    have hline := List.length_pos_iff.mpr (splitLines_ne_nil (hne line (by simp)))
    rw [List.flatMap_cons, List.length_append, List.length_cons]
    omega

/-- Lines that are not divided any more are left as they are. -/
theorem flatMap_splitLines_of_length {lines : List (List Char)} (hne : ∀ l ∈ lines, l ≠ [])
    (h : (lines.flatMap splitLines).length = lines.length) : lines.flatMap splitLines = lines := by
  induction lines with
  | nil => rfl
  | cons line rest ih =>
    have hne' : ∀ l ∈ rest, l ≠ [] := fun l hl => hne l (by simp [hl])
    have hrest := length_le_length_flatMap_splitLines hne'
    have hpos := List.length_pos_iff.mpr (splitLines_ne_nil (hne line (by simp)))
    rw [List.flatMap_cons, List.length_append, List.length_cons] at h
    have hone : splitLines line = [line] := by
      have hlength : (splitLines line).length = 1 := by omega
      obtain ⟨piece, hpiece⟩ := List.length_eq_one_iff.mp hlength
      have hflat := flatten_splitLines line
      rw [hpiece] at hflat
      rw [hpiece, show piece = line by simpa using hflat]
    rw [List.flatMap_cons, hone, ih hne' (by omega), List.singleton_append]

/-- Where the number of a line means the same place, both cuts agree in front of it. -/
theorem InPlace.take_eq {text : List Char} {line : Nat} (h : InPlace text line) :
    (Text.lines text).take line = (splitLines text).take line := by
  obtain ⟨hlength, hflat⟩ := h
  have hne : ∀ l ∈ (Text.lines text).take line, l ≠ [] := fun l hl =>
    (Text.isLine_of_mem_lines (List.mem_of_mem_take hl)).1
  have hsplit : splitLines text = ((Text.lines text).take line).flatMap splitLines ++
      ((Text.lines text).drop line).flatMap splitLines := by
    rw [← List.flatMap_append, List.take_append_drop, ← splitLines_eq_flatMap_lines]
  generalize hpieces : ((Text.lines text).take line).flatMap splitLines = pieces at hsplit
  have hpiecesFlat : pieces.flatten = ((Text.lines text).take line).flatten := by
    rw [← hpieces]
    induction (Text.lines text).take line with
    | nil => rfl
    | cons l rest ih => simp [ih]
  have htake : (splitLines text).take pieces.length = pieces := by
    rw [hsplit, List.take_left]
  have hsame : (splitLines text).take line = pieces := by
    rw [← htake]
    apply take_eq_of_flatten_take_eq fun p hp => (isLine_of_mem_splitLines hp).1
    rw [htake, hpiecesFlat, hflat]
  -- each line in front has at least one piece, and there are no more pieces than lines
  have hleast := length_le_length_flatMap_splitLines hne
  have hmost : pieces.length ≤ line := by
    rw [← hsame, List.length_take]
    exact Nat.min_le_left _ _
  have hcount : (((Text.lines text).take line).flatMap splitLines).length =
      ((Text.lines text).take line).length := by
    rw [hpieces, List.length_take] at hleast ⊢
    omega
  rw [hsame, ← hpieces, flatMap_splitLines_of_length hne hcount]

end LineDiff

end Mutagenesis
