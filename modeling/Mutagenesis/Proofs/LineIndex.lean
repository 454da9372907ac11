import Mathlib.Data.List.Induction
import Mutagenesis.Proofs.SourcePositions

/-!
# The index of the lines of a text

Going through a text character by character, a cursor starts in the first column of the first line
and moves on (`Location.endOf`). The index of the lines says the same: the location of the place
after a part of the text is where the cursor is after that part (`locationAt_append`), and a
location has an offset only if it is such a place (`endOf_of_offset`). So offsets and locations
name the same places in the same order (`lineIndex_isomorphic`).
-/

set_option autoImplicit false

namespace Mutagenesis

open Text (byteLength)

namespace Location

/-- Where a cursor is after a character: on the next line after a newline, and else as many columns
on as the character has bytes. -/
def next (l : Location) (c : Char) : Location :=
  if c = '\n' then ⟨l.line + 1, 0⟩ else ⟨l.line, l.column + c.utf8Size⟩

/-- Where a cursor is after a text. -/
def endOf (cs : List Char) : Location :=
  cs.foldl next ⟨1, 0⟩

theorem lt_next (l : Location) (c : Char) : l < l.next c := by
  have hpos : 0 < c.utf8Size := Char.utf8Size_pos c
  rw [next, lt_iff]
  split
  · exact Or.inl (Nat.lt_succ_self _)
  · exact Or.inr ⟨rfl, Nat.lt_add_of_pos_right hpos⟩

theorem le_foldl_next (cs : List Char) (l : Location) : l ≤ cs.foldl next l := by
  induction cs generalizing l with
  | nil => exact Std.le_refl l
  | cons c rest ih => exact Std.le_trans (Std.le_of_lt (lt_next l c)) (ih (l.next c))

/-- The cursor goes on with every character. -/
theorem endOf_lt_append (before : List Char) {more : List Char} (h : more ≠ []) :
    endOf before < endOf (before ++ more) := by
  obtain ⟨c, rest, rfl⟩ := List.exists_cons_of_ne_nil h
  rw [endOf, endOf, List.foldl_append, List.foldl_cons]
  exact Std.lt_of_lt_of_le (lt_next _ c) (le_foldl_next rest _)

theorem endOf_concat (cs : List Char) (c : Char) : endOf (cs ++ [c]) = (endOf cs).next c := by
  rw [endOf, List.foldl_append]
  rfl

/-- Without a newline the cursor stays on its line. -/
theorem foldl_next_of_not_mem {cs : List Char} (h : '\n' ∉ cs) (l : Location) :
    cs.foldl next l = ⟨l.line, l.column + byteLength cs⟩ := by
  induction cs generalizing l with
  | nil => rfl
  | cons c rest ih =>
    rw [List.mem_cons, not_or] at h
    rw [List.foldl_cons, ih h.2, next, if_neg (Ne.symm h.1), Text.byteLength_cons, Nat.add_assoc]

end Location

namespace SourceText

open Location (endOf)

/-- The offset lies between two parts of the text. -/
def Boundary (text : List Char) (o : Nat) : Prop :=
  ∃ before after, text = before ++ after ∧ byteLength before = o

theorem startsAfterNewlines_append (o : Nat) (before after : List Char) :
    startsAfterNewlines o (before ++ after) =
      startsAfterNewlines o before ++ startsAfterNewlines (o + byteLength before) after := by
  induction before generalizing o with
  | nil => simp [startsAfterNewlines]
  | cons c rest ih =>
    rw [List.cons_append, startsAfterNewlines, startsAfterNewlines]
    simp only [ih, Text.byteLength_cons, Nat.add_assoc]
    split <;> rfl

/-- Line starts lie after the offset and not beyond the end. -/
theorem bounds_of_mem_startsAfterNewlines {o s : Nat} {cs : List Char}
    (h : s ∈ startsAfterNewlines o cs) : o < s ∧ s ≤ o + byteLength cs := by
  induction cs generalizing o with
  | nil => cases h
  | cons c rest ih =>
    have hpos : 0 < c.utf8Size := Char.utf8Size_pos c
    rw [startsAfterNewlines] at h
    rw [Text.byteLength_cons]
    split at h
    · rcases List.mem_cons.mp h with rfl | h
      · omega
      · have := ih h
        omega
    · have := ih h
      omega

theorem length_startsAfterNewlines (o : Nat) (cs : List Char) :
    (startsAfterNewlines o cs).length = cs.count '\n' := by
  induction cs generalizing o with
  | nil => rfl
  | cons c rest ih =>
    rw [startsAfterNewlines, List.count_cons]
    by_cases hc : c = '\n' <;> simp [hc, ih]

/-- The lines of a text start in its first part or behind it. -/
theorem lineStarts_append (before after : List Char) :
    lineStarts (before ++ after) =
      lineStarts before ++ startsAfterNewlines (byteLength before) after := by
  rw [lineStarts, startsAfterNewlines_append, Nat.zero_add]
  rfl

theorem le_of_mem_lineStarts {s : Nat} {cs : List Char} (h : s ∈ lineStarts cs) :
    s ≤ byteLength cs := by
  rcases List.mem_cons.mp h with rfl | h
  · exact Nat.zero_le _
  · have := bounds_of_mem_startsAfterNewlines h
    omega

/-- The cursor is in the last line that starts in the text, its column away from that start. -/
theorem lineStarts_endOf (cs : List Char) :
    (lineStarts cs).length = (endOf cs).line ∧
      (lineStarts cs).getLast? = some (byteLength cs - (endOf cs).column) ∧
      (endOf cs).column ≤ byteLength cs := by
  induction cs using List.reverseRecOn with
  | nil => simp [lineStarts, startsAfterNewlines, endOf]
  | append_singleton cs c ih =>
    obtain ⟨hline, hstart, hcolumn⟩ := ih
    rw [lineStarts_append, Location.endOf_concat, Location.next, startsAfterNewlines]
    by_cases hc : c = '\n'
    · simp [hc, hline, startsAfterNewlines]
    · simp only [hc, if_false, startsAfterNewlines, List.append_nil, hline, hstart,
        Text.byteLength_append, Text.byteLength_cons, Text.byteLength_nil, true_and]
      refine ⟨congrArg some ?_, ?_⟩ <;> omega

theorem lineCount_eq (text : List Char) : lineCount text = text.count '\n' + 1 := by
  rw [lineCount, lineStarts, List.length_cons, length_startsAfterNewlines]

/-- A text cut at an offset is its two parts, the first as long as the offset. -/
theorem append_of_splitAtByte? {n : Nat} {text before after : List Char}
    (h : Text.splitAtByte? n text = some (before, after)) :
    text = before ++ after ∧ byteLength before = n := by
  fun_induction Text.splitAtByte? n text generalizing before with
  | case1 cs =>
    cases h
    exact ⟨rfl, rfl⟩
  | case2 n => cases h
  | case3 n c cs hle ih =>
    obtain ⟨⟨front, rest⟩, hrest, heq⟩ := Option.map_eq_some_iff.mp h
    cases heq
    obtain ⟨rfl, hlength⟩ := ih hrest
    refine ⟨rfl, ?_⟩
    rw [Text.byteLength_cons]
    omega
  | case4 n c cs hle => cases h

/-- The line of the cursor starts as many bytes before it as its column says. -/
theorem start_endOf (before after : List Char) :
    (lineStarts (before ++ after))[(endOf before).line - 1]? =
      some (byteLength before - (endOf before).column) := by
  obtain ⟨hlines, hlast, -⟩ := lineStarts_endOf before
  have hpos : 0 < (lineStarts before).length := Nat.succ_pos _
  rw [lineStarts_append, List.getElem?_append_left (by omega), ← hlines,
    ← List.getLast?_eq_getElem?, hlast]

/-- A line starts in the first part of a text exactly if the cursor comes to it there. -/
theorem start_le_iff {before after : List Char} {k start : Nat}
    (h : (lineStarts (before ++ after))[k]? = some start) :
    start ≤ byteLength before ↔ k < (endOf before).line := by
  rw [lineStarts_append] at h
  rw [← (lineStarts_endOf before).1]
  by_cases hk : k < (lineStarts before).length
  · rw [List.getElem?_append_left hk] at h
    have hle := le_of_mem_lineStarts (List.mem_of_getElem? h)
    exact ⟨fun _ => hk, fun _ => hle⟩
  · rw [List.getElem?_append_right (Nat.not_lt.mp hk)] at h
    have hbounds := bounds_of_mem_startsAfterNewlines (List.mem_of_getElem? h)
    constructor <;> omega

variable {text : List Char}

theorem start_pos {k start : Nat} (hk : 0 < k) (h : (lineStarts text)[k]? = some start) :
    0 < start := by
  obtain ⟨k, rfl⟩ := Nat.exists_eq_succ_of_ne_zero (Nat.ne_of_gt hk)
  rw [lineStarts, List.getElem?_cons_succ] at h
  exact (bounds_of_mem_startsAfterNewlines (List.mem_of_getElem? h)).1

/-- A place is on the line that has started before it and does not end before it. -/
theorem line_endOf {before after : List Char} {k start : Nat}
    (h : (lineStarts (before ++ after))[k]? = some start) (hstart : start ≤ byteLength before)
    (hend : byteLength before ≤ lineEnd (before ++ after) (k + 1)) :
    (endOf before).line = k + 1 := by
  have hstarted := (start_le_iff h).mp hstart
  refine Nat.le_antisymm (Nat.not_lt.mp fun hlt => ?_) hstarted
  -- Otherwise the next line has started too, one byte after the end of this one.
  have hlines := (lineStarts_endOf before).1
  obtain ⟨next, hnext⟩ : ∃ next, (lineStarts (before ++ after))[k + 1]? = some next :=
    ⟨_, List.getElem?_eq_getElem (by rw [lineStarts_append, List.length_append]; omega)⟩
  have hle := (start_le_iff hnext).mpr hlt
  have hpos := start_pos (Nat.succ_pos k) hnext
  rw [lineEnd, hnext] at hend
  dsimp only at hend
  omega

/-- The column of a location is not too large for an offset. -/
def Fits (text : List Char) (l : Location) : Prop :=
  (lineStarts text).getD (l.line - 1) 0 + l.column < offsetLimit text

instance (text : List Char) (l : Location) : Decidable (Fits text l) :=
  inferInstanceAs (Decidable (_ < _))

theorem lt_offsetLimit {o : Nat} (h : o ≤ byteLength text) : o < offsetLimit text := by
  unfold offsetLimit
  omega

/-- A location that has an offset, and whose column is not too large for one, is where the cursor is
after the part of the text before it. -/
theorem endOf_of_offset {l : Location} {o : Nat} (hfits : Fits text l) (h : offset text l = .ok o) :
    ∃ before after, text = before ++ after ∧ byteLength before = o ∧ endOf before = l := by
  rw [offset, offsetOf] at h
  split at h
  · cases h
  next hexists =>
  dsimp only at h
  rw [Nat.mod_eq_of_lt hfits] at h
  split at h
  · cases h
  next hplaced =>
  cases h
  rw [not_or, Bool.not_eq_false] at hplaced
  obtain ⟨hend, hboundary⟩ := hplaced
  obtain ⟨⟨before, after⟩, hsplit⟩ := Option.isSome_iff_exists.mp hboundary
  obtain ⟨rfl, hlength⟩ := append_of_splitAtByte? hsplit
  refine ⟨before, after, rfl, hlength, ?_⟩
  obtain ⟨k, hk⟩ : ∃ k, l.line = k + 1 := Nat.exists_eq_succ_of_ne_zero (by omega)
  rw [lineCount] at hexists
  obtain ⟨start, hstart⟩ : ∃ start, (lineStarts (before ++ after))[k]? = some start :=
    ⟨_, List.getElem?_eq_getElem (by omega)⟩
  rw [hk, Nat.add_sub_cancel, List.getD_eq_getElem?_getD, hstart, Option.getD_some] at hlength hend
  have hline := line_endOf hstart (by omega) (by omega)
  have hcolumn := (lineStarts_endOf before).2.2
  have hsame := start_endOf before after
  rw [hline, Nat.add_sub_cancel, hstart, Option.some.injEq] at hsame
  have hcolumns : (endOf before).column = l.column := by omega
  cases l
  exact Location.mk.injEq .. ▸ ⟨hline.trans hk.symm, hcolumns⟩

/-- The location of the place between two parts of a text is where the cursor is after the first. -/
theorem locationAt_append (before after : List Char) :
    locationAt (before ++ after) (byteLength before) = endOf before := by
  obtain ⟨hlines, -, hcolumn⟩ := lineStarts_endOf before
  have hstarted : (lineStarts (before ++ after)).takeWhile (· ≤ byteLength before) =
      lineStarts before := by
    rw [lineStarts_append, List.takeWhile_append_of_pos fun s hs =>
      decide_eq_true (le_of_mem_lineStarts hs)]
    cases hlater : startsAfterNewlines (byteLength before) after with
    | nil => rw [List.takeWhile_nil, List.append_nil]
    | cons s rest =>
      have hlt := (bounds_of_mem_startsAfterNewlines (hlater ▸ List.mem_cons_self)).1
      rw [List.takeWhile_cons_of_neg (by simpa using hlt), List.append_nil]
  have hpos : 0 < (lineStarts before).length := Nat.succ_pos _
  have hline : max 1 (lineStarts before).length = (endOf before).line := by omega
  rw [locationAt, locationAmong, hstarted, hline, List.getD_eq_getElem?_getD, start_endOf,
    Option.getD_some, Nat.sub_sub_self hcolumn]

/-- The column of the cursor counts from the start of its line. -/
theorem start_add_column (before after : List Char) :
    (lineStarts (before ++ after)).getD ((endOf before).line - 1) 0 + (endOf before).column =
      byteLength before := by
  obtain ⟨-, -, hcolumn⟩ := lineStarts_endOf before
  rw [List.getD_eq_getElem?_getD, start_endOf, Option.getD_some, Nat.sub_add_cancel hcolumn]

/-- The places of a text are not too far for an offset. -/
theorem fits_endOf (before after : List Char) : Fits (before ++ after) (endOf before) := by
  rw [Fits, start_add_column]
  exact lt_offsetLimit (by simp)

/-- The offset of where the cursor is after a part of a text is the length of that part. -/
theorem offset_endOf (before after : List Char) :
    offset (before ++ after) (endOf before) = .ok (byteLength before) := by
  obtain ⟨hlines, -, -⟩ := lineStarts_endOf before
  have hpos : 0 < (lineStarts before).length := Nat.succ_pos _
  have hexists :
      ¬((endOf before).line = 0 ∨ lineCount (before ++ after) < (endOf before).line) := by
    rw [lineCount, lineStarts_append, List.length_append]
    omega
  have hend : ¬lineEnd (before ++ after) (endOf before).line < byteLength before := by
    rw [lineEnd]
    split
    next next hat =>
      have hlt := mt (start_le_iff hat).mp (Nat.lt_irrefl _)
      omega
    next => simp
  have hboundary : isBoundary (before ++ after) (byteLength before) = true := by
    rw [isBoundary, Text.splitAtByte?_append]
    rfl
  rw [offset, offsetOf, if_neg hexists]
  dsimp only
  rw [Nat.mod_eq_of_lt (fits_endOf before after), start_add_column,
    if_neg (by simp [hend, hboundary])]

/-- The offset of the location between two parts of a text is the length of the first part. -/
theorem offset_locationAt (before after : List Char) :
    offset (before ++ after) (locationAt (before ++ after) (byteLength before)) =
      .ok (byteLength before) := by
  rw [locationAt_append]
  exact offset_endOf before after

/-- The location is one of a place of the text. -/
def IsPosition (text : List Char) (l : Location) : Prop :=
  ∃ before after, text = before ++ after ∧ endOf before = l

/-- A location whose column is not too large has an offset if it is one of a place. -/
theorem exists_offset_iff {l : Location} (hfits : Fits text l) :
    (∃ o, offset text l = .ok o) ↔ IsPosition text l := by
  constructor
  · rintro ⟨o, h⟩
    obtain ⟨before, after, htext, -, hl⟩ := endOf_of_offset hfits h
    exact ⟨before, after, htext, hl⟩
  · rintro ⟨before, after, rfl, rfl⟩
    exact ⟨_, offset_endOf before after⟩

/-- Places of a text come in the order of their offsets. -/
theorem endOf_lt_iff {before after before' after' : List Char}
    (h : before ++ after = before' ++ after') :
    endOf before < endOf before' ↔ byteLength before < byteLength before' := by
  rcases List.append_eq_append_iff.mp h with ⟨more, rfl, -⟩ | ⟨more, rfl, -⟩
  · by_cases hmore : more = []
    · simp [hmore, Std.lt_irrefl]
    · have hlt := Location.endOf_lt_append before hmore
      have hpos := Text.byteLength_pos hmore
      rw [Text.byteLength_append]
      exact ⟨fun _ => by omega, fun _ => hlt⟩
  · have hle : endOf before' ≤ endOf (before' ++ more) := by
      rw [endOf, endOf, List.foldl_append]
      exact Location.le_foldl_next more _
    rw [Text.byteLength_append]
    exact ⟨fun hlt => absurd hlt (Std.not_lt.mpr hle), fun hlt => by omega⟩

/-- Locations come in the order of their offsets. -/
theorem lt_iff_of_offset {l₁ l₂ : Location} {o₁ o₂ : Nat} (hfits₁ : Fits text l₁)
    (hfits₂ : Fits text l₂) (h₁ : offset text l₁ = .ok o₁) (h₂ : offset text l₂ = .ok o₂) :
    l₁ < l₂ ↔ o₁ < o₂ := by
  obtain ⟨before, after, htext, rfl, rfl⟩ := endOf_of_offset hfits₁ h₁
  obtain ⟨before', after', htext', rfl, rfl⟩ := endOf_of_offset hfits₂ h₂
  exact endOf_lt_iff (htext.symm.trans htext')

/-- A line of a text stands between the newlines around it. -/
theorem line_append {before text after : List Char} {n : Nat} (hbefore : endOf before = ⟨n, 0⟩)
    (htext : '\n' ∉ text) (hafter : ∀ c ∈ after.head?, c = '\n') :
    line (before ++ text ++ after) n = .ok text := by
  have hstart : offsetOf (before ++ text ++ after) n 0 = .ok (byteLength before) := by
    have hoffset := offset_endOf before (text ++ after)
    rwa [hbefore, ← List.append_assoc] at hoffset
  have hlines : (lineStarts (before ++ text)).length = n := by
    rw [(lineStarts_endOf _).1, endOf, List.foldl_append, ← endOf, hbefore,
      Location.foldl_next_of_not_mem htext]
  have hend : lineEnd (before ++ text ++ after) n = byteLength (before ++ text) := by
    rw [lineEnd, lineStarts_append, List.getElem?_append_right (by omega), hlines, Nat.sub_self]
    cases after with
    | nil => simp [startsAfterNewlines]
    | cons c rest =>
      obtain rfl : c = '\n' := hafter c rfl
      rfl
  simp only [line, hstart, hend, slice?_append, bind, Except.bind]
  rfl

/-- The texts between the newlines of a text are its lines. -/
theorem line_intercalate {ls : List (List Char)} (h : ∀ l ∈ ls, '\n' ∉ l) {before : List Char}
    {n : Nat} (hbefore : endOf before = ⟨n, 0⟩) {k : Nat} {l : List Char} (hk : ls[k]? = some l) :
    line (before ++ ['\n'].intercalate ls) (n + k) = .ok l := by
  induction ls generalizing before n k with
  | nil => cases hk
  | cons first rest ih =>
    obtain ⟨hfirst, hrest⟩ := List.forall_mem_cons.mp h
    obtain ⟨after, hafter, htext⟩ : ∃ after, (∀ c ∈ after.head?, c = '\n') ∧
        ['\n'].intercalate (first :: rest) = first ++ after := by
      cases rest with
      | nil => exact ⟨[], by simp⟩
      | cons second more => exact ⟨'\n' :: ['\n'].intercalate (second :: more), by simp⟩
    cases k with
    | zero =>
      cases hk
      rw [htext, ← List.append_assoc]
      exact line_append hbefore hfirst hafter
    | succ k =>
      have hnext : endOf (before ++ first ++ ['\n']) = ⟨n + 1, 0⟩ := by
        rw [Location.endOf_concat, endOf, List.foldl_append, ← endOf, hbefore,
          Location.foldl_next_of_not_mem hfirst]
        rfl
      cases rest with
      | nil => cases hk
      | cons second more =>
        have hline := ih hrest hnext hk
        rw [List.intercalate_cons_cons, Nat.add_comm k 1, ← Nat.add_assoc, ← List.append_assoc,
          ← List.append_assoc]
        exact hline

/-- A text is its lines, joined by newlines. -/
theorem exists_intercalate (text : List Char) : ∃ ls : List (List Char),
    ls.length = text.count '\n' + 1 ∧ (∀ l ∈ ls, '\n' ∉ l) ∧ ['\n'].intercalate ls = text := by
  induction text with
  | nil => exact ⟨[[]], by simp⟩
  | cons c rest ih =>
    obtain ⟨ls, hlength, hlines, hjoin⟩ := ih
    obtain ⟨first, more, rfl⟩ := List.exists_cons_of_length_eq_add_one hlength
    by_cases hc : c = '\n'
    · refine ⟨[] :: first :: more, ?_, ?_, ?_⟩
      · rw [List.length_cons, hlength, hc, List.count_cons_self]
      · exact List.forall_mem_cons.mpr ⟨List.not_mem_nil, hlines⟩
      · rw [List.intercalate_cons_cons, hjoin, hc]
        rfl
    · obtain ⟨hfirst, hmore⟩ := List.forall_mem_cons.mp hlines
      refine ⟨(c :: first) :: more, ?_, ?_, ?_⟩
      · rw [List.count_cons_of_ne hc, ← hlength]
        rfl
      · refine List.forall_mem_cons.mpr ⟨?_, hmore⟩
        rw [List.mem_cons, not_or]
        exact ⟨Ne.symm hc, hfirst⟩
      · rw [← hjoin]
        cases more <;> simp

theorem locationOf_of_boundary {o : Nat} (h : Boundary text o) :
    locationOf text o = .ok (locationAt text o) := by
  obtain ⟨before, after, rfl, rfl⟩ := h
  rw [locationOf, if_neg (by simp)]

/-- Offsets and locations name the same places of a text in the same order: the locations of the
character boundaries are those that have an offset, each conversion takes back what the other one
does, and every other location is rejected, as long as columns are not so large that offsets wrap
around. The lines are what stands between the newlines. -/
theorem lineIndex_isomorphic (text : List Char) :
    (∀ o, Boundary text o →
      ∃ l, Fits text l ∧ locationOf text o = .ok l ∧ offset text l = .ok o) ∧
    (∀ l o, Fits text l → offset text l = .ok o → Boundary text o ∧ locationOf text o = .ok l) ∧
    (∀ l, Fits text l → (∀ o, Boundary text o → locationOf text o ≠ .ok l) →
      ∃ fault, offset text l = .error fault) ∧
    (∀ l₁ l₂ o₁ o₂, Fits text l₁ → Fits text l₂ → offset text l₁ = .ok o₁ →
      offset text l₂ = .ok o₂ → (l₁ < l₂ ↔ o₁ < o₂)) ∧
    lineCount text = text.count '\n' + 1 ∧
    ∃ ls : List (List Char), ls.length = lineCount text ∧
      (∀ k l, ls[k]? = some l → line text (k + 1) = .ok l ∧ '\n' ∉ l) ∧
      ['\n'].intercalate ls = text := by
  have hback : ∀ l o, Fits text l → offset text l = .ok o →
      Boundary text o ∧ locationOf text o = .ok l := by
    intro l o hfits h
    obtain ⟨before, after, rfl, rfl, rfl⟩ := endOf_of_offset hfits h
    have hboundary : Boundary (before ++ after) (byteLength before) := ⟨before, after, rfl, rfl⟩
    rw [locationOf_of_boundary hboundary, locationAt_append]
    exact ⟨hboundary, rfl⟩
  refine ⟨?_, hback, ?_, fun _ _ _ _ => lt_iff_of_offset, lineCount_eq text, ?_⟩
  · rintro o ⟨before, after, rfl, rfl⟩
    refine ⟨_, ?_, locationOf_of_boundary ⟨before, after, rfl, rfl⟩, offset_locationAt before after⟩
    rw [locationAt_append]
    exact fits_endOf before after
  · intro l hfits hother
    cases h : offset text l with
    | error fault => exact ⟨fault, rfl⟩
    | ok o =>
      obtain ⟨hboundary, hl⟩ := hback l o hfits h
      exact absurd hl (hother o hboundary)
  · obtain ⟨ls, hlength, hlines, hjoin⟩ := exists_intercalate text
    refine ⟨ls, by rw [hlength, lineCount_eq], fun k l hk => ⟨?_, ?_⟩, hjoin⟩
    · have hline := line_intercalate hlines (show endOf [] = ⟨1, 0⟩ from rfl) hk
      rwa [hjoin, List.nil_append, Nat.add_comm] at hline
    · exact hlines l (List.mem_of_getElem? hk)

end SourceText

end Mutagenesis
