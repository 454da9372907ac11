import Mutagenesis.Splice

/-!
# Offsets and slices of a text

Later offsets have later locations (`locationAt_le`), and what stands between the places around a
part of a text is that part (`slice?_append`). So a single replacement changes its own span only
(`splice_singleton`).
-/

set_option autoImplicit false

namespace Mutagenesis

open Text (byteLength)

/-- A text is cut behind the bytes of its first part. -/
theorem Text.splitAtByte?_append (before after : List Char) :
    splitAtByte? (byteLength before) (before ++ after) = some (before, after) := by
  induction before with
  | nil => simp [splitAtByte?]
  | cons c rest ih =>
    have hpos : 0 < c.utf8Size := Char.utf8Size_pos c
    obtain ⟨n, hn⟩ : ∃ n, c.utf8Size + byteLength rest = n + 1 :=
      Nat.exists_eq_succ_of_ne_zero (by omega)
    have hle : c.utf8Size ≤ n + 1 := by omega
    have hrest : n + 1 - c.utf8Size = byteLength rest := by omega
    rw [byteLength_cons, hn, List.cons_append, splitAtByte?, if_pos hle, hrest, ih]
    rfl

/-- A text that holds something has bytes. -/
theorem Text.byteLength_pos {cs : List Char} (h : cs ≠ []) : 0 < byteLength cs := by
  obtain ⟨c, rest, rfl⟩ := List.exists_cons_of_ne_nil h
  have hpos : 0 < c.utf8Size := Char.utf8Size_pos c
  rw [byteLength_cons]
  omega

namespace SourceText

theorem length_takeWhile_le (starts : List Nat) {a b : Nat} (h : a ≤ b) :
    (starts.takeWhile (· ≤ a)).length ≤ (starts.takeWhile (· ≤ b)).length := by
  induction starts with
  | nil => simp
  | cons s rest ih =>
    by_cases hs : s ≤ a
    · have hs' : s ≤ b := Nat.le_trans hs h
      simpa [hs, hs'] using ih
    · simp [hs]

/-- A later offset has a later location. -/
theorem locationAt_le (text : List Char) {a b : Nat} (h : a ≤ b) :
    locationAt text a ≤ locationAt text b := by
  have hlength := length_takeWhile_le (lineStarts text) h
  unfold locationAt locationAmong
  generalize (lineStarts text).takeWhile (· ≤ a) = earlier at *
  generalize (lineStarts text).takeWhile (· ≤ b) = later at *
  dsimp only
  rcases Nat.lt_or_eq_of_le (show max 1 earlier.length ≤ max 1 later.length by omega) with hlt | heq
  · exact Or.inl hlt
  · refine Or.inr ⟨heq, ?_⟩
    rw [heq]
    exact Nat.sub_le_sub_right h _

theorem line_locationAt_pos (text : List Char) (o : Nat) : 0 < (locationAt text o).line :=
  Nat.le_max_left 1 _

theorem slice?_append (before middle after : List Char) :
    slice? (before ++ middle ++ after) (byteLength before) (byteLength (before ++ middle)) =
      some middle := by
  have hlength : byteLength (before ++ middle) - byteLength before = byteLength middle := by simp
  unfold slice?
  rw [if_neg (by simp), List.append_assoc, Text.splitAtByte?_append]
  dsimp only
  rw [hlength, Text.splitAtByte?_append]
  rfl

theorem between_append (before middle after : List Char) :
    between (before ++ middle ++ after) (byteLength before) (byteLength (before ++ middle)) =
      middle := by
  rw [between, slice?_append]
  rfl

/-- One replacement stands in the place of its span, and all else stays. -/
theorem splice_singleton {before middle after : List Char} {r : Replacement}
    (hstart : offset (before ++ middle ++ after) r.start = .ok (byteLength before))
    (hstop : offset (before ++ middle ++ after) r.stop = .ok (byteLength (before ++ middle))) :
    splice (before ++ middle ++ after) [r] = .ok (before ++ r.text.toList ++ after) := by
  have hhead : between (before ++ middle ++ after) 0 (byteLength before) = before := by
    simpa using between_append [] before (middle ++ after)
  have htail : between (before ++ middle ++ after) (byteLength (before ++ middle))
      (byteLength (before ++ middle ++ after)) = after := by
    simpa using between_append (before ++ middle) after []
  have hresolved : Replacement.resolve [r] = [r] := rfl
  have hplaced : ¬(byteLength before < 0 ∨ byteLength (before ++ middle) < byteLength before) := by
    simp
  rw [splice, hresolved, spliceFrom, hstart, hstop]
  simp only [formatted, bind, Except.bind, if_neg hplaced, spliceFrom, hhead, htail, pure,
    Except.pure]

end SourceText

end Mutagenesis
