import Mutagenesis.LineDiff.Unified
import Mutagenesis.Patch.Reader

/-!
# Hunk headers are read as they were written

The header of a hunk holds two ranges of lines in decimal numerals. `hunkHeader_header` is the one
fact that later files need: the reader takes from a written header the line in front of the old
range, or the first line of it, and both lengths, and refuses it only if one of the numbers has no
numeral.
-/

set_option autoImplicit false

namespace Mutagenesis

namespace Numeral

/-- The value of digits that are read one by one. -/
theorem digitsValue?_of_digits {cs : List Char} (h : ∀ c ∈ cs, c.isDigit = true) (value : Nat) :
    digitsValue? value cs = some (Nat.ofDigitChars 10 cs value) := by
  induction cs generalizing value with
  | nil => simp [digitsValue?]
  | cons c cs ih =>
    have hc : c.isDigit = true := h c (by simp)
    rw [digitsValue?, if_pos hc, ih (fun d hd => h d (by simp [hd])), Nat.ofDigitChars_cons,
      Nat.mul_comm]

theorem not_mem_of_digits {cs : List Char} (h : ∀ c ∈ cs, c.isDigit = true) {c : Char}
    (hc : c.isDigit = false) : c ∉ cs := fun hmem => by
  rw [h c hmem] at hc
  cases hc

theorem isDigit_of_mem_write {n : Nat} {c : Char} (h : c ∈ write n) : c.isDigit = true :=
  Nat.isDigit_of_mem_toDigits (by decide) (by decide) h

theorem not_mem_write (n : Nat) {c : Char} (hc : c.isDigit = false) : c ∉ write n :=
  not_mem_of_digits (fun _ => isDigit_of_mem_write) hc

theorem write_ne_nil (n : Nat) : write n ≠ [] := Nat.toDigits_ne_nil

/-- A number is read back from its digits. -/
theorem unsigned?_write (n : Nat) : unsigned? (write n) = some n := by
  have hvalue : digitsValue? 0 (write n) = some n := by
    rw [digitsValue?_of_digits (fun c hc => isDigit_of_mem_write hc)]
    exact congrArg some Nat.ofDigitChars_ten_toDigits
  cases hw : write n with
  | nil => exact absurd hw (write_ne_nil n)
  | cons c cs => rw [unsigned?, ← hw, hvalue]

/-- A written number is read back if it is below the limit, and refused if it is not. -/
theorem read?_write (n : Nat) : read? (write n) = if n < limit then some n else none := by
  have hplus : ∀ rest, write n ≠ '+' :: rest := by
    intro rest hw
    have hdigit : ('+' : Char).isDigit = true := isDigit_of_mem_write (by rw [hw]; simp)
    exact absurd hdigit (by decide)
  have hread : read? (write n) = (unsigned? (write n)).filter (· < limit) := by
    unfold read?
    split
    · next rest hw => exact absurd hw (hplus rest)
    · rfl
  rw [hread, unsigned?_write]
  by_cases hn : n < limit <;> simp [hn, Option.filter]

end Numeral

namespace Text

/-- A digit is not blank. -/
theorem not_blank_of_isDigit {c : Char} (h : c.isDigit = true) : isBlank c = false := by
  simp only [Char.isDigit, Bool.and_eq_true, decide_eq_true_eq] at h
  have hlow : 48 ≤ c.toNat := h.1
  have hhigh : c.toNat ≤ 57 := h.2
  simp only [isBlank, Bool.or_eq_false_iff, Bool.and_eq_false_iff, decide_eq_false_iff_not,
    beq_eq_false_iff_ne]
  omega

/-- A piece without blanks, with a blank after it, is the first word of a text. -/
theorem words_append_blank {word : List Char} (hne : word ≠ [])
    (h : ∀ c ∈ word, isBlank c = false) {b : Char} (hb : isBlank b = true) (rest : List Char) :
    words (word ++ b :: rest) = word :: words rest := by
  induction word with
  | nil => exact absurd rfl hne
  | cons c cs ih =>
    have hc : isBlank c = false := h c (by simp)
    cases cs with
    | nil => simp [words, hc, hb]
    | cons d ds =>
      have hd : isBlank d = false := h d (by simp)
      have hih := ih (by simp) (fun x hx => h x (by simp [hx]))
      rw [List.cons_append, words, if_neg (by simp [hc]), if_neg (by simp [hd]), hih]

theorem after?_nil (cs : List Char) : after? [] cs = some cs := rfl

theorem after?_cons (a c : Char) (lead cs : List Char) :
    after? (a :: lead) (c :: cs) = if a == c then after? lead cs else none := rfl

/-- What does not hold the first character of a separator is in front of the first cut. -/
theorem cutFirst?_append {lead : Char} {front : List Char} (h : lead ∉ front)
    (separator cs : List Char) :
    cutFirst? (lead :: separator) (front ++ cs) =
      (cutFirst? (lead :: separator) cs).map fun parts => (front ++ parts.1, parts.2) := by
  induction front with
  | nil => simp
  | cons c front ih =>
    rw [List.mem_cons, not_or] at h
    rw [List.cons_append, cutFirst?, after?_cons, if_neg (by simpa using h.1), ih h.2]
    cases cutFirst? (lead :: separator) cs <;> rfl

/-- The first cut at a character is in front of the first place where the character stands. -/
theorem cutFirst?_char {separator : Char} {front : List Char} (h : separator ∉ front)
    (rest : List Char) :
    cutFirst? [separator] (front ++ separator :: rest) = some (front, rest) := by
  rw [cutFirst?_append h]
  simp [cutFirst?, after?_cons, after?_nil]

end Text

namespace LineDiff

/-- The number of the line that a written range of lines starts with; an empty range has the number
of the line before it. -/
def rangeStart (start stop : Nat) : Nat :=
  if stop - start = 0 then start else start + 1

/-- The numbers of a written range can be read back. -/
def Fits (start stop : Nat) : Prop :=
  rangeStart start stop < Numeral.limit ∧ stop - start < Numeral.limit

instance (start stop : Nat) : Decidable (Fits start stop) :=
  inferInstanceAs (Decidable (_ ∧ _))

theorem one_lt_limit : 1 < Numeral.limit := by decide

/-- A range of one number is that line, if the number is not too large. -/
theorem range_write (n : Nat) : Diff.range (Numeral.write n) =
    if n < Numeral.limit then .ok (n, 1)
    else .error (.badRange (String.ofList (Numeral.write n))) := by
  have hcut : Text.cutFirst? [','] (Numeral.write n ++ []) = none :=
    Text.cutFirst?_append (Numeral.not_mem_write n rfl) [] []
  rw [List.append_nil] at hcut
  rw [Diff.range, hcut]
  simp only [Numeral.read?_write]
  by_cases hn : n < Numeral.limit <;> simp only [hn, if_true, if_false] <;> rfl

/-- A range of two numbers is read back, if they are not too large. -/
theorem range_write_comma (m n : Nat) :
    Diff.range (Numeral.write m ++ ',' :: Numeral.write n) =
      if m < Numeral.limit ∧ n < Numeral.limit then .ok (m, n)
      else .error (.badRange (String.ofList (Numeral.write m ++ ',' :: Numeral.write n))) := by
  rw [Diff.range, Text.cutFirst?_char (Numeral.not_mem_write m rfl)]
  simp only [Numeral.read?_write]
  by_cases hm : m < Numeral.limit <;> by_cases hn : n < Numeral.limit <;>
    simp only [hm, hn, if_true, if_false, and_self, and_true, and_false] <;> rfl

theorem write_zero : Numeral.write 0 = ['0'] := Nat.toDigits_zero 10

/-- A written range is read back if its numbers fit, and refused if they do not. -/
theorem range_writeRange (start stop : Nat) : Diff.range (writeRange start stop) =
    if Fits start stop then .ok (rangeStart start stop, stop - start)
    else .error (.badRange (String.ofList (writeRange start stop))) := by
  unfold writeRange
  split
  · next hone =>
    rw [range_write]
    simp [Fits, rangeStart, hone, one_lt_limit]
  · split
    · next hempty =>
      rw [← write_zero, range_write_comma]
      have hzero : 0 < Numeral.limit := by decide
      simp [Fits, rangeStart, hempty, hzero]
    · next hempty =>
      rw [range_write_comma]
      simp [Fits, rangeStart, hempty]

/-- A written range holds no blanks. -/
theorem not_blank_of_mem_writeRange {start stop : Nat} {c : Char} (h : c ∈ writeRange start stop) :
    Text.isBlank c = false := by
  have hdigit : ∀ {n : Nat}, c ∈ Numeral.write n → Text.isBlank c = false := fun hc =>
    Text.not_blank_of_isDigit (Numeral.isDigit_of_mem_write hc)
  unfold writeRange at h
  split at h
  · exact hdigit h
  · split at h
    · rcases List.mem_append.mp h with h | h
      · exact hdigit h
      · simp only [List.mem_cons, List.not_mem_nil, or_false] at h
        rcases h with rfl | rfl <;> decide
    · rcases List.mem_append.mp h with h | h
      · exact hdigit h
      · rcases List.mem_cons.mp h with rfl | h
        · decide
        · exact hdigit h

/-- The header line of a hunk that covers the given ranges of the old and the new lines. -/
def header (oldStart oldStop newStart newStop : Nat) : List Char :=
  "@@ -".toList ++ writeRange oldStart oldStop ++ " +".toList ++ writeRange newStart newStop ++
    " @@\n".toList

/-- The words of a written header. -/
theorem words_header (oldStart oldStop newStart newStop : Nat) :
    Text.words (header oldStart oldStop newStart newStop) =
      [['@', '@'], '-' :: writeRange oldStart oldStop, '+' :: writeRange newStart newStop,
        ['@', '@']] := by
  have hchars : header oldStart oldStop newStart newStop =
      ['@', '@'] ++ ' ' :: (('-' :: writeRange oldStart oldStop) ++ ' ' ::
        (('+' :: writeRange newStart newStop) ++ ' ' :: (['@', '@'] ++ ['\n']))) := by
    unfold header
    simp
  have hword : ∀ {c : Char} {start stop : Nat}, Text.isBlank c = false →
      ∀ d ∈ c :: writeRange start stop, Text.isBlank d = false := by
    intro c start stop hc d hd
    rcases List.mem_cons.mp hd with rfl | hd
    · exact hc
    · exact not_blank_of_mem_writeRange hd
  have hends : ∀ d ∈ ['@', '@'], Text.isBlank d = false := by
    intro d hd
    obtain rfl : d = '@' := by simpa using hd
    decide
  rw [hchars, Text.words_append_blank (by simp) hends (by decide),
    Text.words_append_blank (by simp) (hword (by decide)) (by decide),
    Text.words_append_blank (by simp) (hword (by decide)) (by decide),
    Text.words_append_blank (by simp) hends (by decide)]
  rfl

/-- The reader takes the numbers of a header as they were written, and refuses a header only if one
of them does not fit. -/
theorem hunkHeader_header (oldStart oldStop newStart newStop : Nat) :
    (Fits oldStart oldStop ∧ Fits newStart newStop ∧
      Diff.hunkHeader (header oldStart oldStop newStart newStop) =
        .ok (rangeStart oldStart oldStop, oldStop - oldStart, newStop - newStart)) ∨
    (¬(Fits oldStart oldStop ∧ Fits newStart newStop) ∧
      ∃ fault, Diff.hunkHeader (header oldStart oldStop newStart newStop) = .error fault) := by
  rw [Diff.hunkHeader, words_header]
  simp only [range_writeRange]
  by_cases hold : Fits oldStart oldStop
  · by_cases hnew : Fits newStart newStop
    · exact Or.inl ⟨hold, hnew, by simp only [hold, hnew, if_true]; rfl⟩
    · exact Or.inr ⟨fun h => hnew h.2, _, by simp only [hold, hnew, if_true, if_false]; rfl⟩
  · exact Or.inr ⟨fun h => hold h.1, _, by simp only [hold, if_false]; rfl⟩

end LineDiff

end Mutagenesis
