import Mathlib.Data.List.Basic
import Mutagenesis.Location
import Mutagenesis.Proofs.Action
import Mutagenesis.Proofs.HunkHeader

/-!
# Written locations

A text that is read as a location, a span or a span in a file is spelled as the form of these says:
numerals with a colon between them, locations with two colons between them, and a file with an at
sign after it. Nothing else is read, and each spelling is read as what it spells
(`Location.read_eq_ok_iff`, `Span.read_eq_ok_iff`, `FileSpan.read_eq_ok_iff`). The written form is
one of the spellings.
-/

set_option autoImplicit false

namespace Mutagenesis

variable {cs : List Char}

namespace Numeral

/-- A text spells a number: a plus sign or none, then digits that have the number as their value,
which is below the limit. -/
def Spells (cs : List Char) (n : Nat) : Prop :=
  ∃ digits, (cs = digits ∨ cs = '+' :: digits) ∧ digits ≠ [] ∧ (∀ c ∈ digits, c.isDigit = true) ∧
    Nat.ofDigitChars 10 digits 0 = n ∧ n < limit

theorem digits_of_digitsValue? {value n : Nat} (h : digitsValue? value cs = some n) :
    ∀ c ∈ cs, c.isDigit = true := by
  induction cs generalizing value with
  | nil => nofun
  | cons c cs ih =>
    rw [digitsValue?] at h
    split at h
    next hc => exact List.forall_mem_cons.mpr ⟨hc, ih h⟩
    next => cases h

/-- Numbers are written in digits and nothing else. -/
theorem unsigned?_eq_some_iff {n : Nat} : unsigned? cs = some n ↔
    cs ≠ [] ∧ (∀ c ∈ cs, c.isDigit = true) ∧ Nat.ofDigitChars 10 cs 0 = n := by
  cases cs with
  | nil => simp [unsigned?]
  | cons c cs =>
    rw [unsigned?]
    constructor
    · intro h
      have hdigits := digits_of_digitsValue? h
      rw [digitsValue?_of_digits hdigits] at h
      exact ⟨List.cons_ne_nil c cs, hdigits, Option.some.inj h⟩
    · rintro ⟨-, hdigits, hvalue⟩
      rw [digitsValue?_of_digits hdigits, hvalue]

/-- A text is read as a number exactly if it spells it. -/
theorem read?_eq_some_iff {n : Nat} : read? cs = some n ↔ Spells cs n := by
  unfold read?
  rw [Option.filter_eq_some_iff, unsigned?_eq_some_iff, decide_eq_true_eq]
  split
  next rest =>
    constructor
    · rintro ⟨⟨hne, hdigits, hvalue⟩, hlimit⟩
      exact ⟨rest, Or.inr rfl, hne, hdigits, hvalue, hlimit⟩
    · rintro ⟨digits, rfl | heq, hne, hdigits, hvalue, hlimit⟩
      · exact absurd (hdigits '+' List.mem_cons_self) (by decide)
      · cases heq
        exact ⟨⟨hne, hdigits, hvalue⟩, hlimit⟩
  next hplus =>
    constructor
    · rintro ⟨⟨hne, hdigits, hvalue⟩, hlimit⟩
      exact ⟨cs, Or.inl rfl, hne, hdigits, hvalue, hlimit⟩
    · rintro ⟨digits, rfl | rfl, hne, hdigits, hvalue, hlimit⟩
      · exact ⟨⟨hne, hdigits, hvalue⟩, hlimit⟩
      · exact absurd rfl (hplus digits)

theorem spells_write {n : Nat} (h : n < limit) : Spells (write n) n := by
  rw [← read?_eq_some_iff, read?_write, if_pos h]

theorem Spells.ne_nil {n : Nat} (h : Spells cs n) : cs ≠ [] := by
  obtain ⟨digits, rfl | rfl, hne, -⟩ := h
  · exact hne
  · exact List.cons_ne_nil _ _

/-- A numeral holds nothing but digits and a plus sign. -/
theorem Spells.not_mem {n : Nat} (h : Spells cs n) {c : Char} (hc : c.isDigit = false)
    (hplus : c ≠ '+') : c ∉ cs := by
  obtain ⟨digits, rfl | rfl, -, hdigits, -⟩ := h
  · exact not_mem_of_digits hdigits hc
  · rw [List.mem_cons, not_or]
    exact ⟨hplus, not_mem_of_digits hdigits hc⟩

end Numeral

namespace Text

/-- A text is cut around the first separator. -/
theorem append_of_cutFirst? {separator cs before after : List Char}
    (h : cutFirst? separator cs = some (before, after)) : cs = before ++ separator ++ after := by
  induction cs generalizing before with
  | nil =>
    obtain ⟨rest, hrest, heq⟩ := Option.map_eq_some_iff.mp h
    cases heq
    exact (List.isPrefixOf?_eq_some_iff_append_eq.mp hrest).symm
  | cons c cs ih =>
    rw [cutFirst?] at h
    split at h
    next rest hrest =>
      cases h
      exact (List.isPrefixOf?_eq_some_iff_append_eq.mp hrest).symm
    next =>
      obtain ⟨⟨front, rest⟩, hcut, heq⟩ := Option.map_eq_some_iff.mp h
      cases heq
      exact congrArg (c :: ·) (ih hcut)

/-- A text is cut around the last separator. -/
theorem append_of_cutLast? {separator : Char} {cs before after : List Char}
    (h : cutLast? separator cs = some (before, after)) : cs = before ++ separator :: after := by
  induction cs generalizing before with
  | nil => cases h
  | cons c cs ih =>
    rw [cutLast?] at h
    split at h
    next front rest hcut =>
      cases h
      exact congrArg (c :: ·) (ih hcut)
    next =>
      split at h
      next hc =>
        cases h
        rw [hc]
        rfl
      next => cases h

theorem cutLast?_of_not_mem {separator : Char} (h : separator ∉ cs) :
    cutLast? separator cs = none := by
  induction cs with
  | nil => rfl
  | cons c cs ih =>
    rw [List.mem_cons, not_or] at h
    rw [cutLast?, ih h.2]
    exact if_neg (Ne.symm h.1)

theorem cutLast?_append {separator : Char} {after : List Char} (h : separator ∉ after)
    (before : List Char) :
    cutLast? separator (before ++ separator :: after) = some (before, after) := by
  induction before with
  | nil =>
    rw [List.nil_append, cutLast?, cutLast?_of_not_mem h]
    exact if_pos rfl
  | cons c before ih => rw [List.cons_append, cutLast?, ih]

end Text

namespace Location

/-- A text spells a location: `line:column`, and the line is not zero. -/
def Spells (cs : List Char) (l : Location) : Prop :=
  ∃ line column, cs = line ++ ':' :: column ∧ Numeral.Spells line l.line ∧
    Numeral.Spells column l.column ∧ l.line ≠ 0

/-- A location that can be read back: its line counts from one, and both numbers have numerals. -/
def Readable (l : Location) : Prop :=
  0 < l.line ∧ l.line < Numeral.limit ∧ l.column < Numeral.limit

/-- A text is read as a location exactly if it spells it. -/
theorem read_eq_ok_iff {l : Location} : read cs = .ok l ↔ Spells cs l := by
  constructor
  · intro h
    unfold read at h
    split at h
    · cases h
    next lineText columnText hcut =>
    split at h
    · cases h
    next line hline =>
    split at h
    · cases h
    next column hcolumn =>
    split at h
    · cases h
    next hzero =>
    cases h
    exact ⟨lineText, columnText, by simpa using Text.append_of_cutFirst? hcut,
      Numeral.read?_eq_some_iff.mp hline, Numeral.read?_eq_some_iff.mp hcolumn, hzero⟩
  · rintro ⟨line, column, rfl, hline, hcolumn, hzero⟩
    rw [read, Text.cutFirst?_char (hline.not_mem rfl (by decide))]
    simp only [Numeral.read?_eq_some_iff.mpr hline, Numeral.read?_eq_some_iff.mpr hcolumn]
    exact if_neg hzero

theorem spells_write {l : Location} (h : l.Readable) : Spells l.write l :=
  ⟨Numeral.write l.line, Numeral.write l.column, rfl, Numeral.spells_write h.2.1,
    Numeral.spells_write h.2.2, Nat.ne_of_gt h.1⟩

theorem Spells.not_mem {l : Location} (h : Spells cs l) {c : Char} (hc : c.isDigit = false)
    (hplus : c ≠ '+') (hcolon : c ≠ ':') : c ∉ cs := by
  obtain ⟨line, column, rfl, hline, hcolumn, -⟩ := h
  rw [List.mem_append, List.mem_cons, not_or, not_or]
  exact ⟨hline.not_mem hc hplus, hcolon, hcolumn.not_mem hc hplus⟩

/-- The first two colons in a row are those after a location. -/
theorem Spells.cutFirst? {l : Location} (h : Spells cs l) (rest : List Char) :
    Text.cutFirst? [':', ':'] (cs ++ ':' :: ':' :: rest) = some (cs, rest) := by
  obtain ⟨line, column, rfl, hline, hcolumn, -⟩ := h
  have hnone : ∀ {cs n}, Numeral.Spells cs n → ':' ∉ cs := fun h => h.not_mem rfl (by decide)
  obtain ⟨d, ds, rfl⟩ := List.exists_cons_of_ne_nil hcolumn.ne_nil
  have hd : ':' ≠ d := fun heq => hnone hcolumn (heq ▸ List.mem_cons_self)
  have hcut : Text.cutFirst? [':', ':'] (d :: ds ++ ':' :: ':' :: rest) = some (d :: ds, rest) := by
    rw [Text.cutFirst?_append (hnone hcolumn)]
    simp [Text.cutFirst?, Text.after?_cons, Text.after?_nil]
  rw [List.append_assoc, Text.cutFirst?_append (hnone hline), List.cons_append, Text.cutFirst?,
    hcut]
  simp [Text.after?_cons, hd]

end Location

namespace Span

/-- A text spells a span: `start::stop`, and the stop is not before the start. -/
def Spells (cs : List Char) (s : Span) : Prop :=
  ∃ start stop, cs = start ++ ':' :: ':' :: stop ∧ Location.Spells start s.start ∧
    Location.Spells stop s.stop ∧ s.start ≤ s.stop

/-- A span that can be read back. -/
structure Readable (s : Span) : Prop where
  start : s.start.Readable
  stop : s.stop.Readable
  ordered : s.start ≤ s.stop

/-- A text is read as a span exactly if it spells it. -/
theorem read_eq_ok_iff {s : Span} : read cs = .ok s ↔ Spells cs s := by
  constructor
  · intro h
    unfold read at h
    split at h
    · cases h
    next startText stopText hcut =>
    obtain ⟨start, hstart, h⟩ := Except.bind_eq_ok_iff.mp h
    obtain ⟨stop, hstop, h⟩ := Except.bind_eq_ok_iff.mp h
    split at h
    · cases h
    next hordered =>
    cases h
    exact ⟨startText, stopText, by simpa using Text.append_of_cutFirst? hcut,
      Location.read_eq_ok_iff.mp hstart, Location.read_eq_ok_iff.mp hstop, Std.not_lt.mp hordered⟩
  · rintro ⟨start, stop, rfl, hstart, hstop, hordered⟩
    rw [read, hstart.cutFirst?]
    simp only [Location.read_eq_ok_iff.mpr hstart, Location.read_eq_ok_iff.mpr hstop, bind,
      Except.bind, if_neg (Std.not_lt.mpr hordered)]

theorem spells_write {s : Span} (h : s.Readable) : Spells s.write s :=
  ⟨s.start.write, s.stop.write, rfl, Location.spells_write h.start, Location.spells_write h.stop,
    h.ordered⟩

theorem Spells.not_mem {s : Span} (h : Spells cs s) {c : Char} (hc : c.isDigit = false)
    (hplus : c ≠ '+') (hcolon : c ≠ ':') : c ∉ cs := by
  obtain ⟨start, stop, rfl, hstart, hstop, -⟩ := h
  simp only [List.mem_append, List.mem_cons, not_or]
  exact ⟨hstart.not_mem hc hplus hcolon, hcolon, hcolon, hstop.not_mem hc hplus hcolon⟩

end Span

namespace FileSpan

/-- A text spells a span in a file: `file@span`, where the file is what stands before the last at
sign, and is not empty. -/
def Spells (cs : List Char) (s : FileSpan) : Prop :=
  ∃ span, cs = s.file.toList ++ '@' :: span ∧ s.file ≠ "" ∧ '@' ∉ span ∧ Span.Spells span s.span

/-- A span in a file that can be read back. -/
structure Readable (s : FileSpan) : Prop where
  file : s.file ≠ ""
  start : s.span.start.Readable
  stop : s.span.stop.Readable
  ordered : s.span.start ≤ s.span.stop

/-- A text is read as a span in a file exactly if it spells it. -/
theorem read_eq_ok_iff {s : FileSpan} : read cs = .ok s ↔ Spells cs s := by
  constructor
  · intro h
    unfold read at h
    split at h
    · cases h
    next file spanText hcut =>
    split at h
    · cases h
    next hfile =>
    obtain ⟨span, hspan, h⟩ := Except.bind_eq_ok_iff.mp h
    cases h
    have hspelled := Span.read_eq_ok_iff.mp hspan
    refine ⟨spanText, ?_, ?_, hspelled.not_mem rfl (by decide) (by decide), hspelled⟩
    · rw [String.toList_ofList]
      exact Text.append_of_cutLast? hcut
    · intro hempty
      rw [← String.toList_inj, String.toList_ofList] at hempty
      exact hfile (List.isEmpty_iff.mpr hempty)
  · rintro ⟨span, rfl, hfile, hlast, hspan⟩
    have hempty : s.file.toList.isEmpty = false := by
      simpa [String.toList_eq_nil_iff] using hfile
    rw [read, Text.cutLast?_append hlast]
    simp only [hempty, Span.read_eq_ok_iff.mpr hspan, bind, Except.bind, String.ofList_toList]
    rfl

theorem spells_write {s : FileSpan} (h : s.Readable) : Spells s.write s := by
  have hspan : Span.Spells s.span.write s.span :=
    Span.spells_write ⟨h.start, h.stop, h.ordered⟩
  exact ⟨s.span.write, rfl, h.file, hspan.not_mem rfl (by decide) (by decide), hspan⟩

end FileSpan

/-- The written form of every location, span and span in a file is read as the value, and the texts
that are read are exactly the spellings, each as what it spells. -/
theorem locations_read_as_spelled :
    (∀ l : Location, l.Readable → Location.read l.text.toList = .ok l) ∧
    (∀ s : Span, s.Readable → Span.read s.text.toList = .ok s) ∧
    (∀ s : FileSpan, s.Readable → FileSpan.read s.text.toList = .ok s) ∧
    (∀ cs l, Location.read cs = .ok l ↔ Location.Spells cs l) ∧
    (∀ cs s, Span.read cs = .ok s ↔ Span.Spells cs s) ∧
    (∀ cs s, FileSpan.read cs = .ok s ↔ FileSpan.Spells cs s) := by
  refine ⟨fun l h => ?_, fun s h => ?_, fun s h => ?_, fun _ _ => Location.read_eq_ok_iff,
    fun _ _ => Span.read_eq_ok_iff, fun _ _ => FileSpan.read_eq_ok_iff⟩
  · rw [Location.text, String.toList_ofList]
    exact Location.read_eq_ok_iff.mpr (Location.spells_write h)
  · rw [Span.text, String.toList_ofList]
    exact Span.read_eq_ok_iff.mpr (Span.spells_write h)
  · rw [FileSpan.text, String.toList_ofList]
    exact FileSpan.read_eq_ok_iff.mpr (FileSpan.spells_write h)

end Mutagenesis
