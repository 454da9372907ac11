import Mutagenesis.Document
import Mutagenesis.Json.Printer
import Mutagenesis.Json.Reader
import Mutagenesis.Proofs.HunkHeader

/-!
# Written JSON is read back

A value that is written over several lines is read back from its text, whatever follows it
(`readValue_writePretty`), if all of it is wanted, its numbers are natural and below the limit, and
it is not nested too deeply (`Readable`). So a whole text with blanks after the value gives the
value (`parseWanted_pretty`).
-/

set_option autoImplicit false

namespace Mutagenesis

/-- Only zero is written with a zero in front. -/
theorem Numeral.eq_zero_of_write {n : Nat} {cs : List Char} (h : Numeral.write n = '0' :: cs) :
    n = 0 := by
  induction n using Nat.strongRecOn generalizing cs with
  | ind n ih =>
    unfold Numeral.write at ih h
    by_cases hlt : n < 10
    · rw [Nat.toDigits_of_lt_base hlt] at h
      have hchar : ∀ m < 10, m.digitChar = '0' → m = 0 := by decide
      exact hchar n hlt (List.cons.inj h).1
    · rw [Nat.toDigits_of_base_le (by decide) (by omega)] at h
      obtain ⟨d, ds, hds⟩ :=
        List.exists_cons_of_ne_nil (Nat.toDigits_ne_nil (n := n / 10) (b := 10))
      rw [hds, List.cons_append] at h
      have hzero := ih (n / 10) (by omega) (hds.trans (by rw [(List.cons.inj h).1]))
      omega

namespace Json

/-! ## Strings -/

theorem hexValue4?_low :
    ∀ n < 32, hexValue4? '0' '0' (hexDigit (n / 16)) (hexDigit n) = some n := by
  decide

/-- A character inside a string is read back. -/
theorem readString_writeChar (c : Char) (cs : List Char) :
    readString (writeChar c ++ cs) = (do
      let (s, rest) ← readString cs
      return (c :: s, rest)) := by
  have hcode : ∀ n, c.toNat = n → c = Char.ofNat n := fun n h => by rw [← h, Char.ofNat_toNat]
  unfold writeChar
  split
  · next h => rw [h]; rfl
  split
  · next h => rw [h]; rfl
  split
  · next h => rw [h]; rfl
  split
  · next h => rw [h]; rfl
  split
  · next h => rw [h]; rfl
  split
  · next h => rw [hcode _ h]; rfl
  split
  · next h => rw [hcode _ h]; rfl
  split
  · next h =>
    simp only [List.cons_append, List.nil_append]
    rw [readString, if_neg (by decide), if_pos rfl]
    dsimp only
    rw [hexValue4?_low c.toNat h]
    dsimp only
    rw [if_neg (by omega), if_neg (by omega), Char.ofNat_toNat]
  · next hquote hslash _ _ _ _ _ hlow =>
    rw [List.cons_append, List.nil_append]
    conv => lhs; unfold readString
    rw [if_neg hquote, if_neg hslash, if_neg hlow]

/-- A string that is written is read back. -/
theorem readString_flatMap (s rest : List Char) :
    readString (s.flatMap writeChar ++ '"' :: rest) = .ok (s, rest) := by
  induction s with
  | nil =>
    rw [List.flatMap_nil, List.nil_append]
    unfold readString
    rw [if_pos rfl]
  | cons c s ih =>
    rw [List.flatMap_cons, List.append_assoc, readString_writeChar, ih]
    rfl

/-! ## Numbers -/

/-- A number ends in front of the text. -/
def EndsNumber (rest : List Char) : Prop :=
  ∀ c ∈ rest.head?, c.isDigit = false ∧ c ≠ '.' ∧ c ≠ 'e' ∧ c ≠ 'E'

/-- The digits at the start of a text are cut off. -/
theorem spanDigits_append {ds rest : List Char} (hds : ∀ c ∈ ds, c.isDigit = true)
    (hrest : EndsNumber rest) : spanDigits (ds ++ rest) = (ds, rest) := by
  have htake : rest.takeWhile Char.isDigit = [] ∧ rest.dropWhile Char.isDigit = rest := by
    cases rest with
    | nil => exact ⟨rfl, rfl⟩
    | cons c rest => simp [(hrest c rfl).1]
  unfold spanDigits
  rw [List.takeWhile_append_of_pos hds, List.dropWhile_append_of_pos hds, htake.1, htake.2,
    List.append_nil]

theorem readFraction_of_ends {rest : List Char} (h : EndsNumber rest) :
    readFraction rest = .ok (none, rest) := by
  unfold readFraction
  split
  · exact absurd rfl (h '.' rfl).2.1
  · rfl

theorem readExponent_of_ends (isZero : Bool) {rest : List Char} (h : EndsNumber rest) :
    readExponent isZero rest = .ok (none, rest) := by
  cases rest with
  | nil => rfl
  | cons c rest =>
    obtain ⟨-, -, he, hE⟩ := h c rfl
    unfold readExponent
    dsimp only
    rw [if_neg (by simp [he, hE])]

/-- A natural number below the limit is read back, if what follows it does not belong to it. -/
theorem readNumber_write {n : Nat} (hn : n < Numeral.limit) {rest : List Char}
    (hrest : EndsNumber rest) :
    readNumber (Numeral.write n ++ rest) = .ok (.integer n, rest) := by
  have hdigits : ∀ c ∈ Numeral.write n, c.isDigit = true := fun c => Numeral.isDigit_of_mem_write
  have hvalue : Numeral.digitsValue? 0 (Numeral.write n) = some n := by
    rw [Numeral.digitsValue?_of_digits hdigits]
    exact congrArg some Nat.ofDigitChars_ten_toDigits
  have hwhole : wholeNumber? false (Numeral.write n) = some (.integer n) := by
    simp [wholeNumber?, hvalue, hn]
  have hparts : readUnsigned.parts false (Numeral.write n ++ rest) = .ok (.integer n, rest) := by
    unfold readUnsigned.parts
    rw [spanDigits_append hdigits hrest]
    dsimp only
    rw [if_neg (by simp [Numeral.write_ne_nil]), readFraction_of_ends hrest]
    dsimp only [bind, Except.bind]
    rw [readExponent_of_ends _ hrest]
    dsimp only
    rw [hwhole]
  obtain ⟨d, ds, hds⟩ := List.exists_cons_of_ne_nil (Numeral.write_ne_nil n)
  have hd : d.isDigit = true := hdigits d (by rw [hds]; exact List.mem_cons_self)
  rw [hds, List.cons_append] at hparts ⊢
  have hsign : readNumber (d :: (ds ++ rest)) = readUnsigned false (d :: (ds ++ rest)) := by
    unfold readNumber
    split
    · next heq =>
      rw [(List.cons.inj heq).1] at hd
      exact absurd hd (by decide)
    · rfl
  rw [hsign]
  unfold readUnsigned
  split
  · next c more heq =>
    -- A leading zero is the only digit.
    obtain ⟨rfl, hmore⟩ := List.cons.inj heq
    have hzero := Numeral.eq_zero_of_write hds
    rw [hzero, LineDiff.write_zero] at hds
    obtain rfl : ds = [] := ((List.cons.inj hds).2).symm
    rw [List.nil_append] at hmore
    subst hmore
    rw [if_neg (by simp [(hrest c rfl).1])]
    exact hparts
  · exact hparts

/-! ## Blanks -/

/-- Blanks at the start are skipped. -/
theorem skipSpace_append {blanks cs : List Char} (h : ∀ c ∈ blanks, isSpace c = true) :
    skipSpace (blanks ++ cs) = skipSpace cs :=
  List.dropWhile_append_of_pos h

theorem isSpace_of_mem_newLine {level : Nat} {c : Char} (h : c ∈ newLine level) :
    isSpace c = true := by
  rcases List.mem_cons.mp h with rfl | h
  · rfl
  · rw [List.eq_of_mem_replicate h]
    rfl

theorem skipSpace_newLine {level : Nat} {c : Char} {cs : List Char} (h : isSpace c = false) :
    skipSpace (newLine level ++ c :: cs) = c :: cs := by
  rw [skipSpace_append fun _ => isSpace_of_mem_newLine, skipSpace, List.dropWhile_cons_of_neg]
  simp [h]

/-! ## Values -/

mutual

/-- The value can be read back from its text: all of it is wanted, its numbers are natural and below
the limit, and it is nested less than `depth` deep. -/
def Readable (want : Want) (depth : Nat) : Json → Prop
  | .number (.integer n) => ∃ k : Nat, n = k ∧ k < Numeral.limit
  | .number (.real _) => False
  | .array items => 1 < depth ∧ ReadableItems want 0 (depth - 1) items
  | .object fields => 1 < depth ∧ ReadableFields want (depth - 1) fields
  | _ => True

/-- The items of an array from `index` on can be read back. -/
def ReadableItems (want : Want) (index depth : Nat) : List Json → Prop
  | [] => True
  | item :: rest =>
    Readable (want.item index) depth item ∧ ReadableItems want (index + 1) depth rest

/-- The fields of an object can be read back. -/
def ReadableFields (want : Want) (depth : Nat) : List (String × Json) → Prop
  | [] => True
  | (name, value) :: rest =>
    (∃ w, want.field? name = some w ∧ Readable w depth value) ∧ ReadableFields want depth rest

end

/-- Items of a list can be read if each one can. -/
theorem readableItems_list {want : Want} {index depth : Nat} {items : List Json}
    (h : ∀ item ∈ items, Readable want depth item) :
    ReadableItems (.list want) index depth items := by
  induction items generalizing index with
  | nil => trivial
  | cons item rest ih =>
    exact ⟨h item List.mem_cons_self, ih fun j hj => h j (List.mem_cons_of_mem _ hj)⟩

/-- Fields can be read if each one can. -/
theorem readableFields_of_forall {want : Want} {depth : Nat} {fields : List (String × Json)}
    (h : ∀ f ∈ fields, ∃ w, want.field? f.1 = some w ∧ Readable w depth f.2) :
    ReadableFields want depth fields := by
  induction fields with
  | nil => trivial
  | cons f rest ih =>
    exact ⟨h f List.mem_cons_self, ih fun g hg => h g (List.mem_cons_of_mem _ hg)⟩

/-- The first character of a written value. -/
theorem writePretty_head {want : Want} {depth : Nat} (level : Nat) {j : Json}
    (h : Readable want depth j) : ∃ c cs, writePretty level j = c :: cs ∧ isSpace c = false ∧
      c ≠ ']' ∧ c ≠ '}' := by
  match j with
  | .null => exact ⟨'n', _, rfl, by decide⟩
  | .bool true => exact ⟨'t', _, rfl, by decide⟩
  | .bool false => exact ⟨'f', _, rfl, by decide⟩
  | .string s => exact ⟨'"', _, rfl, by decide⟩
  | .array [] => exact ⟨'[', _, rfl, by decide⟩
  | .array (item :: rest) => exact ⟨'[', _, rfl, by decide⟩
  | .object [] => exact ⟨'{', _, rfl, by decide⟩
  | .object ((name, value) :: rest) => exact ⟨'{', _, rfl, by decide⟩
  | .number (.integer n) =>
    obtain ⟨k, rfl, -⟩ := h
    obtain ⟨d, ds, hds⟩ := List.exists_cons_of_ne_nil (Numeral.write_ne_nil k)
    have hd : d.isDigit = true :=
      Numeral.isDigit_of_mem_write (by rw [hds]; exact List.mem_cons_self)
    refine ⟨d, ds, ?_, ?_⟩
    · rw [writePretty, writeScalar, writeNumber, if_neg (by omega), Int.natAbs_natCast, hds]
      all_goals nofun
    · have hne : ∀ c : Char, c.isDigit = false → d ≠ c := fun c hc heq => by simp [heq, hc] at hd
      exact ⟨by simp [isSpace, hne ' ' rfl, hne '\n' rfl, hne '\t' rfl, hne '\r' rfl],
        hne ']' rfl, hne '}' rfl⟩

theorem endsNumber_newLine (level : Nat) (cs : List Char) : EndsNumber (newLine level ++ cs) := by
  intro c hc
  obtain rfl : '\n' = c := by simpa [newLine] using hc
  decide

theorem endsNumber_comma (cs : List Char) : EndsNumber (',' :: cs) := by
  intro c hc
  obtain rfl : ',' = c := by simpa using hc
  decide

theorem endsNumber_items (level level' : Nat) (items : List Json) (cs : List Char) :
    EndsNumber (writePrettyItems level items ++ (newLine level' ++ cs)) := by
  cases items with
  | nil => exact endsNumber_newLine level' cs
  | cons item rest => exact endsNumber_comma _

theorem endsNumber_fields (level level' : Nat) (fields : List (String × Json)) (cs : List Char) :
    EndsNumber (writePrettyFields level fields ++ (newLine level' ++ cs)) := by
  cases fields with
  | nil => exact endsNumber_newLine level' cs
  | cons f rest => exact endsNumber_comma _

section

variable {want : Want} {depth steps level : Nat} {c : Char} {cs rest : List Char}

theorem depthInside?_true (h : 1 < depth) : depthInside? true depth = some (depth - 1) := by
  rw [depthInside?, if_pos rfl, if_neg (by omega)]

/-- The first item of an array is read after the bracket and blanks. -/
theorem readValue_bracket (hdepth : 1 < depth) (hskip : skipSpace cs = c :: rest) (hc : c ≠ ']') :
    readValue (some want) depth (steps + 1) ('[' :: cs) = (do
      let (first, rest) ← readValue (some (want.item 0)) (depth - 1) steps (c :: rest)
      let (items, rest) ← readItems (some want) 1 (depth - 1) steps rest
      return (.array (first :: items), rest)) := by
  rw [readValue, show skipSpace ('[' :: cs) = '[' :: cs from rfl]
  dsimp only
  rw [if_neg (by decide), if_pos rfl, Option.isSome_some, depthInside?_true hdepth]
  dsimp only
  rw [hskip]
  split
  · next heq => cases heq
  · next heq => exact absurd (List.cons.inj heq).1 hc
  · rfl

/-- The first field of an object is read after the brace and blanks. -/
theorem readValue_brace (hdepth : 1 < depth) (hskip : skipSpace cs = c :: rest) (hc : c ≠ '}') :
    readValue (some want) depth (steps + 1) ('{' :: cs) = (do
      let (first, rest) ← readField (some want) (depth - 1) steps (c :: rest)
      let (fields, rest) ← readFields (some want) (depth - 1) steps rest
      return (.object (first :: fields), rest)) := by
  rw [readValue, show skipSpace ('{' :: cs) = '{' :: cs from rfl]
  dsimp only
  rw [if_neg (by decide), if_neg (by decide), if_pos rfl, Option.isSome_some,
    depthInside?_true hdepth]
  dsimp only
  rw [hskip]
  split
  · next heq => cases heq
  · next heq => exact absurd (List.cons.inj heq).1 hc
  · rfl

/-- After a comma comes an item. -/
theorem readItems_comma {index : Nat} (hskip : skipSpace cs = c :: rest) (hc : c ≠ ']') :
    readItems (some want) index depth (steps + 1) (',' :: cs) = (do
      let (item, rest) ← readValue (some (want.item index)) depth steps (c :: rest)
      let (items, rest) ← readItems (some want) (index + 1) depth steps rest
      return (item :: items, rest)) := by
  rw [readItems, show skipSpace (',' :: cs) = ',' :: cs from rfl]
  split
  · next heq => cases heq
  · next heq => exact absurd (List.cons.inj heq).1 (by decide)
  · next heq =>
    rw [← (List.cons.inj heq).2, hskip]
    split
    · next heq => cases heq
    · next heq => exact absurd (List.cons.inj heq).1 hc
    · rfl
  · next hno => exact absurd rfl (hno cs)

/-- After a comma comes a field. -/
theorem readFields_comma (hskip : skipSpace cs = c :: rest) (hc : c ≠ '}') :
    readFields (some want) depth (steps + 1) (',' :: cs) = (do
      let (field, rest) ← readField (some want) depth steps (c :: rest)
      let (fields, rest) ← readFields (some want) depth steps rest
      return (field :: fields, rest)) := by
  rw [readFields, show skipSpace (',' :: cs) = ',' :: cs from rfl]
  split
  · next heq => cases heq
  · next heq => exact absurd (List.cons.inj heq).1 (by decide)
  · next heq =>
    rw [← (List.cons.inj heq).2, hskip]
    split
    · next heq => cases heq
    · next heq => exact absurd (List.cons.inj heq).1 hc
    · rfl
  · next hno => exact absurd rfl (hno cs)

/-- A bracket ends the items. -/
theorem readItems_end {index : Nat} :
    readItems (some want) index depth (steps + 1) (newLine level ++ ']' :: rest) =
      .ok ([], rest) := by
  rw [readItems, skipSpace_newLine rfl]
  rfl

/-- A brace ends the fields. -/
theorem readFields_end :
    readFields (some want) depth (steps + 1) (newLine level ++ '}' :: rest) = .ok ([], rest) := by
  rw [readFields, skipSpace_newLine rfl]
  rfl

theorem readStringIf_true (s : String) :
    readStringIf true (s.toList.flatMap writeChar ++ '"' :: rest) = .ok (s, rest) := by
  rw [readStringIf, if_pos rfl, readString_flatMap]
  dsimp only [bind, Except.bind, pure, Except.pure]
  rw [String.ofList_toList]

/-- A field is read back if its value is, from the blank in front of it on. -/
theorem readField_writeString {name : String} {w : Want} {value : Json}
    (hwant : want.field? name = some w)
    (hvalue : readValue (some w) depth steps (' ' :: cs) = .ok (value, rest)) :
    readField (some want) depth (steps + 1) (writeString name ++ ':' :: ' ' :: cs) =
      .ok ((name, value), rest) := by
  have hvalue' : readValue ((some want).bind (·.field? name)) depth steps (' ' :: cs) =
      .ok (value, rest) := by rw [Option.bind_some, hwant, hvalue]
  unfold writeString
  rw [List.append_assoc, List.cons_append, List.singleton_append, readField, Option.isSome_some,
    readStringIf_true]
  change (readValue ((some want).bind (·.field? name)) depth steps (' ' :: cs) >>= fun p =>
    pure ((name, p.1), p.2)) = _
  rw [hvalue']
  rfl

/-- A blank in front of a value does not matter. -/
theorem readValue_blank :
    readValue (some want) depth (steps + 1) (' ' :: cs) =
      readValue (some want) depth (steps + 1) cs := by
  rw [readValue]
  conv => rhs; rw [readValue.eq_def]
  rfl

/-- A string is read back. -/
theorem readValue_string (s : String) :
    readValue (some want) depth (steps + 1) (writeString s ++ rest) = .ok (.string s, rest) := by
  unfold writeString
  rw [List.append_assoc, List.cons_append, List.singleton_append, readValue,
    show ∀ cs, skipSpace ('"' :: cs) = '"' :: cs from fun _ => rfl]
  dsimp only
  rw [if_pos rfl, Option.isSome_some, readStringIf_true]
  rfl

/-- A number that is written is read back, if the text goes on so that it ends. -/
theorem readValue_number {k : Nat} (hk : k < Numeral.limit) (hrest : EndsNumber rest) :
    readValue (some want) depth (steps + 1) (Numeral.write k ++ rest) =
      .ok (.number (.integer k), rest) := by
  have hread := readNumber_write hk hrest
  obtain ⟨d, ds, hds⟩ := List.exists_cons_of_ne_nil (Numeral.write_ne_nil k)
  have hd : d.isDigit = true := Numeral.isDigit_of_mem_write (by rw [hds]; exact List.mem_cons_self)
  have hne : ∀ c : Char, c.isDigit = false → d ≠ c := fun c hc heq => by simp [heq, hc] at hd
  have hspace : isSpace d = false := by
    simp [isSpace, hne ' ' rfl, hne '\n' rfl, hne '\t' rfl, hne '\r' rfl]
  rw [hds, List.cons_append] at hread ⊢
  rw [readValue, show skipSpace (d :: (ds ++ rest)) = d :: (ds ++ rest) from
    List.dropWhile_cons_of_neg (by simp [hspace])]
  dsimp only
  rw [if_neg (hne '"' rfl), if_neg (hne '[' rfl), if_neg (hne '{' rfl), if_neg (hne 'n' rfl),
    if_neg (hne 't' rfl), if_neg (hne 'f' rfl), if_pos (Or.inr hd), Option.isSome_some,
    readNumberIf, if_pos rfl, hread]
  rfl

end

mutual

/-- A written value is read back, if a number at its end ends there. -/
theorem readValue_writePretty (want : Want) (depth level steps : Nat) (rest : List Char) :
    (j : Json) → Readable want depth j → EndsNumber rest →
    (writePretty level j).length ≤ steps + 1 →
      readValue (some want) depth (steps + 1) (writePretty level j ++ rest) = .ok (j, rest)
  | .null, _, _, _ => rfl
  | .bool true, _, _, _ => rfl
  | .bool false, _, _, _ => rfl
  | .string s, _, _, _ => readValue_string s
  | .number (.integer n), h, hrest, _ => by
    obtain ⟨k, rfl, hk⟩ := h
    have hwrite : writePretty level (.number (.integer k)) = Numeral.write k := by
      rw [writePretty, writeScalar, writeNumber, if_neg (by omega), Int.natAbs_natCast]
      all_goals nofun
    rw [hwrite]
    exact readValue_number hk hrest
  | .array [], h, _, _ => by
    rw [writePretty, List.cons_append, List.singleton_append, readValue,
      show ∀ cs, skipSpace ('[' :: cs) = '[' :: cs from fun _ => rfl]
    dsimp only
    rw [if_neg (by decide), if_pos rfl, Option.isSome_some, depthInside?_true h.1]
    rfl
  | .array (item :: items), h, _, hsteps => by
    rw [writePretty] at hsteps ⊢
    simp only [List.append_assoc, List.cons_append, List.length_cons, List.length_append,
      List.nil_append, List.length_nil] at hsteps ⊢
    obtain ⟨c, cs, hitem, hspace, hc, -⟩ := writePretty_head (level + 1) h.2.1
    obtain ⟨n, rfl⟩ : ∃ n, steps = n + 1 := Nat.exists_eq_succ_of_ne_zero (by omega)
    have hfirst := readValue_writePretty (want.item 0) (depth - 1) (level + 1) n
      (writePrettyItems (level + 1) items ++ (newLine level ++ ']' :: rest)) item h.2.1
      (endsNumber_items _ _ _ _) (by omega)
    have hitems := readItems_writePretty want 1 (depth - 1) (level + 1) level (n + 1) rest items
      h.2.2 (by omega)
    rw [hitem, List.cons_append] at hfirst ⊢
    rw [readValue_bracket h.1 (skipSpace_newLine hspace) hc, hfirst]
    dsimp only [bind, Except.bind]
    rw [hitems]
    rfl
  | .object [], h, _, _ => by
    rw [writePretty, List.cons_append, List.singleton_append, readValue,
      show ∀ cs, skipSpace ('{' :: cs) = '{' :: cs from fun _ => rfl]
    dsimp only
    rw [if_neg (by decide), if_neg (by decide), if_pos rfl, Option.isSome_some,
      depthInside?_true h.1]
    rfl
  | .object ((name, value) :: fields), h, _, hsteps => by
    rw [writePretty] at hsteps ⊢
    simp only [List.append_assoc, List.cons_append, List.length_cons, List.length_append,
      List.nil_append, List.length_nil] at hsteps ⊢
    obtain ⟨w, hwant, hvalue⟩ := h.2.1
    obtain ⟨n, rfl⟩ : ∃ n, steps = n + 1 + 1 := ⟨steps - 2, by omega⟩
    have hfirst := readValue_writePretty w (depth - 1) (level + 1) n
      (writePrettyFields (level + 1) fields ++ (newLine level ++ '}' :: rest)) value hvalue
      (endsNumber_fields _ _ _ _) (by omega)
    have hfield := readField_writeString hwant (readValue_blank.trans hfirst)
    have hfields := readFields_writePretty want (depth - 1) (level + 1) level (n + 1 + 1) rest
      fields h.2.2 (by omega)
    rw [writeString, List.cons_append, List.cons_append] at hfield ⊢
    rw [readValue_brace h.1 (skipSpace_newLine rfl) (by decide), hfield]
    dsimp only [bind, Except.bind]
    rw [hfields]
    rfl

/-- The items of an array after the first ones are read back. -/
theorem readItems_writePretty (want : Want) (index depth level level' steps : Nat)
    (rest : List Char) : (items : List Json) → ReadableItems want index depth items →
      (writePrettyItems level items).length + 1 ≤ steps →
      readItems (some want) index depth steps
        (writePrettyItems level items ++ (newLine level' ++ ']' :: rest)) = .ok (items, rest)
  | [], _, hsteps => by
    obtain ⟨n, rfl⟩ : ∃ n, steps = n + 1 := Nat.exists_eq_succ_of_ne_zero (by omega)
    exact readItems_end
  | item :: items, h, hsteps => by
    rw [writePrettyItems] at hsteps ⊢
    simp only [List.append_assoc, List.cons_append, List.length_cons, List.length_append]
      at hsteps ⊢
    obtain ⟨c, cs, hitem, hspace, hc, -⟩ := writePretty_head level h.1
    obtain ⟨n, rfl⟩ : ∃ n, steps = n + 2 := ⟨steps - 2, by omega⟩
    have hfirst := readValue_writePretty (want.item index) depth level n
      (writePrettyItems level items ++ (newLine level' ++ ']' :: rest)) item h.1
      (endsNumber_items _ _ _ _) (by omega)
    have hitems := readItems_writePretty want (index + 1) depth level level' (n + 1) rest items
      h.2 (by omega)
    rw [hitem, List.cons_append] at hfirst ⊢
    rw [readItems_comma (skipSpace_newLine hspace) hc, hfirst]
    dsimp only [bind, Except.bind]
    rw [hitems]
    rfl

/-- The fields of an object after the first ones are read back. -/
theorem readFields_writePretty (want : Want) (depth level level' steps : Nat) (rest : List Char) :
    (fields : List (String × Json)) → ReadableFields want depth fields →
      (writePrettyFields level fields).length + 1 ≤ steps →
      readFields (some want) depth steps
        (writePrettyFields level fields ++ (newLine level' ++ '}' :: rest)) = .ok (fields, rest)
  | [], _, hsteps => by
    obtain ⟨n, rfl⟩ : ∃ n, steps = n + 1 := Nat.exists_eq_succ_of_ne_zero (by omega)
    exact readFields_end
  | (name, value) :: fields, h, hsteps => by
    rw [writePrettyFields] at hsteps ⊢
    simp only [List.append_assoc, List.cons_append, List.length_cons, List.length_append,
      List.nil_append] at hsteps ⊢
    obtain ⟨w, hwant, hvalue⟩ := h.1
    obtain ⟨n, rfl⟩ : ∃ n, steps = n + 1 + 1 + 1 := ⟨steps - 3, by omega⟩
    have hfirst := readValue_writePretty w depth level n
      (writePrettyFields level fields ++ (newLine level' ++ '}' :: rest)) value hvalue
      (endsNumber_fields _ _ _ _) (by omega)
    have hfield := readField_writeString hwant (readValue_blank.trans hfirst)
    have hfields := readFields_writePretty want depth level level' (n + 1 + 1) rest fields h.2
      (by omega)
    rw [writeString, List.cons_append, List.cons_append] at hfield ⊢
    rw [readFields_comma (skipSpace_newLine rfl) (by decide), hfield]
    dsimp only [bind, Except.bind]
    rw [hfields]
    rfl

end

/-- A text that is a written value and blanks is read as the value. -/
theorem parseWanted_pretty {want : Want} {j : Json} (h : Readable want depthLimit j)
    {blanks : List Char} (hblanks : ∀ c ∈ blanks, isSpace c = true) :
    parseWanted want (writePretty 0 j ++ blanks) = .ok j := by
  have hends : EndsNumber blanks := by
    intro c hc
    have hspace := hblanks c (List.mem_of_mem_head? hc)
    simp only [isSpace, Bool.or_eq_true, beq_iff_eq] at hspace
    rcases hspace with ((rfl | rfl) | rfl) | rfl <;> decide
  have hnone : skipSpace blanks = [] := by
    have hskip : skipSpace (blanks ++ []) = [] := skipSpace_append hblanks
    rwa [List.append_nil] at hskip
  unfold parseWanted
  rw [readValue_writePretty want depthLimit 0 _ blanks j h hends
    (by rw [List.length_append]; omega)]
  dsimp only
  rw [hnone]

end Json

/-- What a document gives was decoded from a value. -/
theorem decodeDocument_ok {α : Type} {path text : String} {want : Json.Want}
    {decode : Json.Decoder α} {a : α} (h : decodeDocument path text want decode = .ok a) :
    ∃ j, decode j = .ok a := by
  unfold decodeDocument at h
  split at h
  · cases h
  · split at h
    · next hdecode =>
      cases h
      exact ⟨_, hdecode⟩
    · cases h

/-- A document that is a written value and blanks gives what its value is decoded to. -/
theorem decodeDocument_pretty {α : Type} {want : Json.Want} {decode : Json.Decoder α} {j : Json}
    {a : α} (h : Json.Readable want Json.depthLimit j) (hdecode : decode j = .ok a) (path : String)
    {blanks : String} (hblanks : ∀ c ∈ blanks.toList, Json.isSpace c = true) :
    decodeDocument path (j.pretty ++ blanks) want decode = .ok a := by
  rw [decodeDocument, Json.pretty, String.toList_append, String.toList_ofList,
    Json.parseWanted_pretty h hblanks]
  dsimp only
  rw [hdecode]

end Mutagenesis
