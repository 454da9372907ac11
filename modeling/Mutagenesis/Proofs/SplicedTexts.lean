import Mutagenesis.Installation
import Mutagenesis.MemoryStore
import Mutagenesis.Proofs.Action
import Mutagenesis.Proofs.ConflictResolution
import Mutagenesis.Proofs.LineIndex

/-!
# Applying replacements is editing from the end

The replacements that are kept go into the text in one pass from the start. The same comes out when
they are put in one after the other, from the last to the first, each at the offsets that its ends
have in the original text (`spliceFrom_edits`). The pass fails only if an end is no position of the
text, and never because of the order of the offsets. All this needs columns that are not so large
that offsets wrap around: a column that does may be taken for a place far before it.
-/

set_option autoImplicit false

namespace Mutagenesis

open Text (byteLength)

namespace SourceText

open Location (endOf)
open Replacement (ConflictFree resolve)

/-- A text with another one in the place of its bytes from one offset up to another; none unless
both are character boundaries in order. -/
def replaceRange? (text : List Char) (start stop : Nat) (new : List Char) : Option (List Char) :=
  if stop < start then none
  else do
    let (before, rest) ← Text.splitAtByte? start text
    let (_, after) ← Text.splitAtByte? (stop - start) rest
    return before ++ new ++ after

/-- A text after one more edit, at the offsets that the ends of the replacement have in the original
text. -/
def edit? (original : List Char) (r : Replacement) (current : List Char) : Option (List Char) := do
  let start ← (offset original r.start).toOption
  let stop ← (offset original r.stop).toOption
  replaceRange? current start stop r.text.toList

/-- Both ends of the replacement are positions of the text. -/
def HasEnds (text : List Char) (r : Replacement) : Prop :=
  IsPosition text r.start ∧ IsPosition text r.stop

/-- Neither column of the replacement is too large for an offset. -/
def FitsBoth (text : List Char) (r : Replacement) : Prop :=
  Fits text r.start ∧ Fits text r.stop

instance (text : List Char) (r : Replacement) : Decidable (FitsBoth text r) :=
  inferInstanceAs (Decidable (_ ∧ _))

theorem replaceRange?_append (before middle after new : List Char) :
    replaceRange? (before ++ middle ++ after) (byteLength before) (byteLength (before ++ middle))
      new = some (before ++ new ++ after) := by
  have hlength : byteLength (before ++ middle) - byteLength before = byteLength middle := by simp
  rw [replaceRange?, if_neg (by simp), List.append_assoc, Text.splitAtByte?_append, hlength]
  simp only [Option.bind_eq_bind, Option.bind_some, Text.splitAtByte?_append]
  rfl

variable {text : List Char} {r : Replacement}

theorem edit?_eq {original : List Char} {start stop : Nat}
    (hstart : offset original r.start = .ok start) (hstop : offset original r.stop = .ok stop)
    (current : List Char) :
    edit? original r current = replaceRange? current start stop r.text.toList := by
  rw [edit?, hstart, hstop]
  rfl

/-- A position at or after the end of a first part of the text ends a longer first part. -/
theorem exists_more {done todo : List Char} {l : Location} (h : IsPosition (done ++ todo) l)
    (hle : endOf done ≤ l) :
    ∃ more rest, todo = more ++ rest ∧ endOf (done ++ more) = l := by
  obtain ⟨before, after, htext, hl⟩ := h
  rcases List.append_eq_append_iff.mp htext with ⟨more, rfl, htodo⟩ | ⟨more, rfl, hafter⟩
  · exact ⟨more, after, htodo, hl⟩
  · obtain rfl : more = [] := by
      by_contra hmore
      have hlt := Location.endOf_lt_append before hmore
      rw [hl] at hlt
      exact Std.not_lt.mpr hle hlt
    exact ⟨[], todo, rfl, by simpa using hl⟩

theorem spliceFrom_cons {cursor start stop : Nat} (hstart : offset text r.start = .ok start)
    (hstop : offset text r.stop = .ok stop) (hcursor : cursor ≤ start) (hordered : start ≤ stop)
    (rest : List Replacement) :
    spliceFrom text cursor (r :: rest) =
      (spliceFrom text stop rest).map (between text cursor start ++ r.text.toList ++ ·) := by
  rw [spliceFrom, hstart, hstop]
  simp only [formatted, bind, Except.bind, if_neg (show ¬(start < cursor ∨ stop < start) by omega)]
  cases spliceFrom text stop rest <;> rfl

/-- An end that is no position ends the pass. -/
theorem spliceFrom_of_no_end (hfits : FitsBoth text r) (h : ¬HasEnds text r) (cursor : Nat)
    (rest : List Replacement) : ∃ fault,
      spliceFrom text cursor (r :: rest) = .error (.badFormat (.position fault)) := by
  rw [HasEnds, ← exists_offset_iff hfits.1, ← exists_offset_iff hfits.2] at h
  cases hstart : offset text r.start with
  | error fault =>
    refine ⟨fault, ?_⟩
    rw [spliceFrom, hstart]
    rfl
  | ok start =>
    cases hstop : offset text r.stop with
    | error fault =>
      refine ⟨fault, ?_⟩
      rw [spliceFrom, hstart, hstop]
      rfl
    | ok stop => exact absurd ⟨⟨start, hstart⟩, stop, hstop⟩ h

/-- From the end of a first part of the text on, the pass gives what the edits from the last to the
first make of the rest, or comes to an end that is no position. -/
theorem spliceFrom_edits {done todo : List Char} {rs : List Replacement}
    (hordered : ∀ r ∈ rs, r.start ≤ r.stop) (hfits : ∀ r ∈ rs, FitsBoth (done ++ todo) r)
    (hfree : ConflictFree rs)
    (hfrom : ∀ r ∈ rs, IsPosition (done ++ todo) r.start → endOf done ≤ r.start) :
    (∃ out, spliceFrom (done ++ todo) (byteLength done) rs = .ok out ∧
      rs.foldrM (edit? (done ++ todo)) (done ++ todo) = some (done ++ out) ∧
      ∀ r ∈ rs, HasEnds (done ++ todo) r) ∨
    (∃ fault, spliceFrom (done ++ todo) (byteLength done) rs =
        .error (.badFormat (.position fault)) ∧
      ∃ r ∈ rs, ¬HasEnds (done ++ todo) r) := by
  induction rs generalizing done todo with
  | nil =>
    refine Or.inl ⟨todo, congrArg Except.ok ?_, rfl, nofun⟩
    simpa using between_append done todo []
  | cons r rest ih =>
    obtain ⟨hr, hrest⟩ := List.forall_mem_cons.mp hordered
    obtain ⟨hfitsFirst, hfitsRest⟩ := List.forall_mem_cons.mp hfits
    obtain ⟨hlater, hfree⟩ := List.pairwise_cons.mp hfree
    by_cases hends : HasEnds (done ++ todo) r
    · obtain ⟨skipped, todo, rfl, hskipped⟩ :=
        exists_more hends.1 (hfrom r List.mem_cons_self hends.1)
      rw [← List.append_assoc] at hends hfitsRest ⊢
      obtain ⟨covered, todo, rfl, hcovered⟩ := exists_more hends.2 (hskipped ▸ hr)
      have hstart := hskipped ▸ offset_endOf (done ++ skipped) (covered ++ todo)
      have hstop := hcovered ▸ offset_endOf (done ++ skipped ++ covered) todo
      rw [← List.append_assoc] at hstart hends hfitsRest ⊢
      have hbetween := between_append done skipped (covered ++ todo)
      rw [← List.append_assoc] at hbetween
      rw [spliceFrom_cons hstart hstop (by simp) (by simp), hbetween]
      have hlater : ∀ x ∈ rest, endOf (done ++ skipped ++ covered) ≤ x.start := hcovered ▸ hlater
      rcases ih hrest hfitsRest hfree (fun x hx _ => hlater x hx) with
        ⟨out, hout, hedits, hall⟩ | ⟨fault, hfault, hsome⟩
      · refine Or.inl ⟨skipped ++ r.text.toList ++ out, ?_, ?_, ?_⟩
        · rw [hout]
          rfl
        · have hedit := edit?_eq hstart hstop (done ++ skipped ++ covered ++ out)
          rw [replaceRange?_append] at hedit
          rw [List.foldrM_cons, hedits, Option.bind_eq_bind, Option.bind_some, hedit]
          simp only [List.append_assoc]
        · exact List.forall_mem_cons.mpr ⟨hends, hall⟩
      · refine Or.inr ⟨fault, ?_, List.exists_mem_cons_of_exists hsome⟩
        rw [hfault]
        rfl
    · obtain ⟨fault, hfault⟩ := spliceFrom_of_no_end hfitsFirst hends (byteLength done) rest
      exact Or.inr ⟨fault, hfault, r, List.mem_cons_self, hends⟩

/-- What is cut out of a text stands in it between the offsets. -/
theorem append_of_slice? {text middle : List Char} {start stop : Nat}
    (h : slice? text start stop = some middle) : ∃ before after,
      text = before ++ middle ++ after ∧ byteLength before = start ∧
        byteLength (before ++ middle) = stop := by
  unfold slice? at h
  split at h
  · cases h
  next hle =>
  split at h
  · cases h
  next before rest hsplit =>
  obtain ⟨⟨_, after⟩, hrest, rfl⟩ := Option.map_eq_some_iff.mp h
  obtain ⟨rfl, hbefore⟩ := append_of_splitAtByte? hsplit
  obtain ⟨rfl, hmiddle⟩ := append_of_splitAtByte? hrest
  refine ⟨before, after, by simp, hbefore, ?_⟩
  rw [Text.byteLength_append, hbefore, hmiddle]
  omega

/-- An edit that puts in what is there changes nothing. -/
theorem edit?_of_chars (h : chars text r.location = .ok r.text.toList) :
    (FitsBoth text r → HasEnds text r) ∧ edit? text r text = some text := by
  obtain ⟨start, hstart, h⟩ := Except.bind_eq_ok_iff.mp h
  obtain ⟨stop, hstop, h⟩ := Except.bind_eq_ok_iff.mp h
  refine ⟨fun hfits => ⟨(exists_offset_iff hfits.1).mp ⟨start, hstart⟩,
    (exists_offset_iff hfits.2).mp ⟨stop, hstop⟩⟩, ?_⟩
  split at h
  next covered hcovered =>
    cases h
    obtain ⟨before, after, htext, rfl, rfl⟩ := append_of_slice? hcovered
    rw [edit?_eq hstart hstop]
    conv_lhs => rw [htext]
    rw [replaceRange?_append, ← htext]
  next => cases h

/-- The replacements kept from a list go into a text as the edits from the last to the first do, or
one of their ends is no position. -/
theorem splice_edits (text : List Char) {rs : List Replacement}
    (hordered : ∀ r ∈ rs, r.start ≤ r.stop) (hfits : ∀ r ∈ resolve rs, FitsBoth text r) :
    (∃ out, splice text rs = .ok out ∧ (resolve rs).foldrM (edit? text) text = some out ∧
      ∀ r ∈ resolve rs, HasEnds text r) ∨
    (∃ fault, splice text rs = .error (.badFormat (.position fault)) ∧
      ∃ r ∈ resolve rs, ¬HasEnds text r) := by
  have hfrom : ∀ r ∈ resolve rs, IsPosition ([] ++ text) r.start → endOf [] ≤ r.start := by
    rintro r - ⟨before, after, -, hstart⟩
    rw [← hstart]
    exact Location.le_foldl_next before _
  have hfits : ∀ r ∈ resolve rs, FitsBoth ([] ++ text) r := hfits
  exact spliceFrom_edits (fun r hr => hordered r (Replacement.mem_of_mem_resolve hr)) hfits
    (Replacement.conflictFree_resolve rs) hfrom

theorem foldrM_edit?_of_chars {rs : List Replacement}
    (h : ∀ r ∈ rs, chars text r.location = .ok r.text.toList) :
    rs.foldrM (edit? text) text = some text := by
  induction rs with
  | nil => rfl
  | cons r rest ih =>
    obtain ⟨hr, hrest⟩ := List.forall_mem_cons.mp h
    rw [List.foldrM_cons, ih hrest]
    exact (edit?_of_chars hr).2

end SourceText

namespace Installation

open Replacement (resolve)
open SourceText (FitsBoth HasEnds chars edit?)

namespace SpliceSample

def base : Snapshot := { name := "base", image := "image" }

def text : String := "é\nab\ncd\n"

def session : Session MemoryStore where
  store := { snapshots := [], images := [] }
  sources := [⟨"base", "f.c", text⟩]

def installation : Installation MemoryStore :=
  { catalogue := .empty, matcher := Template.matcher, backend := MemoryStore.backend }

/-- The third one starts inside the second, and its stop is no position of the text. -/
def replacements : List Replacement :=
  [⟨⟨"f.c", ⟨2, 2⟩, ⟨3, 1⟩⟩, "Z"⟩, ⟨⟨"f.c", ⟨1, 0⟩, ⟨2, 1⟩⟩, "X"⟩, ⟨⟨"f.c", ⟨1, 2⟩, ⟨9, 9⟩⟩, "W"⟩,
    ⟨⟨"f.c", ⟨2, 1⟩, ⟨2, 1⟩⟩, "Y"⟩]

end SpliceSample

namespace SpliceSample

def twoLines : Session MemoryStore where
  store := { snapshots := [], images := [] }
  sources := [⟨"base", "f.c", "ab\ncd"⟩]

/-- The column of the stop is two less than the limit of words, on a line that starts after three
bytes. -/
def wrapping (start : Location) : Replacement :=
  ⟨⟨"f.c", start, ⟨2, 18446744073709551614⟩⟩, "x"⟩

end SpliceSample

end Installation

end Mutagenesis
