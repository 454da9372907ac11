import Mathlib.Data.List.Basic
import Mathlib.Data.List.TakeWhile
import Mutagenesis.Proofs.Action
import Mutagenesis.Proofs.Fragments
import Mutagenesis.Proofs.TemplateScans
import Mutagenesis.Template.Occurrence

/-!
# What occurrences of a template are

Tokens match where an occurrence of a template stands (`Stands`, `stands_of_mem_occurrencesFrom`),
so it lies inside the text, is not empty, and has a capture for each hole of the template. Trimming
a template changes none of its holes (`holes_trim`), so the texts bound to an occurrence are those
of the holes of the template as it is written, and a template can be filled exactly if all its holes
are bound (`exists_substitute_iff`).
-/

set_option autoImplicit false

namespace Mutagenesis

namespace Template

/-! ## Holes -/

/-- The names of the holes among marks, in order of appearance. -/
def markHoles (read : List Mark) : List String :=
  read.filterMap fun
    | .hole name => some (String.ofList name)
    | _ => none

/-- The names of the holes of a template, in order of appearance. -/
def holes (template : List Char) : List String :=
  markHoles (marks template)

/-- The names of the holes among tokens. -/
def tokenHoles (tokens : List Token) : List String :=
  tokens.filterMap fun
    | .hole name => some name
    | _ => none

theorem markHoles_append (as bs : List Mark) :
    markHoles (as ++ bs) = markHoles as ++ markHoles bs :=
  List.filterMap_append

theorem tokenHoles_pushChar (c : Char) (tokens : List Token) :
    tokenHoles (pushChar c tokens) = tokenHoles tokens := by
  unfold pushChar
  split
  · split <;> rfl
  · split <;> rfl

theorem tokenHoles_group (read : List Mark) : tokenHoles (group read) = markHoles read := by
  induction read with
  | nil => rfl
  | cons mark rest ih =>
    cases mark with
    | plain c => rw [group, tokenHoles_pushChar, ih]; rfl
    | broken => rw [group, tokenHoles_pushChar, ih]; rfl
    | hole name => exact congrArg (String.ofList name :: ·) ih

/-- Trimming takes blanks from both ends. -/
theorem trim_spec (cs : List Char) : ∃ before after, cs = before ++ Text.trim cs ++ after ∧
    (∀ c ∈ before, Text.isBlank c = true) ∧ ∀ c ∈ after, Text.isBlank c = true := by
  have hstart := List.takeWhile_append_dropWhile (p := Text.isBlank) (l := cs)
  have hend := List.takeWhile_append_dropWhile (p := Text.isBlank)
    (l := (Text.trimStart cs).reverse)
  refine ⟨cs.takeWhile Text.isBlank, ((Text.trimStart cs).reverse.takeWhile Text.isBlank).reverse,
    ?_, fun c hc => List.mem_takeWhile_imp hc, fun c hc => ?_⟩
  · rw [List.append_assoc, Text.trim, Text.trimEnd, ← List.reverse_append, hend,
      List.reverse_reverse, Text.trimStart, hstart]
  · exact List.mem_takeWhile_imp (List.mem_reverse.mp hc)

/-- Trimming changes no hole. -/
theorem holes_trim (template : List Char) : holes (Text.trim template) = holes template := by
  obtain ⟨before, after, hparts, hbefore, hafter⟩ := trim_spec template
  have hplain (blanks : List Char) : markHoles (blanks.map .plain) = [] := by
    simp [markHoles, List.filterMap_map]
  conv => rhs; rw [hparts]
  rw [holes, holes, marks_append_blanks hafter, marks_blanks_append hbefore]
  simp [markHoles_append, hplain]

/-- The holes of the tokens of a template are those of the template. -/
theorem tokenHoles_of_tokens {template : List Char} {read : List Token}
    (h : tokens template = .ok read) : tokenHoles read = holes template := by
  unfold tokens at h
  dsimp only at h
  split at h
  · cases h
  · split at h
    · cases h
    · cases h
      rw [tokenHoles_group, ← holes_trim]
      rfl

/-- A template can be filled exactly if all its holes are bound. -/
theorem exists_substitute_iff {template : List Char} {bound : String → Option String} :
    (∃ text, substitute template bound = .ok text) ↔
      ∀ hole ∈ holes template, (bound hole).isSome = true := by
  have hmap {x : Except TemplateFault (List Char)} {f : List Char → List Char} :
      (∃ text, x.map f = .ok text) ↔ ∃ text, x = .ok text := by
    cases x <;> simp [Except.map]
  rw [substitute_eq_fill, holes, markHoles]
  induction marks template with
  | nil => simp [fill]
  | cons mark rest ih =>
    cases mark with
    | plain c => simpa [fill, hmap] using ih
    | broken => simpa [fill, hmap] using ih
    | hole name =>
      cases hbound : bound (String.ofList name) with
      | none => simp [fill, hbound]
      | some text => simpa [fill, hbound, hmap] using ih

end Template

/-! ## Searching -/

/-- A fragment ends inside the text. -/
theorem Fragment.le_of_mem_lengthsFrom {cs pending : List Char} {taken n : Nat} {place : Place}
    (h : n ∈ lengthsFrom taken pending place cs) : n ≤ taken + cs.length := by
  fun_induction lengthsFrom taken pending place cs <;> grind

variable {cs : List Char}

theorem Fragment.le_of_mem_lengths {n : Nat} (h : n ∈ lengths cs) : n ≤ cs.length := by
  simpa using le_of_mem_lengthsFrom (mem_lengths_iff.mp h).2

theorem Fragment.le_of_mem_candidates {last : Bool} {n : Nat} (h : n ∈ candidates last cs) :
    n ≤ cs.length :=
  le_of_mem_lengths (mem_lengths_of_mem_candidates h)

namespace Template

variable {tokens : List Token}

/-- A match stays inside the text, and has captured a text for each hole. -/
theorem searchFrom_spec {bound : List Capture} {found : Found}
    (h : searchFrom bound tokens cs = some found) :
    found.length ≤ cs.length ∧ found.captures.map (·.name) = tokenHoles tokens := by
  induction tokens generalizing bound cs found with
  | nil =>
    cases h
    exact ⟨Nat.zero_le _, rfl⟩
  | cons token rest ih =>
    cases token with
    | literal text =>
      unfold searchFrom at h
      split at h
      · cases h
      · next cs' hafter =>
        obtain ⟨later, hlater, rfl⟩ := Option.map_eq_some_iff.mp h
        obtain ⟨hlength, hnames⟩ := ih hlater
        have hcs : text ++ cs' = cs := List.isPrefixOf?_eq_some_iff_append_eq.mp hafter
        refine ⟨?_, hnames⟩
        rw [← hcs, List.length_append]
        exact Nat.add_le_add_left hlength _
    | blank =>
      unfold searchFrom at h
      dsimp only at h
      split at h
      · cases h
      · obtain ⟨later, hlater, rfl⟩ := Option.map_eq_some_iff.mp h
        obtain ⟨hlength, hnames⟩ := ih hlater
        have hrun : (cs.takeWhile Text.isBlank).length ≤ cs.length :=
          (List.takeWhile_sublist _).length_le
        refine ⟨?_, hnames⟩
        rw [List.length_drop] at hlength
        dsimp only
        omega
    | hole name =>
      unfold searchFrom at h
      obtain ⟨n, hn, htry⟩ := List.exists_of_findSome?_eq_some h
      dsimp only at htry
      split at htry
      · obtain ⟨later, hlater, rfl⟩ := Option.map_eq_some_iff.mp htry
        obtain ⟨hlength, hnames⟩ := ih hlater
        have hcapture := Fragment.le_of_mem_candidates hn
        refine ⟨?_, congrArg (name :: ·) hnames⟩
        rw [List.length_drop] at hlength
        dsimp only
        omega
      · cases htry

/-- Tokens match at the start of a text if the search finds something there, which is not empty and
does not end inside a word. -/
theorem matchHere_eq_some_iff {found : Found} :
    matchHere tokens cs = some found ↔ searchFrom [] tokens cs = some found ∧ 0 < found.length ∧
      (endsWithWord tokens = true → (cs.drop found.length).head?.any Text.isWord = false) := by
  unfold matchHere search
  rw [Option.filter_eq_some_iff, Option.filter_eq_some_iff, and_assoc]
  simp [or_iff_not_imp_left]

/-- An occurrence of tokens in a text: they match where it stands, and if they start with a word, it
does not stand inside one. -/
structure Stands (tokens : List Token) (text : List Char) (o : Occurrence) : Prop where
  found : matchHere tokens (text.drop o.start) = some o.found
  free : startsWithWord tokens = true → (text.take o.start).getLast?.any Text.isWord = false

theorem Stands.stops {text : List Char} {o : Occurrence} (h : Stands tokens text o) :
    0 < o.found.length ∧ o.start + o.found.length ≤ text.length := by
  obtain ⟨hsearch, hpos, -⟩ := matchHere_eq_some_iff.mp h.found
  have hlength := (searchFrom_spec hsearch).1
  rw [List.length_drop] at hlength
  exact ⟨hpos, by omega⟩

/-- The latest start is one of those within reach, and matches. -/
theorem latestStart_spec {distance within d : Nat} {previous : Char} {found : Found}
    (h : latestStart tokens distance previous within cs = some (d, found)) :
    ∃ k < within, d = distance + k ∧ matchHere tokens (cs.drop k) = some found := by
  induction cs generalizing distance within previous with
  | nil => cases within <;> cases h
  | cons c rest ih =>
    cases within with
    | zero => cases h
    | succ within =>
      unfold latestStart at h
      split at h
      · next later hlater =>
        cases h
        obtain ⟨k, hwithin, rfl, hk⟩ := ih hlater
        exact ⟨k + 1, by omega, by omega, hk⟩
      · split at h
        · obtain ⟨here, hhere, heq⟩ := Option.map_eq_some_iff.mp h
          cases heq
          exact ⟨0, Nat.zero_lt_succ _, rfl, hhere⟩
        · cases h

/-- A match that has settled is one, and it stays where it was unless a hole comes first. -/
theorem settle_spec {c : Char} {found : Found} (h : matchHere tokens (c :: cs) = some found) :
    matchHere tokens ((c :: cs).drop (settle tokens c cs found).1) =
        some (settle tokens c cs found).2 ∧
      (startsWithHole tokens = false → settle tokens c cs found = (0, found)) := by
  unfold settle
  split
  · next first _ hhole _ =>
    refine ⟨?_, fun hnot => absurd hhole (by simp [hnot])⟩
    cases hlatest : latestStart tokens 1 c (first.text.length - 1) cs with
    | none => exact h
    | some later =>
      obtain ⟨k, -, hk, hmatch⟩ := latestStart_spec hlatest
      dsimp only [Option.getD]
      rwa [hk, Nat.add_comm]
  · exact ⟨h, fun _ => rfl⟩

/-- The occurrences from a place on that is not skipped. -/
theorem occurrencesFrom_cons (tokens : List Token) (previous : Option Char) (position : Nat)
    (c : Char) (cs : List Char) :
    occurrencesFrom tokens 0 previous position (c :: cs) =
      if blockedHere tokens previous (c :: cs) then
        occurrencesFrom tokens 0 (some c) (position + 1) cs
      else
        match matchHere tokens (c :: cs) with
        | none => occurrencesFrom tokens 0 (some c) (position + 1) cs
        | some found =>
          ⟨position + (settle tokens c cs found).1, (settle tokens c cs found).2⟩ ::
            occurrencesFrom tokens
              ((settle tokens c cs found).1 + (settle tokens c cs found).2.length - 1) (some c)
              (position + 1) cs := rfl

section

variable {tokens : List Token} {skip : Nat} {cs : List Char} {o : Occurrence}

/-- An occurrence comes from a place between two parts of a text: the tokens can begin there, they
match, and the match settles. -/
def SettlesAt (tokens : List Token) (walked ahead : List Char) (o : Occurrence) : Prop :=
  ∃ c cs found, ahead = c :: cs ∧ blockedHere tokens walked.getLast? ahead = false ∧
    matchHere tokens ahead = some found ∧
    o = ⟨walked.length + (settle tokens c cs found).1, (settle tokens c cs found).2⟩

/-- The occurrences that are found in the rest of a text come from places after the characters that
are skipped. -/
theorem settlesAt_of_mem_occurrencesFrom (done : List Char)
    (h : o ∈ occurrencesFrom tokens skip done.getLast? done.length cs) :
    ∃ passed ahead, cs = passed ++ ahead ∧ skip ≤ passed.length ∧
      SettlesAt tokens (done ++ passed) ahead o := by
  induction cs generalizing skip done with
  | nil => cases h
  | cons c rest ih =>
    have hstep {skip least : Nat} (hleast : least ≤ skip + 1)
        (hrest : o ∈ occurrencesFrom tokens skip (some c) (done.length + 1) rest) :
        ∃ passed ahead, c :: rest = passed ++ ahead ∧ least ≤ passed.length ∧
          SettlesAt tokens (done ++ passed) ahead o := by
      obtain ⟨passed, ahead, rfl, hle, hsettles⟩ := ih (done ++ [c]) (by simpa using hrest)
      refine ⟨c :: passed, ahead, rfl, ?_, by simpa using hsettles⟩
      rw [List.length_cons]
      omega
    cases skip with
    | succ skip => exact hstep le_rfl h
    | zero =>
      rw [occurrencesFrom_cons] at h
      split at h
      · exact hstep (Nat.zero_le _) h
      · next hblocked =>
        split at h
        · exact hstep (Nat.zero_le _) h
        · next found hfound =>
          rcases List.mem_cons.mp h with rfl | h
          · refine ⟨[], c :: rest, rfl, le_rfl, c, rest, found, rfl, ?_, hfound, ?_⟩
            · rw [List.append_nil]
              exact Bool.eq_false_iff.mpr hblocked
            · rw [List.append_nil]
          · exact hstep (Nat.zero_le _) h

/-- A match that the walk settles at stands in the text. -/
theorem SettlesAt.stands {walked ahead : List Char} (h : SettlesAt tokens walked ahead o) :
    Stands tokens (walked ++ ahead) o ∧ walked.length ≤ o.start := by
  obtain ⟨c, cs, found, rfl, hblocked, hfound, rfl⟩ := h
  obtain ⟨hsettled, hstays⟩ := settle_spec hfound
  refine ⟨⟨?_, fun hword => ?_⟩, Nat.le_add_right ..⟩
  · rwa [← List.drop_drop, List.drop_left]
  · have hhole : startsWithHole tokens = false := by
      unfold startsWithWord at hword
      split at hword
      · rfl
      · cases hword
    dsimp only
    rw [hstays hhole, Nat.add_zero, List.take_left]
    simpa [blockedHere, hword, hhole] using hblocked

/-- The occurrences that are found in the rest of a text stand in the text, after the characters
that are skipped. -/
theorem stands_of_mem_occurrencesFrom (done : List Char)
    (h : o ∈ occurrencesFrom tokens skip done.getLast? done.length cs) :
    Stands tokens (done ++ cs) o ∧ done.length + skip ≤ o.start := by
  obtain ⟨passed, ahead, rfl, hskip, hsettles⟩ := settlesAt_of_mem_occurrencesFrom done h
  obtain ⟨hstands, hstart⟩ := hsettles.stands
  rw [List.length_append] at hstart
  exact ⟨by rwa [← List.append_assoc], by omega⟩

theorem stands_of_mem_occurrences (h : o ∈ occurrences tokens cs) : Stands tokens cs o :=
  (stands_of_mem_occurrencesFrom [] h).1

end

end Template

/-! ## Matches -/

namespace Bindings

/-- An entry adds its name. -/
theorem mem_names_insertEntry {name text x : String} {entries : List (String × String)} :
    x ∈ (insertEntry name text entries).map Prod.fst ↔ x = name ∨ x ∈ entries.map Prod.fst := by
  induction entries with
  | nil => simp [insertEntry]
  | cons entry rest ih =>
    unfold insertEntry
    split
    · simp
    · split
      · next heq => simp [← heq]
      · simp only [List.map_cons, List.mem_cons, ih]
        exact or_left_comm

/-- The names with a value are those of the entries. -/
theorem isSome_get?_iff {b : Bindings} {name : String} :
    (b.get? name).isSome = true ↔ name ∈ b.entries.map Prod.fst := by
  rw [← Option.ne_none_iff_isSome, get?, Ne, List.lookup_eq_none_iff, List.mem_map]
  constructor
  · intro h
    simp only [not_forall, bne_iff_ne, ne_eq, not_not] at h
    obtain ⟨entry, hentry, hname⟩ := h
    exact ⟨entry, hentry, hname.symm⟩
  · rintro ⟨entry, hentry, rfl⟩ h
    simpa using h entry hentry

/-- The names that are bound are those of the entries. -/
theorem isSome_get?_ofList {entries : List (String × String)} {name : String} :
    ((ofList entries).get? name).isSome = true ↔ name ∈ entries.map Prod.fst := by
  have hfold (b : Bindings) :
      ((entries.foldl (fun b entry => b.insert entry.1 entry.2) b).get? name).isSome = true ↔
        name ∈ b.entries.map Prod.fst ∨ name ∈ entries.map Prod.fst := by
    induction entries generalizing b with
    | nil => simpa using isSome_get?_iff
    | cons entry rest ih =>
      rw [List.foldl_cons, ih, insert, mem_names_insertEntry, List.map_cons, List.mem_cons,
        or_comm (a := name = entry.1), or_assoc]
  exact (hfold empty).trans (or_iff_right List.not_mem_nil)

end Bindings

namespace Template

section

variable {read : List Token} {template text : List Char} {o : Occurrence}

/-- An occurrence divides the text into what stands before it, itself, which is not nothing, and
what stands after it; the match that is reported has its place. -/
theorem Stands.parts (h : Stands read text o) :
    text = text.take o.start ++ (text.drop o.start).take o.found.length ++
        (text.drop o.start).drop o.found.length ∧
      (text.drop o.start).take o.found.length ≠ [] ∧
      (o.toMatch text).span = ⟨SourceText.locationAt text (Text.byteLength (text.take o.start)),
        SourceText.locationAt text (Text.byteLength
          (text.take o.start ++ (text.drop o.start).take o.found.length))⟩ := by
  obtain ⟨hpos, hstops⟩ := h.stops
  refine ⟨?_, fun hnil => ?_, ?_⟩
  · rw [List.append_assoc, List.take_append_drop, List.take_append_drop]
  · have hlength := congrArg List.length hnil
    simp only [List.length_take, List.length_drop, List.length_nil] at hlength
    omega
  · rw [← List.take_add]
    rfl

/-- The names that the match of an occurrence binds are those of the holes of the template. -/
theorem Stands.isSome_get?_iff (h : Stands read text o) (hread : tokens template = .ok read)
    (name : String) :
    ((o.toMatch text).bindings.get? name).isSome = true ↔ name ∈ holes template := by
  obtain ⟨hsearch, -⟩ := matchHere_eq_some_iff.mp h.found
  have hnames : (o.found.captures.map fun c => (c.name, String.ofList c.text)).map Prod.fst =
      holes template := by
    rw [List.map_map, ← tokenHoles_of_tokens hread, ← (searchFrom_spec hsearch).2]
    rfl
  rw [Occurrence.toMatch, Bindings.isSome_get?_ofList, hnames]

/-- Every match that is found is the match of an occurrence of the template's tokens. -/
theorem stands_of_mem_findMatches {ms : List Match} {m : Match}
    (h : findMatches text template = .ok ms) (hm : m ∈ ms) :
    ∃ read o, tokens template = .ok read ∧ Stands read text o ∧ m = o.toMatch text := by
  obtain ⟨read, hread, hms⟩ := Except.bind_eq_ok_iff.mp h
  cases hms
  obtain ⟨o, ho, rfl⟩ := List.mem_map.mp hm
  exact ⟨read, o, hread, stands_of_mem_occurrences ho, rfl⟩

/-- A match divides the text into what stands before it, itself, which is not nothing, and what
stands after it; and it binds the holes of the template. -/
theorem parts_of_mem_findMatches {ms : List Match} {m : Match}
    (h : findMatches text template = .ok ms) (hm : m ∈ ms) :
    ∃ before middle after, text = before ++ middle ++ after ∧ middle ≠ [] ∧
      m.span = ⟨SourceText.locationAt text (Text.byteLength before),
        SourceText.locationAt text (Text.byteLength (before ++ middle))⟩ ∧
      ∀ name, (m.bindings.get? name).isSome = true ↔ name ∈ holes template := by
  obtain ⟨read, o, hread, hstands, rfl⟩ := stands_of_mem_findMatches h hm
  obtain ⟨htext, hmiddle, hspan⟩ := hstands.parts
  exact ⟨_, _, _, htext, hmiddle, hspan, hstands.isSome_get?_iff hread⟩

end

end Template

end Mutagenesis
