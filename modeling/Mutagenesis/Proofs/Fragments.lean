import Mutagenesis.Template.Fragment

/-!
# What a hole can capture

Balanced texts are given by a grammar: brackets that match, string literals that are closed, and any
other characters, though outside of brackets no semicolon and no newline. A fragment is a balanced
text without blanks at its ends (`IsFragment`). What a scan still has to come to is said by
`ClosesFrom`: a text that ends what is open. Each step takes one character off such a text
(`ClosesFrom.cons`, `ClosesFrom.uncons`), so the scan comes to the end of a fragment exactly over
the fragments that the text starts with (`mem_lengths_iff_isFragment`).
-/

set_option autoImplicit false

namespace Mutagenesis.Fragment

/-- What follows the opening quote of a string literal: characters other than newlines up to a
quote, where a backslash takes the next character with it. -/
inductive QuotedTail : List Char → Prop
  | close : QuotedTail ['"']
  | escaped {c : Char} {cs : List Char} : c ≠ '\n' → QuotedTail cs → QuotedTail ('\\' :: c :: cs)
  | plain {c : Char} {cs : List Char} : c ≠ '\n' → c ≠ '\\' → c ≠ '"' → QuotedTail cs →
      QuotedTail (c :: cs)

/-- A text with matching brackets and closed string literals. Semicolons and newlines stand inside
brackets or string literals only, unless the text is `nested` in brackets itself. -/
inductive Balanced : (nested : Bool) → List Char → Prop
  | nil {nested : Bool} : Balanced nested []
  | plain {nested : Bool} {c : Char} {cs : List Char} : closer? c = none → isCloser c = false →
      c ≠ '"' → (nested = false → c ≠ ';' ∧ c ≠ '\n') → Balanced nested cs →
      Balanced nested (c :: cs)
  | literal {nested : Bool} {tail cs : List Char} : QuotedTail tail → Balanced nested cs →
      Balanced nested ('"' :: (tail ++ cs))
  | group {nested : Bool} {opener close : Char} {inner cs : List Char} :
      closer? opener = some close → Balanced true inner → Balanced nested cs →
      Balanced nested (opener :: (inner ++ close :: cs))

/-- A text that a hole can capture. -/
structure IsFragment (cs : List Char) : Prop where
  balanced : Balanced false cs
  starts : ∃ c, cs.head? = some c ∧ Text.isBlank c = false
  ends : ∃ c, cs.getLast? = some c ∧ Text.isBlank c = false

/-- A text that closes the awaited brackets one after the other, and is balanced otherwise. -/
def Closes : (pending : List Char) → List Char → Prop
  | [], cs => Balanced false cs
  | close :: outer, cs => ∃ inner rest, cs = inner ++ close :: rest ∧ Balanced true inner ∧
      Closes outer rest

/-- A text that ends the string literal a scan stands in, if any, and then closes the awaited
brackets. -/
def ClosesFrom (pending : List Char) : Place → List Char → Prop
  | .code, cs => Closes pending cs
  | .quoted false, cs => ∃ tail rest, cs = tail ++ rest ∧ QuotedTail tail ∧ Closes pending rest
  | .quoted true, cs => ∃ c tail rest, cs = c :: (tail ++ rest) ∧ c ≠ '\n' ∧ QuotedTail tail ∧
      Closes pending rest

/-! ## Steps of a scan -/

/-- One step of a scan: the brackets that are awaited after a character, where the scan then stands,
and whether a fragment can end there. None if the scan stops. -/
def advance (pending : List Char) : Place → Char → Option (List Char × Place × Bool)
  | .quoted escaped, c =>
    if c = '\n' then none
    else if escaped then some (pending, .quoted false, false)
    else if c = '\\' then some (pending, .quoted true, false)
    else if c = '"' then some (pending, .code, pending.isEmpty)
    else some (pending, .quoted false, false)
  | .code, c =>
    match closer? c with
    | some close => some (close :: pending, .code, false)
    | none =>
      if isCloser c then
        match pending with
        | [] => none
        | awaited :: outer => if awaited = c then some (outer, .code, outer.isEmpty) else none
      else if c = '"' then some (pending, .quoted false, false)
      else if pending.isEmpty ∧ (c = ';' ∨ c = '\n') then none
      else some (pending, .code, pending.isEmpty && !Text.isBlank c)

/-- A scan goes on step by step. -/
theorem lengthsFrom_cons (taken : Nat) (pending : List Char) (place : Place) (c : Char)
    (cs : List Char) :
    lengthsFrom taken pending place (c :: cs) =
      match advance pending place c with
      | none => []
      | some (later, next, ends) =>
        (if ends then [taken + 1] else []) ++ lengthsFrom (taken + 1) later next cs := by
  rw [lengthsFrom.eq_def]
  cases place with
  | quoted escaped =>
    simp only [advance]
    grind
  | code =>
    simp only [advance]
    grind

/-- What a step does: it opens or closes a bracket or a string literal, passes a character inside of
a literal, where a backslash counts for the next one, or passes a character outside. -/
inductive Steps : (pending : List Char) → Place → Char → (later : List Char) → Place → Prop
  | opens {pending : List Char} {c close : Char} : closer? c = some close →
      Steps pending .code c (close :: pending) .code
  | closes {outer : List Char} {c : Char} : isCloser c = true →
      Steps (c :: outer) .code c outer .code
  | quote {pending : List Char} : Steps pending .code '"' pending (.quoted false)
  | plain {pending : List Char} {c : Char} : closer? c = none → isCloser c = false → c ≠ '"' →
      (pending = [] → c ≠ ';' ∧ c ≠ '\n') → Steps pending .code c pending .code
  | unquote {pending : List Char} : Steps pending (.quoted false) '"' pending .code
  | slash {pending : List Char} : Steps pending (.quoted false) '\\' pending (.quoted true)
  | escaped {pending : List Char} {c : Char} : c ≠ '\n' →
      Steps pending (.quoted true) c pending (.quoted false)
  | inside {pending : List Char} {c : Char} : c ≠ '\n' → c ≠ '\\' → c ≠ '"' →
      Steps pending (.quoted false) c pending (.quoted false)

section

variable {pending later text : List Char} {place next : Place} {c : Char} {ends : Bool}

theorem closer?_of_isCloser (h : isCloser c = true) :
    closer? c = none ∧ Text.isBlank c = false := by
  simp only [isCloser, Bool.or_eq_true, beq_iff_eq] at h
  rcases h with (rfl | rfl) | rfl <;> decide

theorem steps_of_advance (h : advance pending place c = some (later, next, ends)) :
    Steps pending place c later next := by
  cases place with
  | quoted escaped =>
    simp only [advance] at h
    cases escaped <;> grind [Steps]
  | code =>
    simp only [advance] at h
    grind [Steps]

/-- A step by the rules is one that the reader takes. -/
theorem advance_of_steps (h : Steps pending place c later next) :
    ∃ ends, advance pending place c = some (later, next, ends) := by
  cases h with
  | opens hopen => exact ⟨false, by simp only [advance, hopen]⟩
  | closes hcloser =>
    exact ⟨later.isEmpty, by simp [advance, (closer?_of_isCloser hcloser).1, hcloser]⟩
  | quote => exact ⟨_, rfl⟩
  | plain hopen hcloser hquote hfree =>
    refine ⟨pending.isEmpty && !Text.isBlank c, ?_⟩
    simp only [advance, hopen, hcloser]
    grind
  | unquote => exact ⟨_, rfl⟩
  | slash => exact ⟨_, rfl⟩
  | escaped hline => exact ⟨false, by simp [advance, hline]⟩
  | inside hline hslash hquote => exact ⟨false, by simp [advance, hline, hslash, hquote]⟩

theorem closesFrom_nil_iff : ClosesFrom pending place [] ↔ pending = [] ∧ place = .code := by
  cases place with
  | code =>
    cases pending with
    | nil => simpa [ClosesFrom, Closes] using Balanced.nil
    | cons close outer => simp [ClosesFrom, Closes]
  | quoted escaped =>
    have hquoted : ¬QuotedTail [] := nofun
    cases escaped <;> simp [ClosesFrom, hquoted]

/-- A fragment can end after a step if nothing is open then and the character is not blank. -/
theorem ends_iff_of_advance (h : advance pending place c = some (later, next, ends)) :
    ends = true ↔ ClosesFrom later next [] ∧ Text.isBlank c = false := by
  have hquote : Text.isBlank '"' = false := by decide
  have hcloser : isCloser c = true → Text.isBlank c = false := fun h => (closer?_of_isCloser h).2
  rw [closesFrom_nil_iff]
  cases place with
  | quoted escaped =>
    simp only [advance] at h
    grind
  | code =>
    simp only [advance] at h
    grind

/-- What closes all that is open after a step does so from before the step on, with the character
in front. -/
theorem ClosesFrom.cons (h : Steps pending place c later next)
    (htext : ClosesFrom later next text) : ClosesFrom pending place (c :: text) := by
  cases h with
  | opens hopen =>
    obtain ⟨inner, after, rfl, hinner, hafter⟩ := htext
    cases pending with
    | nil => exact .group hopen hinner hafter
    | cons awaited outer =>
      obtain ⟨inner', rest, rfl, hinner', hrest⟩ := hafter
      exact ⟨c :: (inner ++ _ :: inner'), rest, by simp, .group hopen hinner hinner', hrest⟩
  | closes => exact ⟨[], text, rfl, .nil, htext⟩
  | quote =>
    obtain ⟨tail, after, rfl, htail, hafter⟩ := htext
    cases pending with
    | nil => exact .literal htail hafter
    | cons awaited outer =>
      obtain ⟨inner, rest, rfl, hinner, hrest⟩ := hafter
      exact ⟨'"' :: (tail ++ inner), rest, by simp, .literal htail hinner, hrest⟩
  | plain hopen hcloser hquote hfree =>
    cases pending with
    | nil => exact .plain hopen hcloser hquote (fun _ => hfree rfl) htext
    | cons awaited outer =>
      obtain ⟨inner, rest, rfl, hinner, hrest⟩ := htext
      exact ⟨c :: inner, rest, rfl, .plain hopen hcloser hquote nofun hinner, hrest⟩
  | unquote => exact ⟨['"'], text, rfl, .close, htext⟩
  | slash =>
    obtain ⟨d, tail, rest, rfl, hline, htail, hrest⟩ := htext
    exact ⟨'\\' :: d :: tail, rest, rfl, .escaped hline htail, hrest⟩
  | escaped hline =>
    obtain ⟨tail, rest, rfl, htail, hrest⟩ := htext
    exact ⟨c, tail, rest, rfl, hline, htail, hrest⟩
  | inside hline hslash hquote =>
    obtain ⟨tail, rest, rfl, htail, hrest⟩ := htext
    exact ⟨c :: tail, rest, rfl, .plain hline hslash hquote htail, hrest⟩

/-- The first character of what closes all that is open makes a step, and the rest closes what is
open then. -/
theorem ClosesFrom.uncons (hpending : ∀ c ∈ pending, isCloser c = true)
    (h : ClosesFrom pending place (c :: text)) :
    ∃ later next, Steps pending place c later next ∧ ClosesFrom later next text := by
  cases place with
  | quoted escaped =>
    cases escaped with
    | true =>
      obtain ⟨d, tail, rest, heq, hline, htail, hrest⟩ := h
      cases heq
      exact ⟨_, _, .escaped hline, tail, rest, rfl, htail, hrest⟩
    | false =>
      obtain ⟨tail, rest, heq, htail, hrest⟩ := h
      cases htail with
      | close =>
        cases heq
        exact ⟨_, _, .unquote, hrest⟩
      | @escaped d tail hline htail =>
        cases heq
        exact ⟨_, _, .slash, d, tail, rest, rfl, hline, htail, hrest⟩
      | @plain d tail hline hslash hquote htail =>
        cases heq
        exact ⟨_, _, .inside hline hslash hquote, tail, rest, rfl, htail, hrest⟩
  | code =>
    cases pending with
    | nil =>
      cases (show Balanced false (c :: text) from h) with
      | plain hopen hcloser hquote hfree hrest =>
        exact ⟨_, _, .plain hopen hcloser hquote fun _ => hfree rfl, hrest⟩
      | literal htail hrest => exact ⟨_, _, .quote, _, _, rfl, htail, hrest⟩
      | group hopen hinner hrest => exact ⟨_, _, .opens hopen, _, _, rfl, hinner, hrest⟩
    | cons awaited outer =>
      obtain ⟨inner, rest, heq, hinner, hrest⟩ := h
      cases hinner with
      | nil =>
        cases heq
        exact ⟨_, _, .closes (hpending c List.mem_cons_self), hrest⟩
      | plain hopen hcloser hquote hfree hinner =>
        cases heq
        exact ⟨_, _, .plain hopen hcloser hquote nofun, _, _, rfl, hinner, hrest⟩
      | @literal _ tail inner htail hinner =>
        cases heq
        exact ⟨_, _, .quote, tail, inner ++ awaited :: rest, by simp, htail, inner, rest, rfl,
          hinner, hrest⟩
      | @group _ _ close inner' inner hopen hinner' hinner =>
        cases heq
        exact ⟨_, _, .opens hopen, inner', inner ++ awaited :: rest, by simp, hinner', inner, rest,
          rfl, hinner, hrest⟩

theorem awaited_of_steps (h : Steps pending place c later next)
    (hpending : ∀ c ∈ pending, isCloser c = true) : ∀ c ∈ later, isCloser c = true := by
  cases h with
  | opens hopen =>
    refine List.forall_mem_cons.mpr ⟨?_, hpending⟩
    unfold closer? at hopen
    split at hopen <;> cases hopen <;> decide
  | closes => exact fun d hd => hpending d (List.mem_cons_of_mem _ hd)
  | _ => exact hpending

end

/-- A scan comes to the end of a fragment over a text that closes all that is open, and whose last
character is not blank. -/
theorem closes_of_mem_lengthsFrom {cs pending : List Char} {taken n : Nat} {place : Place}
    (h : n ∈ lengthsFrom taken pending place cs) :
    ∃ text rest, cs = text ++ rest ∧ n = taken + text.length ∧ ClosesFrom pending place text ∧
      ∃ c, text.getLast? = some c ∧ Text.isBlank c = false := by
  induction cs generalizing taken pending place with
  | nil => cases h
  | cons c cs ih =>
    rw [lengthsFrom_cons] at h
    split at h
    · cases h
    · next later next ends hstep =>
      have hsteps := steps_of_advance hstep
      rcases List.mem_append.mp h with hend | hn
      · split at hend
        · next hends =>
          obtain ⟨hcloses, hblank⟩ := (ends_iff_of_advance hstep).mp hends
          exact ⟨[c], cs, rfl, List.mem_singleton.mp hend, .cons hsteps hcloses, c, rfl, hblank⟩
        · cases hend
      · obtain ⟨text, rest, rfl, hlength, htext, last, hlast, hblank⟩ := ih hn
        refine ⟨c :: text, rest, rfl, ?_, .cons hsteps htext, last, ?_, hblank⟩
        · rw [hlength, List.length_cons]
          omega
        · rw [List.getLast?_cons, hlast]
          rfl

/-- A scan goes over a text that closes all that is open, and a fragment can end behind it if its
last character is not blank. -/
theorem mem_lengthsFrom_of_closes {pending text rest : List Char} {taken : Nat} {place : Place}
    {c : Char} (hpending : ∀ c ∈ pending, isCloser c = true) (h : ClosesFrom pending place text)
    (hlast : text.getLast? = some c) (hblank : Text.isBlank c = false) :
    taken + text.length ∈ lengthsFrom taken pending place (text ++ rest) := by
  induction text generalizing taken pending place with
  | nil => cases hlast
  | cons first text ih =>
    obtain ⟨later, next, hsteps, hcloses⟩ := h.uncons hpending
    obtain ⟨ends, hstep⟩ := advance_of_steps hsteps
    rw [List.cons_append, lengthsFrom_cons, hstep]
    cases text with
    | nil =>
      obtain rfl : first = c := Option.some.inj hlast
      have hends : ends = true := (ends_iff_of_advance hstep).mpr ⟨hcloses, hblank⟩
      exact List.mem_append_left _ (by simp [hends])
    | cons second text =>
      have hmem := @ih later (taken + 1) next (awaited_of_steps hsteps hpending) hcloses
        (by rwa [List.getLast?_cons_cons] at hlast)
      have hlength : taken + (first :: second :: text).length =
          taken + 1 + (second :: text).length := by
        rw [List.length_cons]
        omega
      exact List.mem_append_right _ (hlength ▸ hmem)

/-- The longest fragment is one of the fragments. -/
theorem mem_lengths_of_mem_candidates {last : Bool} {cs : List Char} {n : Nat}
    (h : n ∈ candidates last cs) : n ∈ lengths cs := by
  unfold candidates at h
  split at h
  · exact List.mem_of_getLast? (by simpa using h)
  · exact h

/-- Where a fragment can end, in terms of the scan that finds its end. -/
theorem mem_lengths_iff {cs : List Char} {n : Nat} :
    n ∈ lengths cs ↔ cs.head?.any Text.isBlank = false ∧ n ∈ lengthsFrom 0 [] .code cs := by
  cases cs with
  | nil => simp [lengths, lengthsFrom]
  | cons c rest => cases hblank : Text.isBlank c <;> simp [lengths, hblank]

/-- The lengths that are listed for a text are those of the fragments that it starts with. -/
theorem mem_lengths_iff_isFragment {cs : List Char} {n : Nat} :
    n ∈ lengths cs ↔ ∃ text rest, cs = text ++ rest ∧ n = text.length ∧ IsFragment text := by
  rw [mem_lengths_iff]
  constructor
  · rintro ⟨hstart, hmem⟩
    obtain ⟨text, rest, rfl, hn, hcloses, hends⟩ := closes_of_mem_lengthsFrom hmem
    rw [Nat.zero_add] at hn
    refine ⟨text, rest, rfl, hn, hcloses, ?_, hends⟩
    cases text with
    | nil => cases hends.choose_spec.1
    | cons c text => exact ⟨c, rfl, by simpa using hstart⟩
  · rintro ⟨text, rest, rfl, rfl, hbalanced, ⟨first, hfirst, hstart⟩, last, hlast, hend⟩
    have hmem := @mem_lengthsFrom_of_closes [] text rest 0 .code last nofun hbalanced hlast hend
    rw [Nat.zero_add] at hmem
    refine ⟨?_, hmem⟩
    rw [List.head?_append, hfirst]
    exact hstart

/-- What a hole may capture is a fragment. -/
theorem isFragment_of_mem_candidates {last : Bool} {cs : List Char} {n : Nat}
    (h : n ∈ candidates last cs) : IsFragment (cs.take n) := by
  obtain ⟨text, rest, rfl, rfl, htext⟩ :=
    mem_lengths_iff_isFragment.mp (mem_lengths_of_mem_candidates h)
  rwa [List.take_left]

end Mutagenesis.Fragment
