import Mutagenesis.Proofs.Occurrences

/-!
# What a leading hole captures

A template that starts with a hole is moved on inside what the hole captured first, to the latest
place at which it can start (`settle_latest`). There the hole captures anew, and that may reach
further: where the hole is repeated, or where the new start is inside a string literal. A place at
which the template can start, inside of what the hole captures in the end, then lies behind the end
of what it captured first (`findMatches_least`). Apart from these two cases there is no such place,
since a fragment that starts inside another one ends with it or before (`lengths_drop`).
-/

set_option autoImplicit false

namespace Mutagenesis

open Text (byteLength)

namespace Fragment

/-- A step inside brackets is one inside more brackets. -/
theorem advance_append {pending outer later : List Char} {place next : Place} {c : Char}
    {ends : Bool} (houter : outer ≠ []) (h : advance pending place c = some (later, next, ends)) :
    advance (pending ++ outer) place c = some (later ++ outer, next, false) := by
  have hopen (inner : List Char) : (inner ++ outer).isEmpty = false := by simp [houter]
  cases place with
  | quoted escaped =>
    simp only [advance] at h ⊢
    grind
  | code =>
    cases hclose : closer? c with
    | some close =>
      simp only [advance, hclose] at h ⊢
      grind
    | none =>
      simp only [advance, hclose] at h ⊢
      cases pending <;> grind

/-- Where a scan stands after one more character. -/
def Place.after : Place → Char → Place
  | .quoted true, _ => .quoted false
  | .quoted false, c => if c = '\\' then .quoted true else if c = '"' then .code else .quoted false
  | .code, c => if c = '"' then .quoted false else .code

/-- A text ends outside of the string literals in it. -/
def OutsideLiterals (cs : List Char) : Prop :=
  cs.foldl Place.after .code = .code

theorem outsideLiterals_of_not_mem {cs : List Char} (h : '"' ∉ cs) : OutsideLiterals cs := by
  induction cs with
  | nil => rfl
  | cons c rest ih =>
    obtain ⟨hc, hrest⟩ := not_or.mp (List.mem_cons.not.mp h)
    rw [OutsideLiterals, List.foldl_cons, Place.after, if_neg (Ne.symm hc)]
    exact ih hrest

/-- The place after a step depends on the character only. -/
theorem place_of_advance {pending later : List Char} {place next : Place} {c : Char} {ends : Bool}
    (h : advance pending place c = some (later, next, ends)) : next = place.after c := by
  cases place with
  | quoted escaped =>
    simp only [advance] at h
    cases escaped <;> grind [Place.after]
  | code =>
    have hquote : closer? '"' = none ∧ isCloser '"' = false := ⟨rfl, rfl⟩
    simp only [advance] at h
    grind [Place.after]

variable {cs pending : List Char} {taken n : Nat} {place : Place}

theorem lt_of_mem_lengthsFrom (h : n ∈ lengthsFrom taken pending place cs) : taken < n := by
  fun_induction lengthsFrom taken pending place cs <;> grind

/-- The lengths of fragments are listed in order. -/
theorem pairwise_lengthsFrom (taken : Nat) (pending : List Char) (place : Place) (cs : List Char) :
    (lengthsFrom taken pending place cs).Pairwise (· < ·) := by
  induction cs generalizing taken pending place with
  | nil => exact .nil
  | cons c rest ih =>
    rw [lengthsFrom_cons]
    split
    · exact .nil
    · split
      · exact List.pairwise_cons.mpr ⟨fun _ => lt_of_mem_lengthsFrom, ih ..⟩
      · exact ih ..

/-- The lengths of fragments after some characters are greater by their number. -/
theorem lengthsFrom_add (k taken : Nat) (pending : List Char) (place : Place) (cs : List Char) :
    lengthsFrom (taken + k) pending place cs =
      (lengthsFrom taken pending place cs).map (· + k) := by
  induction cs generalizing taken pending place with
  | nil => rfl
  | cons c rest ih =>
    rw [lengthsFrom_cons, lengthsFrom_cons]
    split
    · rfl
    · rw [List.map_append, ← ih, Nat.add_right_comm]
      split <;> rfl

/-- A fragment that is found by a scan with more brackets awaited outside ends later. -/
theorem lt_of_mem_lengthsFrom_append {outer : List Char} {m : Nat} (houter : outer ≠ [])
    (hm : m ∈ lengthsFrom taken pending place cs)
    (hn : n ∈ lengthsFrom taken (pending ++ outer) place cs) : m < n := by
  induction cs generalizing taken pending place with
  | nil => cases hm
  | cons c rest ih =>
    rw [lengthsFrom_cons] at hm
    split at hm
    · cases hm
    · next later next ends hstep =>
      rw [lengthsFrom_cons, advance_append houter hstep] at hn
      rcases List.mem_append.mp hm with hend | hm
      · split at hend
        · rw [List.mem_singleton.mp hend]
          exact lt_of_mem_lengthsFrom hn
        · cases hend
      · exact ih hm hn

/-- A scan that comes to the end of a fragment finds from a later place on some of what it finds
from the start. -/
theorem exists_lengthsFrom_drop {k : Nat} (h : n ∈ lengthsFrom taken pending place cs)
    (hn : taken + k < n) :
    ∃ later, n ∈ lengthsFrom (taken + k) later ((cs.take k).foldl Place.after place) (cs.drop k) ∧
      ∀ m ∈ lengthsFrom (taken + k) later ((cs.take k).foldl Place.after place) (cs.drop k),
        m ∈ lengthsFrom taken pending place cs := by
  induction k generalizing taken pending place cs with
  | zero => exact ⟨pending, h, fun _ hm => hm⟩
  | succ k ih =>
    cases cs with
    | nil => cases h
    | cons c rest =>
      rw [lengthsFrom_cons] at h
      split at h
      · cases h
      · next later next ends hstep =>
        obtain rfl := place_of_advance hstep
        rcases List.mem_append.mp h with hend | h
        · split at hend
          · rw [List.mem_singleton.mp hend] at hn
            omega
          · cases hend
        · obtain ⟨last, hlast, hback⟩ := ih h (by omega)
          rw [Nat.add_right_comm, Nat.add_assoc] at hlast hback
          refine ⟨last, hlast, fun m hm => ?_⟩
          rw [lengthsFrom_cons, hstep]
          exact List.mem_append_right _ (hback m hm)

theorem pairwise_lengths (cs : List Char) : (lengths cs).Pairwise (· < ·) := by
  unfold lengths
  split
  · exact .nil
  · split
    · exact .nil
    · exact pairwise_lengthsFrom ..

theorem pos_of_mem_lengths (h : n ∈ lengths cs) : 0 < n :=
  lt_of_mem_lengthsFrom (mem_lengths_iff.mp h).2

/-- A fragment that starts inside another one, but in no string literal, starts inside brackets and
ends before the other one does, or else the two can end at the same places. -/
theorem lengths_drop {k : Nat} (h : n ∈ lengths cs) (hk : k < n)
    (hcode : OutsideLiterals (cs.take k)) (hblank : (cs.drop k).head?.any Text.isBlank = false) :
    (∀ m ∈ lengths (cs.drop k), k + m < n) ∨
      n - k ∈ lengths (cs.drop k) ∧ ∀ m ∈ lengths (cs.drop k), k + m ∈ lengths cs := by
  obtain ⟨hhead, h⟩ := mem_lengths_iff.mp h
  simp only [mem_lengths_iff, hhead, hblank, true_and]
  have hshift (pending : List Char) : lengthsFrom (0 + k) pending .code (cs.drop k) =
      (lengthsFrom 0 pending .code (cs.drop k)).map (· + k) := lengthsFrom_add ..
  obtain ⟨later, hmem, hback⟩ := exists_lengthsFrom_drop (k := k) h (by omega)
  rw [hcode, hshift] at hmem hback
  obtain ⟨m, hm, rfl⟩ := List.mem_map.mp hmem
  by_cases hlater : later = []
  · subst hlater
    refine .inr ⟨by simpa using hm, fun m hm => ?_⟩
    rw [Nat.add_comm]
    exact hback _ (List.mem_map_of_mem hm)
  · refine .inl fun i hi => ?_
    have := lt_of_mem_lengthsFrom_append hlater hi (by rwa [List.nil_append])
    omega

end Fragment

namespace Template

/-! ## The first capture -/

/-- Only captures of the names of the tokens count in a search. -/
theorem searchFrom_congr {bound other : List Capture} {tokens : List Token} {cs : List Char}
    (h : ∀ name ∈ tokenHoles tokens,
      bound.find? (·.name = name) = other.find? (·.name = name)) :
    searchFrom bound tokens cs = searchFrom other tokens cs := by
  induction tokens generalizing bound other cs with
  | nil => rfl
  | cons token rest ih =>
    cases token with
    | literal text =>
      rw [searchFrom, searchFrom]
      split
      · rfl
      · rw [ih h]
    | blank => rw [searchFrom, searchFrom, ih h]
    | hole name =>
      obtain ⟨hname, hrest⟩ := List.forall_mem_cons.mp h
      have hagrees (text : List Char) : agrees bound name text = agrees other name text := by
        rw [agrees, agrees, hname]
      rw [searchFrom, searchFrom]
      refine congrArg (List.findSome? · _) (funext fun n => ?_)
      dsimp only
      rw [hagrees, ih fun n hn => ?_]
      rw [List.find?_append, List.find?_append, hrest n hn]

variable {name : String} {rest : List Token} {cs : List Char} {found : Found}

theorem exists_capture (h : searchFrom [] (.hole name :: rest) cs = some found) :
    ∃ n ∈ Fragment.lengths cs, ∃ others, found.captures = ⟨name, cs.take n⟩ :: others := by
  cases (reads_of_searchFrom consistent_nil h).1 with
  | hole hn _ => exact ⟨_, Fragment.mem_lengths_of_mem_candidates hn, _, rfl⟩

/-- The first capture of a hole that is not repeated is the shortest fragment after which the other
tokens match, or for the last token the longest. -/
theorem capture_least (hname : name ∉ tokenHoles rest)
    (h : searchFrom [] (.hole name :: rest) cs = some found) :
    ∃ n ∈ Fragment.lengths cs, found.captures.head? = some ⟨name, cs.take n⟩ ∧
      (searchFrom [] rest (cs.drop n)).isSome = true ∧
      ∀ m ∈ Fragment.lengths cs, (searchFrom [] rest (cs.drop m)).isSome = true →
        if rest = [] then m ≤ n else n ≤ m := by
  have hsame (text after : List Char) :
      searchFrom [⟨name, text⟩] rest after = searchFrom [] rest after := by
    refine searchFrom_congr fun other hother => ?_
    have hne : name ≠ other := fun heq => hname (heq ▸ hother)
    simp [hne]
  rw [searchFrom] at h
  simp only [agrees, List.find?_nil, if_true, List.nil_append, hsame] at h
  obtain ⟨earlier, n, later, hlist, hn, hearlier⟩ := List.findSome?_eq_some_iff.mp h
  obtain ⟨after, hafter, rfl⟩ := Option.map_eq_some_iff.mp hn
  have hmem : n ∈ Fragment.candidates rest.isEmpty cs := hlist ▸ by simp
  refine ⟨n, Fragment.mem_lengths_of_mem_candidates hmem, rfl, Option.isSome_of_eq_some hafter,
    fun m hm hsome => ?_⟩
  have hsorted := Fragment.pairwise_lengths cs
  split
  · next hlast =>
    have hlongest : (Fragment.lengths cs).getLast? = some n := by
      simpa [Fragment.candidates, hlast] using hmem
    obtain ⟨shorter, hshorter⟩ := List.getLast?_eq_some_iff.mp hlongest
    rw [hshorter] at hm hsorted
    rcases List.mem_append.mp hm with hm | hm
    · exact Nat.le_of_lt ((List.pairwise_append.mp hsorted).2.2 m hm n (List.mem_singleton_self n))
    · exact Nat.le_of_eq (List.mem_singleton.mp hm)
  · next hlast =>
    rw [Fragment.candidates, if_neg (by simpa using hlast)] at hlist
    rw [hlist] at hm hsorted
    rcases List.mem_append.mp hm with hm | hm
    · have hnone := hearlier m hm
      rw [Option.map_eq_none_iff] at hnone
      simp [hnone] at hsome
    · rcases List.mem_cons.mp hm with rfl | hm
      · exact le_rfl
      · exact Nat.le_of_lt ((List.pairwise_cons.mp (List.pairwise_append.mp hsorted).2.1).1 m hm)

/-- If a hole is not repeated, then a match that starts inside its first capture, but in no string
literal of it, has its own first capture inside it. -/
theorem capture_within {later : Found} {k : Nat} {first captured : List Char}
    (hname : name ∉ tokenHoles rest) (h : searchFrom [] (.hole name :: rest) cs = some found)
    (hfirst : found.captures.head? = some ⟨name, first⟩) (hk : k < first.length)
    (hcode : Fragment.OutsideLiterals (cs.take k))
    (hlater : searchFrom [] (.hole name :: rest) (cs.drop k) = some later)
    (hcaptured : later.captures.head? = some ⟨name, captured⟩) :
    k + captured.length ≤ first.length := by
  obtain ⟨n, hn, hhead, hsome, hleast⟩ := capture_least hname h
  obtain ⟨m, hm, hhead', hsome', hleast'⟩ := capture_least hname hlater
  cases hhead.symm.trans hfirst
  cases hhead'.symm.trans hcaptured
  rw [List.length_take_of_le (Fragment.le_of_mem_lengths hn)] at hk ⊢
  rw [List.length_take_of_le (Fragment.le_of_mem_lengths hm)]
  rcases Fragment.lengths_drop hn hk hcode (Fragment.mem_lengths_iff.mp hm).1 with
    hinside | ⟨hsame, hback⟩
  · exact Nat.le_of_lt (hinside m hm)
  · have hdrop : (cs.drop k).drop (n - k) = cs.drop n := by
      rw [List.drop_drop]
      congr 1
      omega
    have hle := hleast' (n - k) hsame (by rwa [hdrop])
    have hge := hleast (k + m) (hback m hm) (by rwa [← List.drop_drop])
    split at hle
    · next hrest =>
      rwa [if_pos hrest] at hge
    · omega

/-! ## Later starts -/

/-- Tokens with a leading hole can start between two parts of a text: a term starts there, and they
match. -/
def CanStart (tokens : List Token) (before after : List Char) : Prop :=
  startsTerm before.getLast? after = true ∧ (matchHere tokens after).isSome = true

instance (tokens : List Token) (before after : List Char) :
    Decidable (CanStart tokens before after) :=
  inferInstanceAs (Decidable (_ ∧ _))

/-- Tokens cannot start after the place that was chosen as the latest. -/
theorem not_canStart_of_latestStart {tokens : List Token} {distance within : Nat} {previous : Char}
    {passed later : List Char} (hwithin : passed.length < within)
    (h : ∀ d found,
      latestStart tokens distance previous within (passed ++ later) = some (d, found) →
        d < distance + passed.length) : ¬CanStart tokens (previous :: passed) later := by
  induction passed generalizing distance within previous with
  | nil =>
    rintro ⟨hterm, hmatch⟩
    obtain ⟨within, rfl⟩ := Nat.exists_eq_succ_of_ne_zero (Nat.ne_zero_of_lt hwithin)
    cases later with
    | nil => cases hterm
    | cons c rest =>
      obtain ⟨found, hfound⟩ := Option.isSome_iff_exists.mp hmatch
      have hhere : startsTerm (some previous) (c :: rest) = true := hterm
      rw [List.nil_append] at h
      unfold latestStart at h
      cases hlater : latestStart tokens (distance + 1) c within rest with
      | some latest =>
        obtain ⟨k, -, hk, -⟩ := latestStart_spec hlater
        have := h latest.1 latest.2 (by rw [hlater])
        rw [List.length_nil] at this
        omega
      | none =>
        refine absurd (h distance found ?_) (by simp)
        rw [hlater]
        dsimp only
        rw [if_pos hhere, hfound]
        rfl
  | cons c passed ih =>
    obtain ⟨within, rfl⟩ := Nat.exists_eq_succ_of_ne_zero (Nat.ne_zero_of_lt hwithin)
    rw [List.length_cons] at hwithin h
    have hrest := @ih (distance + 1) within c (by omega) fun d found hlatest => by
      have := h d found (by rw [List.cons_append, latestStart, hlatest])
      omega
    simpa [CanStart, List.getLast?_cons_cons] using hrest

/-- A match with a leading hole settles inside its first capture, and cannot start at a later place
in it. -/
theorem settle_latest {tokens : List Token} {c : Char} {cs : List Char} {found : Found}
    {first : Capture} (hhole : startsWithHole tokens = true)
    (hfirst : found.captures.head? = some first) (hne : first.text ≠ []) :
    (settle tokens c cs found).1 < first.text.length ∧
      ∀ passed later, c :: cs = passed ++ later → (settle tokens c cs found).1 < passed.length →
        passed.length < first.text.length → ¬CanStart tokens passed later := by
  obtain ⟨others, hcaptures⟩ := List.head?_eq_some_iff.mp hfirst
  have hlength := List.length_pos_iff.mpr hne
  unfold settle
  rw [hhole, hcaptures]
  dsimp only
  constructor
  · cases hlatest : latestStart tokens 1 c (first.text.length - 1) cs with
    | none => exact hlength
    | some later =>
      obtain ⟨k, hk, hd, -⟩ := latestStart_spec hlatest
      dsimp only [Option.getD]
      omega
  · intro passed later hparts hlater hinside
    cases passed with
    | nil => exact absurd hlater (Nat.not_lt_zero _)
    | cons p passed =>
      obtain ⟨rfl, rfl⟩ := List.cons_eq_cons.mp (hparts.trans List.cons_append)
      rw [List.length_cons] at hlater hinside
      refine @not_canStart_of_latestStart tokens 1 (first.text.length - 1) _ passed later (by omega)
        fun d found hlatest => ?_
      rw [hlatest] at hlater
      dsimp only [Option.getD] at hlater
      omega

/-- Tokens can start after some characters of a text that lies between two others. -/
def StartsInside (tokens : List Token) (before captured after skipped : List Char) : Prop :=
  ∃ later, captured = skipped ++ later ∧ skipped ≠ [] ∧ later ≠ [] ∧
    CanStart tokens (before ++ skipped) (later ++ after)

/-- Tokens with a leading hole that match at a place settle where they cannot start inside what the
hole then captures, but behind the end of what it captured first. -/
theorem settle_least {name : String} {rest : List Token} {c : Char} {cs : List Char} {found : Found}
    (walked : List Char) (h : matchHere (.hole name :: rest) (c :: cs) = some found) :
    ∃ passed captured after first, c :: cs = passed ++ (captured ++ after) ∧
      passed.length = (settle (.hole name :: rest) c cs found).1 ∧
      (settle (.hole name :: rest) c cs found).2.captures.head? = some ⟨name, captured⟩ ∧
      found.captures.head? = some ⟨name, first⟩ ∧ first <+: c :: cs ∧
      passed.length < first.length ∧
      (∀ skipped, StartsInside (.hole name :: rest) (walked ++ passed) captured after skipped →
        first.length ≤ passed.length + skipped.length) ∧
      (name ∉ tokenHoles rest → Fragment.OutsideLiterals passed →
        passed.length + captured.length ≤ first.length) := by
  have hsearch := (matchHere_eq_some_iff.mp h).1
  have hsettled := (matchHere_eq_some_iff.mp (settle_spec h).1).1
  obtain ⟨n, hn, others, hcaptures⟩ := exists_capture hsearch
  obtain ⟨m, -, others', hcaptures'⟩ := exists_capture hsettled
  have hnle : n ≤ (c :: cs).length := Fragment.le_of_mem_lengths hn
  have hlength : ((c :: cs).take n).length = n := List.length_take_of_le hnle
  have hfirst : found.captures.head? = some ⟨name, (c :: cs).take n⟩ := by rw [hcaptures]; rfl
  have hne : (c :: cs).take n ≠ [] := by
    rw [← List.length_pos_iff, hlength]
    exact Fragment.pos_of_mem_lengths hn
  obtain ⟨hdist, hlatest⟩ := @settle_latest (.hole name :: rest) c cs found _ rfl hfirst hne
  generalize settle (.hole name :: rest) c cs found = settled at *
  obtain ⟨d, later⟩ := settled
  dsimp only at *
  have hd : ((c :: cs).take d).length = d := List.length_take_of_le (by omega)
  have hcaptured : later.captures.head? = some ⟨name, ((c :: cs).drop d).take m⟩ := by
    rw [hcaptures']; rfl
  refine ⟨(c :: cs).take d, ((c :: cs).drop d).take m, ((c :: cs).drop d).drop m, (c :: cs).take n,
    ?_, hd, hcaptured, hfirst, List.take_prefix .., by rwa [hd], ?_, fun hname hcode => ?_⟩
  · rw [List.take_append_drop, List.take_append_drop]
  · rintro skipped ⟨ahead, hcaptured, hskipped, -, hcan⟩
    by_contra hlt
    have hlength : ((c :: cs).take d ++ skipped).length = d + skipped.length := by
      rw [List.length_append, hd]
    refine hlatest ((c :: cs).take d ++ skipped) (ahead ++ ((c :: cs).drop d).drop m) ?_ ?_ ?_ ?_
    · rw [List.append_assoc, ← List.append_assoc skipped, ← hcaptured, List.take_append_drop,
        List.take_append_drop]
    · rw [hlength]
      exact Nat.lt_add_of_pos_right (List.length_pos_iff.mpr hskipped)
    · omega
    · obtain ⟨last, hlast⟩ : ∃ last, skipped.getLast? = some last :=
        ⟨_, List.getLast?_eq_some_getLast hskipped⟩
      simpa [CanStart, List.getLast?_append, hlast] using hcan
  · rw [hd]
    exact capture_within hname hsearch hfirst hdist hcode hsettled hcaptured

/-- Every match of a template that starts with a hole comes from a place at which the walk over the
text stood: the hole captured a first text there, and the match starts inside it. The template can
start at a later place inside what the hole captures in the match only behind the end of the first
text. If the hole is not repeated and the match does not start in a string literal of the first
text, it can do so nowhere. -/
theorem findMatches_least {text template : List Char} {name : String} {rest : List Token}
    {ms : List Match} {m : Match} (hread : tokens template = .ok (.hole name :: rest))
    (hms : findMatches text template = .ok ms) (hm : m ∈ ms) :
    ∃ walked passed captured after first, text = walked ++ passed ++ (captured ++ after) ∧
      m.span.start = SourceText.locationAt text (byteLength (walked ++ passed)) ∧
      m.bindings.get? name = some (String.ofList captured) ∧
      (matchHere (.hole name :: rest) (passed ++ (captured ++ after))).bind (·.captures.head?) =
        some ⟨name, first⟩ ∧
      first <+: passed ++ (captured ++ after) ∧ passed.length < first.length ∧
      (∀ skipped, StartsInside (.hole name :: rest) (walked ++ passed) captured after skipped →
        first.length ≤ passed.length + skipped.length) ∧
      (name ∉ tokenHoles rest → Fragment.OutsideLiterals passed → ∀ skipped,
        ¬StartsInside (.hole name :: rest) (walked ++ passed) captured after skipped) := by
  obtain ⟨_, hread', h⟩ := Except.bind_eq_ok_iff.mp hms
  cases hread.symm.trans hread'
  cases h
  obtain ⟨o, ho, rfl⟩ := List.mem_map.mp hm
  obtain ⟨walked, ahead, rfl, -, hsettles⟩ := settlesAt_of_mem_occurrencesFrom [] ho
  have hstands := hsettles.stands.1
  obtain ⟨c, cs, found, rfl, -, hfound, rfl⟩ := hsettles
  obtain ⟨passed, captured, after, first, hparts, hpassed, hcaptured, hfirst, hprefix, hinside,
    hbehind, hwithin⟩ := settle_least walked hfound
  rw [List.nil_append] at hstands
  refine ⟨walked, passed, captured, after, first, ?_, ?_, ?_, ?_, hparts ▸ hprefix, hinside,
    hbehind, fun hname hcode skipped hstarts => ?_⟩
  · rw [hparts, List.append_assoc]
  · have htake : (walked ++ c :: cs).take (walked.length + passed.length) = walked ++ passed := by
      rw [hparts, List.take_length_add_append, List.take_left]
    rw [← htake, hpassed]
    rfl
  · exact hstands.bound ⟨name, captured⟩ (List.mem_of_head? hcaptured)
  · rw [← hparts, hfound]
    exact hfirst
  · have hle := hbehind skipped hstarts
    have hcapture := hwithin hname hcode
    obtain ⟨later, rfl, -, hlater, -⟩ := hstarts
    have := List.length_pos_iff.mpr hlater
    rw [List.length_append] at hcapture
    omega

/-- A leading hole captures no more than the brackets before the operator. -/
theorem findMatches_least_sample : ∃ m ms before captured after,
    tokens ":[l] + :[r]".toList =
      .ok [.hole "l", .blank, .literal ['+'], .blank, .hole "r"] ∧
    findMatches "y = é (a b) + c".toList ":[l] + :[r]".toList = .ok ms ∧ m ∈ ms ∧
    "y = é (a b) + c".toList = before ++ (captured ++ after) ∧
    m.bindings.get? "l" = some (String.ofList captured) ∧
    ∀ skipped, ¬StartsInside [.hole "l", .blank, .literal ['+'], .blank, .hole "r"] before captured
      after skipped := by
  have hread : (tokens ":[l] + :[r]".toList).toOption =
      some [.hole "l", .blank, .literal ['+'], .blank, .hole "r"] := by decide +kernel
  have hms : (findMatches "y = é (a b) + c".toList ":[l] + :[r]".toList).toOption =
      some [⟨⟨⟨1, 7⟩, ⟨1, 16⟩⟩, .ofList [("l", "(a b)"), ("r", "c")]⟩] := by decide +kernel
  obtain ⟨walked, passed, captured, after, first, htext, -, hbound, -, -, -, -, hnone⟩ :=
    findMatches_least (Except.eq_ok_of_toOption hread) (Except.eq_ok_of_toOption hms)
      List.mem_cons_self
  refine ⟨_, _, walked ++ passed, captured, after, Except.eq_ok_of_toOption hread,
    Except.eq_ok_of_toOption hms, List.mem_cons_self, htext, hbound, ?_⟩
  refine hnone (by decide) (Fragment.outsideLiterals_of_not_mem fun hquote => ?_)
  have hmem : '"' ∈ "y = é (a b) + c".toList := by
    rw [htext]
    exact List.mem_append_left _ (List.mem_append_right _ hquote)
  exact absurd hmem (by decide)

/-- A repeated hole that starts anew inside of what it captured first can capture more than that,
and then the template also starts inside of it. -/
theorem findMatches_reaches_on : ∃ m,
    tokens ":[x] = :[x] =".toList =
      .ok [.hole "x", .blank, .literal ['='], .blank, .hole "x", .blank, .literal ['=']] ∧
    findMatches "a b = a b = b = a b = 1".toList ":[x] = :[x] =".toList = .ok [m] ∧
    m.span.start = SourceText.locationAt "a b = a b = b = a b = 1".toList (byteLength "a ".toList) ∧
    m.bindings.get? "x" = some "b = a b" ∧
    StartsInside [.hole "x", .blank, .literal ['='], .blank, .hole "x", .blank, .literal ['=']]
      "a ".toList "b = a b".toList " = b = a b = 1".toList "b = a ".toList :=
  ⟨⟨⟨⟨1, 2⟩, ⟨1, 21⟩⟩, .ofList [("x", "b = a b")]⟩, Except.eq_ok_of_toOption (by decide +kernel),
    Except.eq_ok_of_toOption (by decide +kernel), by decide +kernel, by decide +kernel, ['b'],
    by decide, by decide, by decide, by decide +kernel⟩

/-- So can a hole that starts anew inside a string literal, whose end it takes for a start. -/
example :
    (findMatches "\"a b\" + \" + c\" + d".toList ":[x] +".toList).toOption =
        some [⟨⟨⟨1, 3⟩, ⟨1, 11⟩⟩, .ofList [("x", "b\" + \"")]⟩] ∧
      CanStart [.hole "x", .blank, .literal ['+']] "\"a b\" + ".toList "\" + c\" + d".toList := by
  decide +kernel

end Template

end Mutagenesis
