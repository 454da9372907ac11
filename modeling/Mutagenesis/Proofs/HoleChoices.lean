import Mutagenesis.Proofs.LeadingHoles
import Mutagenesis.Proofs.OffsetMatching
import Mutagenesis.Proofs.SplicedTexts
import Mutagenesis.Proofs.TemplateTokens

/-!
# Where holes end

The offsets at which a hole can end are those of the fragments that start where the hole does
(`holeEnds_exact`). To match tokens from an offset on is to choose one of them for each hole, so
that the tokens follow each other and slots of one name hold one text (`Follows`, `Agreeing`). The
search goes through all choices, the shorter ends first (`Chooses`, `matchFrom?_chooses`), and so it
finds the choice whose ends come first in lexicographic order (`search_least`).
-/

set_option autoImplicit false

namespace Mutagenesis

open Text (byteLength)

/-! ## Candidates -/

theorem Fragment.pairwise_candidates (last : Bool) (cs : List Char) :
    (candidates last cs).Pairwise (· < ·) := by
  unfold candidates
  split
  · cases (lengths cs).getLast? with
    | none => exact .nil
    | some n => exact List.pairwise_singleton ..
  · exact pairwise_lengths cs

/-- The text between the end of a text and a later offset. -/
theorem SourceText.slice?_append_iff {before cs middle : List Char} {stop : Nat} :
    slice? (before ++ cs) (byteLength before) stop = some middle ↔
      ∃ after, cs = middle ++ after ∧ stop = byteLength (before ++ middle) := by
  constructor
  · intro h
    obtain ⟨before', after, htext, hstart, hstop⟩ := append_of_slice? h
    have hsplit := Text.splitAtByte?_append before cs
    rw [htext, List.append_assoc, ← hstart, Text.splitAtByte?_append] at hsplit
    cases hsplit
    exact ⟨after, rfl, hstop.symm⟩
  · rintro ⟨after, rfl, rfl⟩
    rw [← List.append_assoc]
    exact slice?_append ..

namespace Template

/-- The offsets at which a hole can end that starts at a place of a text. -/
def holeEnds (before cs : List Char) (last : Bool) : List Nat :=
  (Fragment.candidates last cs).map fun n => byteLength (before ++ cs.take n)

theorem pairwise_holeEnds (before cs : List Char) (last : Bool) :
    (holeEnds before cs last).Pairwise (· < ·) := by
  refine List.pairwise_map.mpr ((Fragment.pairwise_candidates last cs).imp_of_mem ?_)
  intro a b _ hb hlt
  rw [Text.byteLength_append, Text.byteLength_append]
  exact Nat.add_lt_add_left (byteLength_take_lt cs hlt (Fragment.le_of_mem_candidates hb)) _

/-- The ends of a hole are listed in order, and they are the ends of the fragments that start where
the hole does. The last hole of a template has only the last of them. -/
theorem holeEnds_exact (before cs : List Char) :
    (∀ last, Checked.holeEnds? (before ++ cs) (byteLength before) last =
      some (holeEnds before cs last)) ∧
    (holeEnds before cs false).Pairwise (· < ·) ∧
    (∀ stop, stop ∈ holeEnds before cs false ↔ ∃ captured,
      SourceText.slice? (before ++ cs) (byteLength before) stop = some captured ∧
        Fragment.IsFragment captured) ∧
    holeEnds before cs true = (holeEnds before cs false).getLast?.toList := by
  refine ⟨fun last => Checked.holeEnds?_eq rfl last, pairwise_holeEnds .., fun stop => ?_, ?_⟩
  · have hfragments : stop ∈ holeEnds before cs false ↔
        ∃ n, n ∈ Fragment.lengths cs ∧ byteLength (before ++ cs.take n) = stop := List.mem_map
    rw [hfragments]
    simp only [Fragment.mem_lengths_iff_isFragment, SourceText.slice?_append_iff]
    constructor
    · rintro ⟨_, ⟨captured, after, rfl, rfl, hcaptured⟩, rfl⟩
      exact ⟨captured, ⟨after, rfl, by rw [List.take_left]⟩, hcaptured⟩
    · rintro ⟨captured, ⟨after, rfl, rfl⟩, hcaptured⟩
      exact ⟨_, ⟨captured, after, rfl, rfl, hcaptured⟩, by rw [List.take_left]⟩
  · simp [holeEnds, Fragment.candidates, List.getLast?_map, Option.toList_map]

/-! ## Choices -/

namespace Checked

/-- Tokens match one after the other from an offset on, and each hole ends at one of its ends. -/
inductive Follows (text : List Char) : List Token → (o : Nat) → List Slot → (stop : Nat) → Prop
  | done {o : Nat} : Follows text [] o [] o
  | literal {lead : List Char} {rest : List Token} {o stop : Nat} {slots : List Slot} :
      SourceText.slice? text o (o + byteLength lead) = some lead →
      Follows text rest (o + byteLength lead) slots stop →
      Follows text (.literal lead :: rest) o slots stop
  | blank {run after : List Char} {rest : List Token} {o stop : Nat} {slots : List Slot} :
      from? text o = some (run ++ after) → run ≠ [] → (∀ c ∈ run, Text.isBlank c = true) →
      after.head?.any Text.isBlank = false → Follows text rest (o + byteLength run) slots stop →
      Follows text (.blank :: rest) o slots stop
  | hole {name : String} {rest : List Token} {o next stop : Nat} {ends : List Nat}
      {slots : List Slot} : holeEnds? text o rest.isEmpty = some ends → next ∈ ends →
      Follows text rest next slots stop →
      Follows text (.hole name :: rest) o (⟨name, o, next⟩ :: slots) stop

/-- Slots of one name hold one text. -/
def Agreeing (text : List Char) (slots : List Slot) : Prop :=
  ∀ a ∈ slots, ∀ b ∈ slots, a.name = b.name →
    SourceText.slice? text a.start a.stop = SourceText.slice? text b.start b.stop

variable {text : List Char}

theorem Agreeing.left {slots more : List Slot} (h : Agreeing text (slots ++ more)) :
    Agreeing text slots :=
  fun a ha b hb => h a (List.mem_append_left _ ha) b (List.mem_append_left _ hb)

/-- A slot clashes with those that are bound exactly if it does not agree with them. -/
theorem clashes?_iff {bound : List Slot} {slot : Slot} (hagree : Agreeing text bound)
    (hlies : ∀ s ∈ bound ++ [slot], (SourceText.slice? text s.start s.stop).isSome = true) :
    ∃ clash, clashes? text bound slot.name slot.start slot.stop = some clash ∧
      (clash = false ↔ Agreeing text (bound ++ [slot])) := by
  have hiff : Agreeing text (bound ++ [slot]) ↔ ∀ s ∈ bound, s.name = slot.name →
      SourceText.slice? text s.start s.stop = SourceText.slice? text slot.start slot.stop := by
    constructor
    · intro h s hs
      exact h s (List.mem_append_left _ hs) slot (by simp)
    · intro h a ha b hb hname
      rw [List.mem_append, List.mem_singleton] at ha hb
      rcases ha with ha | rfl <;> rcases hb with hb | rfl
      · exact hagree a ha b hb hname
      · exact h a ha hname
      · exact (h b hb hname.symm).symm
      · rfl
  rw [hiff]
  unfold clashes?
  cases hfind : bound.find? (·.name = slot.name) with
  | none =>
    refine ⟨false, rfl, iff_of_true rfl fun s hs hname => ?_⟩
    exact absurd (by simpa using hname) (List.find?_eq_none.mp hfind s hs)
  | some first =>
    have hmem := List.mem_of_find?_eq_some hfind
    have hname : first.name = slot.name := by simpa using List.find?_some hfind
    obtain ⟨piece, hpiece⟩ := Option.isSome_iff_exists.mp (hlies first (by simp [hmem]))
    obtain ⟨captured, hcaptured⟩ := Option.isSome_iff_exists.mp (hlies slot (by simp))
    refine ⟨piece != captured, by simp [hpiece, hcaptured], ?_⟩
    rw [bne_eq_false_iff_eq, hcaptured]
    constructor
    · rintro rfl s hs hs'
      rw [hagree s hs first hmem (hs'.trans hname.symm), hpiece]
    · intro h
      exact Option.some.inj (hpiece.symm.trans (h first hmem hname))

/-- The first answer of a search: all candidates have none, or one has it and none before. -/
theorem firstSome?_cases {α β : Type} {f : α → Option (Option β)} {xs : List α} {r : Option β}
    (h : firstSome? f xs = some r) :
    match r with
    | none => ∀ x ∈ xs, f x = some none
    | some b => ∃ earlier x later, xs = earlier ++ x :: later ∧ f x = some (some b) ∧
        ∀ y ∈ earlier, f y = some none := by
  induction xs with
  | nil =>
    cases h
    exact nofun
  | cons x xs ih =>
    rw [firstSome?] at h
    obtain ⟨first, hfirst, h⟩ := Option.bind_eq_some_iff.mp h
    cases first with
    | some b =>
      cases h
      exact ⟨[], x, xs, rfl, hfirst, nofun⟩
    | none =>
      have hrest := ih h
      cases r with
      | none => exact List.forall_mem_cons.mpr ⟨hfirst, hrest⟩
      | some b =>
        obtain ⟨earlier, y, later, rfl, hy, hearlier⟩ := hrest
        exact ⟨x :: earlier, y, later, rfl, hy, List.forall_mem_cons.mpr ⟨hfirst, hearlier⟩⟩

theorem names_of_holds {slots : List Slot} {captures : List Capture}
    (h : List.Forall₂ (Slot.Holds text) slots captures) :
    slots.map (·.name) = captures.map (·.name) := by
  induction h with
  | nil => rfl
  | cons hslot _ ih => rw [List.map_cons, List.map_cons, hslot.name, ih]

/-- What a search among all choices finds, when some slots are bound already: nothing if there is no
choice, else these slots and those of a choice whose ends come before those of all others. -/
def Chooses (text : List Char) (bound : List Slot) (tokens : List Token) (o : Nat) :
    Option (Nat × List Slot) → Prop
  | none => ∀ slots stop, Follows text tokens o slots stop → ¬Agreeing text (bound ++ slots)
  | some (stop, all) => ∃ slots, all = bound ++ slots ∧ Follows text tokens o slots stop ∧
      Agreeing text (bound ++ slots) ∧ ∀ slots' stop', Follows text tokens o slots' stop' →
        Agreeing text (bound ++ slots') → slots' = slots ∧ stop' = stop ∨
          List.Lex (· < ·) (slots.map (·.stop)) (slots'.map (·.stop))

theorem Chooses.of_iff {bound : List Slot} {tokens rest : List Token} {o next : Nat}
    {r : Option (Nat × List Slot)} (h : Chooses text bound rest next r)
    (hiff : ∀ slots stop, Follows text tokens o slots stop ↔ Follows text rest next slots stop) :
    Chooses text bound tokens o r := by
  cases r with
  | none => simpa only [Chooses, hiff] using h
  | some found => simpa only [Chooses, hiff] using h

/-- The first end of a hole from which the search goes on to the end of the tokens is that of the
choice that comes first. -/
theorem Chooses.hole {bound : List Slot} {name : String} {rest : List Token} {o : Nat}
    {ends : List Nat} {f : Nat → Option (Option (Nat × List Slot))} {r : Option (Nat × List Slot)}
    (hends : holeEnds? text o rest.isEmpty = some ends) (hsorted : ends.Pairwise (· < ·))
    (hf : ∀ next ∈ ends, ∀ r, f next = some r →
      Chooses text (bound ++ [⟨name, o, next⟩]) rest next r)
    (hr : firstSome? f ends = some r) : Chooses text bound (.hole name :: rest) o r := by
  have hcases := firstSome?_cases hr
  cases r with
  | none =>
    rintro _ stop (_ | _ | _ | ⟨hends', hnext, hfollows⟩)
    cases hends.symm.trans hends'
    rw [List.append_cons]
    exact hf _ hnext none (hcases _ hnext) _ stop hfollows
  | some found =>
    obtain ⟨earlier, next, later, rfl, hnext, hearlier⟩ := hcases
    have hmem : next ∈ earlier ++ next :: later := by simp
    obtain ⟨slots, hall, hfollows, hagree, hleast⟩ := hf next hmem _ hnext
    rw [List.append_assoc] at hall hagree
    refine ⟨⟨name, o, next⟩ :: slots, hall, .hole hends hmem hfollows, hagree, ?_⟩
    rintro _ stop' (_ | _ | _ | ⟨hends', hother, hfollows'⟩) hagree'
    cases hends.symm.trans hends'
    rw [List.append_cons] at hagree'
    rcases List.mem_append.mp hother with hbefore | hafter
    · have hnone := hf _ hother none (hearlier _ hbefore)
      exact absurd hagree' (hnone _ stop' hfollows')
    · rcases List.mem_cons.mp hafter with rfl | hafter
      · refine (hleast _ stop' hfollows' hagree').imp ?_ .cons
        rintro ⟨rfl, rfl⟩
        exact ⟨rfl, rfl⟩
      · have hlt := (List.pairwise_cons.mp (List.pairwise_append.mp hsorted).2.1).1 _ hafter
        exact .inr (.rel hlt)

/-- The search goes through all choices for tokens, from every place on and whatever agreeing slots
are bound. -/
def Exhausts (text : List Char) (tokens : List Token) : Prop :=
  ∀ before cs, text = before ++ cs → ∀ bound, Agreeing text bound →
    (∀ s ∈ bound, (SourceText.slice? text s.start s.stop).isSome = true) →
      ∀ r, matchFrom? text bound tokens (byteLength before) = some r →
        Chooses text bound tokens (byteLength before) r

section

variable {rest : List Token} (hrest : Exhausts text rest)
include hrest

/-- All choices are gone through after a literal. -/
theorem Exhausts.literal (lead : List Char) : Exhausts text (.literal lead :: rest) := by
  intro before cs h bound hagree hlies r hr
  rw [matchFrom?_literal h] at hr
  split at hr
  · next hlead =>
    obtain ⟨cs', rfl⟩ := hlead
    have hchooses := hrest _ _ (h.trans (List.append_assoc ..).symm) _ hagree hlies _ hr
    refine hchooses.of_iff fun slots stop => ?_
    rw [Text.byteLength_append]
    constructor
    · rintro (_ | ⟨_, hfollows⟩)
      exact hfollows
    · refine .literal ?_
      rw [h, SourceText.slice?_append_iff, Text.byteLength_append]
      exact ⟨cs', rfl, rfl⟩
  · next hlead =>
    cases hr
    rintro slots stop (_ | ⟨hslice, _⟩)
    rw [h, SourceText.slice?_append_iff] at hslice
    obtain ⟨after, rfl, -⟩ := hslice
    exact absurd (List.prefix_append lead after) hlead

/-- All choices are gone through after blanks. -/
theorem Exhausts.blank : Exhausts text (.blank :: rest) := by
  intro before cs h bound hagree hlies r hr
  obtain ⟨run, after, rfl, hlength, hrun, hafter⟩ := blankRun_spec cs
  -- The blanks at the place are these, however they are divided.
  have hsame : ∀ run' after', run ++ after = run' ++ after' →
      (∀ c ∈ run', Text.isBlank c = true) → after'.head?.any Text.isBlank = false →
      run' = run := by
    intro run' after' heq hrun' hafter'
    have hlength' := length_blankRun hrun' hafter'
    rw [← heq, hlength] at hlength'
    exact (List.append_inj heq hlength').1.symm
  have hfrom := from?_eq h
  rw [matchFrom?_blank h hlength] at hr
  split at hr
  · next hempty =>
    cases hr
    rintro slots stop (_ | _ | ⟨hfrom', hne, hrun', hafter', _⟩)
    exact absurd ((hsame _ _ (Option.some.inj (hfrom.symm.trans hfrom')) hrun' hafter').trans
      hempty) hne
  · next hempty =>
    have hchooses := hrest _ _ (h.trans (List.append_assoc ..).symm) _ hagree hlies _ hr
    refine hchooses.of_iff fun slots stop => ?_
    rw [Text.byteLength_append]
    constructor
    · rintro (_ | _ | ⟨hfrom', hne, hrun', hafter', hfollows⟩)
      obtain rfl := hsame _ _ (Option.some.inj (hfrom.symm.trans hfrom')) hrun' hafter'
      exact hfollows
    · exact .blank hfrom hempty hrun hafter

/-- An end of a hole is tried with its slot bound too, and it is passed over if the slot does not
agree with those that are bound. -/
theorem Exhausts.hole (name : String) : Exhausts text (.hole name :: rest) := by
  intro before cs h bound hagree hlies r hr
  have hends := holeEnds?_eq h rest.isEmpty
  rw [matchFrom?, hends] at hr
  refine Chooses.hole hends (pairwise_holeEnds before cs _) (fun next hnext r hr => ?_) hr
  obtain ⟨n, -, rfl⟩ := List.mem_map.mp hnext
  have hslot := Slot.holds_take h name n
  have hlies' : ∀ s ∈ bound ++ [⟨name, byteLength before, byteLength (before ++ cs.take n)⟩],
      (SourceText.slice? text s.start s.stop).isSome = true :=
    List.forall_mem_append.mpr ⟨hlies, List.forall_mem_singleton.mpr (by rw [hslot.piece]; rfl)⟩
  obtain ⟨clash, hclash, hiff⟩ := clashes?_iff hagree hlies'
  dsimp only at hclash
  rw [hclash] at hr
  cases clash with
  | true =>
    cases hr
    intro slots stop _ hagree'
    exact absurd (hiff.mpr hagree'.left) (by decide)
  | false => exact hrest _ _ (cut_take h n) _ (hiff.mp rfl) hlies' _ hr

end

/-- Matching at offsets finds the choice whose ends come first, if there is one. -/
theorem matchFrom?_chooses (tokens : List Token) : Exhausts text tokens := by
  induction tokens with
  | nil =>
    intro before cs h bound hagree hlies r hr
    cases hr
    refine ⟨[], (List.append_nil _).symm, .done, by rwa [List.append_nil], ?_⟩
    rintro _ _ ⟨⟩ -
    exact .inl ⟨rfl, rfl⟩
  | cons token rest ih =>
    cases token with
    | literal lead => exact ih.literal lead
    | blank => exact ih.blank
    | hole name => exact ih.hole name

end Checked

/-- No match of a template is empty, so the search has nothing to refuse. -/
theorem search_eq_searchFrom {template : List Char} {read : List Token}
    (hread : tokens template = .ok read) (cs : List Char) :
    search read cs = searchFrom [] read cs := by
  have hne : read ≠ [] := by
    obtain ⟨htrim, -, rfl⟩ := tokens_eq_ok_iff.mp hread
    intro hnil
    have hspelled := rendered_group_marks (Text.trim template)
    rw [hnil] at hspelled
    exact htrim (collapse_eq_nil_iff.mp hspelled.symm)
  unfold search
  cases hfound : searchFrom [] read cs with
  | none => rfl
  | some found =>
    have hpos := pos_of_reads (reads_of_searchFrom consistent_nil hfound).1
      (shaped_of_tokens hread).1 hne
    simp [Option.filter, hpos]

/-- The search finds something exactly if there is a choice of ends for the holes with which the
tokens match and that agrees for holes of one name. What it finds has a slot for each hole, in the
order of the tokens, and no other; and their ends come first, in lexicographic order, among those of
all such choices. -/
theorem search_least {template : List Char} {read : List Token} (hread : tokens template = .ok read)
    (before cs : List Char) :
    ((search read cs).isSome = true ↔ ∃ slots stop,
      Checked.Follows (before ++ cs) read (byteLength before) slots stop ∧
        Checked.Agreeing (before ++ cs) slots) ∧
    ∀ found, search read cs = some found → ∃ slots stop,
      Checked.matchFrom? (before ++ cs) [] read (byteLength before) = some (some (stop, slots)) ∧
      List.Forall₂ (Checked.Slot.Holds (before ++ cs)) slots found.captures ∧
      stop = byteLength (before ++ cs.take found.length) ∧
      slots.map (·.name) = tokenHoles read ∧
      Checked.Follows (before ++ cs) read (byteLength before) slots stop ∧
      Checked.Agreeing (before ++ cs) slots ∧
      ∀ slots' stop', Checked.Follows (before ++ cs) read (byteLength before) slots' stop' →
        Checked.Agreeing (before ++ cs) slots' → slots' = slots ∧ stop' = stop ∨
          List.Lex (· < ·) (slots.map (·.stop)) (slots'.map (·.stop)) := by
  rw [search_eq_searchFrom hread]
  obtain ⟨r, hr, hagree⟩ := Checked.matchFrom?_eq read before cs rfl [] [] .nil
  have hchooses := Checked.matchFrom?_chooses read before cs rfl [] nofun nofun r hr
  cases hfound : searchFrom [] read cs with
  | none =>
    rw [hfound] at hagree
    match r, hagree with
    | none, _ =>
      refine ⟨iff_of_false nofun ?_, nofun⟩
      rintro ⟨slots, stop, hfollows, hslots⟩
      exact hchooses slots stop hfollows hslots
  | some found =>
    rw [hfound] at hagree
    match r, hagree with
    | some (stop, all), ⟨hstop, new, hnew, hholds, _⟩ =>
      obtain ⟨slots, hall, hfollows, hslots, hleast⟩ := hchooses
      obtain rfl : all = slots := hall
      obtain rfl : all = new := hnew
      refine ⟨iff_of_true rfl ⟨all, stop, hfollows, hslots⟩, ?_⟩
      rintro _ ⟨⟩
      refine ⟨all, stop, hr, hholds, hstop, ?_, hfollows, hslots, hleast⟩
      rw [← (searchFrom_spec hfound).2]
      exact Checked.names_of_holds hholds

/-- The first end of the first hole does not lead to a match, the second one neither. -/
theorem search_least_sample : ∃ found slots stop,
    tokens ":[x] = :[x]".toList =
      .ok [.hole "x", .blank, .literal ['='], .blank, .hole "x"] ∧
    search [.hole "x", .blank, .literal ['='], .blank, .hole "x"] "a = b = a = b".toList =
      some found ∧
    slots.map (fun s => (s.name, s.start, s.stop)) = [("x", 3, 8), ("x", 11, 16)] ∧
    ∀ slots' stop', Checked.Follows "é a = b = a = b".toList
        [.hole "x", .blank, .literal ['='], .blank, .hole "x"] 3 slots' stop' →
      Checked.Agreeing "é a = b = a = b".toList slots' → slots' = slots ∧ stop' = stop ∨
        List.Lex (· < ·) (slots.map (·.stop)) (slots'.map (·.stop)) := by
  have hread : (tokens ":[x] = :[x]".toList).toOption =
      some [.hole "x", .blank, .literal ['='], .blank, .hole "x"] := by decide +kernel
  have hread := Except.eq_ok_of_toOption hread
  have hsome : (search [.hole "x", .blank, .literal ['='], .blank, .hole "x"]
      "a = b = a = b".toList).isSome = true := by decide +kernel
  have hslots : (Checked.matchFrom? "é a = b = a = b".toList []
      [.hole "x", .blank, .literal ['='], .blank, .hole "x"] 3).map (·.map fun r =>
        (r.2.map fun s => (s.name, s.start, s.stop))) =
      some (some [("x", 3, 8), ("x", 11, 16)]) := by decide +kernel
  obtain ⟨found, hfound⟩ := Option.isSome_iff_exists.mp hsome
  obtain ⟨slots, stop, hmatch, -, -, -, -, -, hleast⟩ :=
    (search_least hread "é ".toList "a = b = a = b".toList).2 found hfound
  have htext : "é ".toList ++ "a = b = a = b".toList = "é a = b = a = b".toList := by decide
  have hstart : byteLength "é ".toList = 3 := by decide
  rw [htext, hstart] at hmatch hleast
  rw [hmatch] at hslots
  exact ⟨found, slots, stop, hread, hfound, Option.some.inj (Option.some.inj hslots), hleast⟩

end Template

end Mutagenesis
