import Mutagenesis.Proofs.LineIndex
import Mutagenesis.Proofs.TemplateReadings

/-!
# Which occurrences are found

Every match divides the text that it covers as its template says (`findMatches_divides`). The walk
over a text passes a place only if no match starts there or an earlier one covers it
(`covered_of_matchHere`). So a template that starts with a literal misses no occurrence, as long as
the first reading that the search comes to does not end inside a word (`findMatches_covers`).
-/

set_option autoImplicit false

namespace Mutagenesis

open Text (byteLength)

namespace Template

section

variable {tokens : List Token} {text : List Char} {o : Occurrence}

/-- A reading by the tokens of a template covers something. -/
theorem pos_of_reads {cs : List Char} {found : Found} (h : Reads tokens cs found)
    (hshaped : Shaped tokens) (hne : tokens ≠ []) : 0 < found.length := by
  cases h with
  | done => exact absurd rfl hne
  | @literal lead _ _ _ _ =>
    have hlead : lead ≠ [] := (hshaped.solid (.literal lead) List.mem_cons_self).1
    exact Nat.add_pos_left (List.length_pos_iff.mpr hlead) _
  | blank hrun => exact Nat.add_pos_left (List.length_pos_iff.mpr hrun) _
  | @hole _ _ n _ _ hn _ =>
    obtain ⟨-, ⟨c, hc, -⟩, -⟩ := Fragment.isFragment_of_mem_candidates hn
    have hn : n ≠ 0 := fun hzero => by simp [hzero] at hc
    exact Nat.add_pos_left (Nat.pos_of_ne_zero hn) _

/-- What an occurrence captures makes a consistent reading. -/
theorem Stands.reads (h : Stands tokens text o) :
    Reads tokens (text.drop o.start) o.found ∧ Consistent o.found.captures :=
  reads_of_searchFrom consistent_nil (matchHere_eq_some_iff.mp h.found).1

/-- The texts that an occurrence captures are bound to their names. -/
theorem Stands.bound (h : Stands tokens text o) : ∀ c ∈ o.found.captures,
    (o.toMatch text).bindings.get? c.name = some (String.ofList c.text) := by
  intro c hc
  refine Bindings.get?_ofList ?_ (List.mem_map_of_mem hc)
  intro x hx y hy hname
  obtain ⟨a, ha, rfl⟩ := List.mem_map.mp hx
  obtain ⟨b, hb, rfl⟩ := List.mem_map.mp hy
  rw [h.reads.2 a ha b hb hname]

/-- Every text that an occurrence binds was captured. -/
theorem Stands.captured (h : Stands tokens text o) {name value : String}
    (hvalue : (o.toMatch text).bindings.get? name = some value) :
    ∃ c ∈ o.found.captures, value.toList = c.text := by
  have hname : name ∈ (o.found.captures.map fun c => (c.name, String.ofList c.text)).map Prod.fst :=
    Bindings.isSome_get?_ofList.mp (Option.isSome_of_eq_some hvalue)
  rw [List.map_map] at hname
  obtain ⟨c, hc, rfl⟩ := List.mem_map.mp hname
  refine ⟨c, hc, ?_⟩
  rw [← Option.some.inj ((h.bound c hc).symm.trans hvalue), String.toList_ofList]

/-- The text of an occurrence divides as the tokens of the template say. -/
theorem Stands.divides {template : List Char} (h : Stands tokens text o)
    (hread : Template.tokens template = .ok tokens) :
    Divides (o.toMatch text).bindings (text.take o.start) tokens
      ((text.drop o.start).take o.found.length) ((text.drop o.start).drop o.found.length) := by
  obtain ⟨hshaped, hhead⟩ := shaped_of_tokens hread
  exact divides_of_reads h.reads.1 hshaped h.bound fun hblank => absurd hblank hhead

end

/-- Every match stands between two other parts of the text and is not empty. It divides into
consecutive pieces, one for each token of the template, where a hole's piece is the text bound to
its name. The names that are bound are those of the holes, and each bound text is a fragment. If the
template starts or ends with a word, then no word character stands directly before or after. -/
theorem findMatches_divides {text template : List Char} {ms : List Match} {m : Match}
    (h : findMatches text template = .ok ms) (hm : m ∈ ms) :
    ∃ read before middle after, tokens template = .ok read ∧ text = before ++ middle ++ after ∧
      m.span = ⟨SourceText.locationAt text (byteLength before),
        SourceText.locationAt text (byteLength (before ++ middle))⟩ ∧
      byteLength before < byteLength (before ++ middle) ∧
      Divides m.bindings before read middle after ∧
      (∀ name, (m.bindings.get? name).isSome = true ↔ name ∈ holes template) ∧
      (∀ name value, m.bindings.get? name = some value → Fragment.IsFragment value.toList) ∧
      (startsWithWord read = true → before.getLast?.any Text.isWord = false) ∧
      (endsWithWord read = true → after.head?.any Text.isWord = false) := by
  obtain ⟨read, o, hread, hstands, rfl⟩ := stands_of_mem_findMatches h hm
  obtain ⟨-, -, hends⟩ := matchHere_eq_some_iff.mp hstands.found
  obtain ⟨htext, hmiddle, hspan⟩ := hstands.parts
  refine ⟨read, _, _, _, hread, htext, hspan, ?_, hstands.divides hread,
    hstands.isSome_get?_iff hread, fun name value hvalue => ?_, hstands.free, hends⟩
  · rw [Text.byteLength_append]
    exact Nat.lt_add_of_pos_right (Text.byteLength_pos hmiddle)
  · obtain ⟨c, hc, htext⟩ := hstands.captured hvalue
    rw [htext]
    exact isFragment_of_reads hstands.reads.1 c hc

/-- A hole that stands twice in a template, and two kinds of blanks. -/
theorem findMatches_divides_sample : ∃ m ms read before middle after,
    findMatches "y = é( x,\tx );".toList ":[f]( :[a], :[a] )".toList = .ok ms ∧ m ∈ ms ∧
    tokens ":[f]( :[a], :[a] )".toList = .ok read ∧
    "y = é( x,\tx );".toList = before ++ middle ++ after ∧
    Divides m.bindings before read middle after ∧ m.bindings.get? "f" = some "é" := by
  have h : (findMatches "y = é( x,\tx );".toList ":[f]( :[a], :[a] )".toList).toOption =
      some [⟨⟨⟨1, 4⟩, ⟨1, 14⟩⟩, .ofList [("a", "x"), ("f", "é")]⟩] := by
    decide +kernel
  obtain ⟨read, before, middle, after, hread, htext, -, -, hdivides, -⟩ :=
    findMatches_divides (Except.eq_ok_of_toOption h) List.mem_cons_self
  exact ⟨_, _, read, before, middle, after, Except.eq_ok_of_toOption h, List.mem_cons_self, hread,
    htext, hdivides, by decide +kernel⟩

/-! ## Nothing is missed -/

/-- The occurrences in the rest of a text cover each place after the skipped characters at which the
tokens match, if they start with no hole and the place is not inside a word. -/
theorem covered_of_matchHere {tokens : List Token} (done cs : List Char) (skip p : Nat)
    {found : Found} (hhole : startsWithHole tokens = false) (hp : done.length + skip ≤ p)
    (hfound : matchHere tokens ((done ++ cs).drop p) = some found)
    (hfree : startsWithWord tokens = true →
      ((done ++ cs).take p).getLast?.any Text.isWord = false) :
    ∃ o ∈ occurrencesFrom tokens skip done.getLast? done.length cs,
      o.start ≤ p ∧ p < o.start + o.found.length := by
  induction cs generalizing skip done with
  | nil =>
    have hstops := (searchFrom_spec (matchHere_eq_some_iff.mp hfound).1).1
    have hpos := (matchHere_eq_some_iff.mp hfound).2.1
    rw [List.append_nil, List.length_drop] at hstops
    omega
  | cons c rest ih =>
    -- The place is after the first character, and so covered by an occurrence in the rest.
    have hlater (skip : Nat) (hp : done.length + 1 + skip ≤ p) :
        ∃ o ∈ occurrencesFrom tokens skip (some c) (done.length + 1) rest,
          o.start ≤ p ∧ p < o.start + o.found.length := by
      have hrest := ih (done ++ [c]) skip
      simp only [List.getLast?_concat, List.length_append, List.length_singleton,
        List.append_assoc, List.singleton_append] at hrest
      exact hrest hp hfound hfree
    cases skip with
    | succ skip => exact hlater _ (by omega)
    | zero =>
      rw [occurrencesFrom_cons]
      rcases Nat.eq_or_lt_of_le hp with hhere | hafter
      · rw [Nat.add_zero] at hhere
        rw [← hhere, List.drop_left] at hfound
        rw [← hhere, List.take_left] at hfree
        have hblocked : blockedHere tokens done.getLast? (c :: rest) = false := by
          cases hword : startsWithWord tokens with
          | false => simp [blockedHere, hword, hhole]
          | true => simp [blockedHere, hhole, hfree hword]
        have hpos := (matchHere_eq_some_iff.mp hfound).2.1
        rw [if_neg (by simp [hblocked]), hfound]
        dsimp only
        rw [(settle_spec hfound).2 hhole]
        exact ⟨_, List.mem_cons_self, by dsimp only; omega, by dsimp only; omega⟩
      · split
        · exact hlater _ (by omega)
        · split
          · exact hlater _ (by omega)
          · next earlier hearlier =>
            rw [(settle_spec hearlier).2 hhole]
            by_cases hinside : p < done.length + earlier.length
            · exact ⟨_, List.mem_cons_self, by dsimp only; omega, by dsimp only; omega⟩
            · obtain ⟨o, ho, hcovers⟩ := hlater (0 + earlier.length - 1) (by omega)
              exact ⟨o, List.mem_cons_of_mem _ ho, hcovers⟩

theorem byteLength_take_le (text : List Char) {a b : Nat} (h : a ≤ b) :
    byteLength (text.take a) ≤ byteLength (text.take b) := by
  obtain ⟨after, hafter⟩ : text.take a <+: text.take b := List.take_prefix_take_left h
  rw [← hafter, Text.byteLength_append]
  exact Nat.le_add_right ..

/-- A longer part of a text has more bytes. -/
theorem byteLength_take_lt (text : List Char) {a b : Nat} (h : a < b) (hb : b ≤ text.length) :
    byteLength (text.take a) < byteLength (text.take b) := by
  obtain ⟨after, hafter⟩ : text.take a <+: text.take b :=
    List.take_prefix_take_left (Nat.le_of_lt h)
  have hne : after ≠ [] := by
    rintro rfl
    have hlength := congrArg List.length hafter
    simp only [List.append_nil, List.length_take] at hlength
    omega
  rw [← hafter, Text.byteLength_append]
  exact Nat.lt_add_of_pos_right (Text.byteLength_pos hne)

/-- The location of an index has the length of the text before it as its offset. -/
theorem offset_locationOfIndex (text : List Char) (i : Nat) :
    SourceText.offset text (locationOfIndex text i) = .ok (byteLength (text.take i)) := by
  have h := SourceText.offset_locationAt (text.take i) (text.drop i)
  rwa [List.take_append_drop] at h

/-- A template that starts with a literal misses no occurrence. Where there is a consistent reading,
not inside a word if the template starts with one, some match covers the place, provided that the
first reading the search comes to does not end inside a word. -/
theorem findMatches_covers {template before after lead : List Char} {read : List Token}
    {ms : List Match} {found : Found} (hread : tokens template = .ok read)
    (hms : findMatches (before ++ after) template = .ok ms)
    (hlead : read.head? = some (.literal lead)) (hreads : Reads read after found)
    (hconsistent : Consistent found.captures)
    (hstart : startsWithWord read = true → before.getLast?.any Text.isWord = false)
    (hfirst : ∀ first, search read after = some first → endsWithWord read = true →
      (after.drop first.length).head?.any Text.isWord = false) :
    ∃ m ∈ ms, ∃ start stop, SourceText.offset (before ++ after) m.span.start = .ok start ∧
      SourceText.offset (before ++ after) m.span.stop = .ok stop ∧
      start ≤ byteLength before ∧ byteLength before < stop := by
  have hmatches : findMatches (before ++ after) template =
      .ok ((occurrences read (before ++ after)).map (·.toMatch (before ++ after))) := by
    rw [findMatches, hread]
    rfl
  cases hmatches.symm.trans hms
  have hne : read ≠ [] := fun hnil => by simp [hnil] at hlead
  have hhole : startsWithHole read = false := by
    cases read with
    | nil => cases hlead
    | cons token rest =>
      cases hlead
      rfl
  obtain ⟨first, hsearch⟩ : ∃ first, searchFrom [] read after = some first :=
    Option.isSome_iff_exists.mp (isSome_searchFrom hreads hconsistent)
  have hpos := pos_of_reads (reads_of_searchFrom consistent_nil hsearch).1
    (shaped_of_tokens hread).1 hne
  have hhere : matchHere read after = some first :=
    matchHere_eq_some_iff.mpr ⟨hsearch, hpos,
      hfirst first (Option.filter_eq_some_iff.mpr ⟨hsearch, by simpa using hpos⟩)⟩
  obtain ⟨o, ho, hle, hlt⟩ := covered_of_matchHere [] (before ++ after) 0 before.length hhole
    (Nat.zero_le _) (by rwa [List.nil_append, List.drop_left])
    (by rwa [List.nil_append, List.take_left])
  have hstops := (stands_of_mem_occurrences ho).stops.2
  refine ⟨o.toMatch (before ++ after), List.mem_map_of_mem ho, _, _, offset_locationOfIndex _ _,
    offset_locationOfIndex _ _, ?_, ?_⟩
  · calc byteLength ((before ++ after).take o.start)
        ≤ byteLength ((before ++ after).take before.length) := byteLength_take_le _ hle
      _ = byteLength before := by rw [List.take_left]
  · calc byteLength before = byteLength ((before ++ after).take before.length) := by
          rw [List.take_left]
      _ < byteLength ((before ++ after).take (o.start + o.found.length)) :=
          byteLength_take_lt _ hlt hstops

namespace CoverageSample

/-- A template that starts and ends with a word. -/
def template : List Char := "a:[x] b".toList

def read : List Token := [.literal ['a'], .hole "x", .blank, .literal ['b']]

theorem tokens_template : tokens template = .ok read :=
  Except.eq_ok_of_toOption (by decide +kernel)

/-- A reading whose hole captures given characters up to a blank and the last word. -/
theorem reads {captured after : List Char}
    (h : captured.length ∈ Fragment.candidates false (captured ++ [' ', 'b'] ++ after)) :
    Reads read ('a' :: (captured ++ [' ', 'b'] ++ after))
      ⟨[⟨"x", captured⟩], 1 + (captured.length + 2)⟩ := by
  have htail : Reads [.blank, .literal ['b']] ([' '] ++ (['b'] ++ after)) ⟨[], 2⟩ :=
    .blank (by decide) (by simp [Text.isBlank]) (by simp [Text.isBlank]) (.literal .done)
  have hhole := @Reads.hole "x" (captured ++ [' ', 'b'] ++ after) captured.length
    [.blank, .literal ['b']] ⟨[], 2⟩ h (by
      rw [List.append_assoc, List.drop_left]
      exact htail)
  rw [List.append_assoc, List.take_left] at hhole
  rw [List.append_assoc]
  exact .literal hhole

end CoverageSample

/-- A match lies over the place where a reading of the template starts. -/
theorem findMatches_covers_sample : ∃ ms m start stop,
    findMatches ("é ".toList ++ "a1 b c".toList) CoverageSample.template = .ok ms ∧ m ∈ ms ∧
    SourceText.offset ("é ".toList ++ "a1 b c".toList) m.span.start = .ok start ∧
    SourceText.offset ("é ".toList ++ "a1 b c".toList) m.span.stop = .ok stop ∧
    start ≤ 3 ∧ 3 < stop := by
  have htokens := CoverageSample.tokens_template
  obtain ⟨ms, hms⟩ : ∃ ms,
      findMatches ("é ".toList ++ "a1 b c".toList) CoverageSample.template = .ok ms := by
    rw [findMatches, htokens]
    exact ⟨_, rfl⟩
  have hsearch : search CoverageSample.read "a1 b c".toList = some ⟨[⟨"x", ['1']⟩], 4⟩ := by
    decide +kernel
  obtain ⟨m, hm, start, stop, hstart, hstop, hle, hlt⟩ := findMatches_covers htokens hms rfl
    (@CoverageSample.reads ['1'] " c".toList (by decide +kernel)) (by
      intro a ha b hb _
      rw [List.mem_singleton.mp ha, List.mem_singleton.mp hb]) (by decide +kernel) (by
      intro first hfirst _
      cases hsearch.symm.trans hfirst
      decide +kernel)
  exact ⟨ms, m, start, stop, hms, hm, hstart, hstop, hle, hlt⟩

/-- The search stops at the first reading, which ends inside a word, and so an occurrence that goes
on to the next word is missed. -/
theorem findMatches_misses :
    Reads CoverageSample.read "a1 bc b".toList ⟨[⟨"x", "1 bc".toList⟩], 7⟩ ∧
    Consistent [⟨"x", "1 bc".toList⟩] ∧
    ("a1 bc b".toList.drop 7).head?.any Text.isWord = false ∧
    tokens CoverageSample.template = .ok CoverageSample.read ∧
    findMatches "a1 bc b".toList CoverageSample.template = .ok [] :=
  ⟨@CoverageSample.reads "1 bc".toList [] (by decide +kernel), fun a ha b hb _ => by
    rw [List.mem_singleton.mp ha, List.mem_singleton.mp hb], by decide,
    CoverageSample.tokens_template, Except.eq_ok_of_toOption (by decide +kernel)⟩

end Template

end Mutagenesis
