import Mathlib.Data.List.Chain
import Mutagenesis.Proofs.Fragments
import Mutagenesis.Proofs.TemplateMatches

/-!
# Readings of a text by a template

A reading is one way in which tokens match at the start of a text: each hole captures one of its
candidates, and captures of one name are equal (`Reads`, `Consistent`). The search finds a reading
(`reads_of_searchFrom`), and it finds one if there is any (`isSome_searchFrom`). A reading divides
the text into pieces, one for each token (`Divides`, `divides_of_reads`).
-/

set_option autoImplicit false

namespace Mutagenesis

namespace Template

/-! ## Readings and the search -/

/-- One way in which tokens match at the start of a text. Blanks match whole runs of blanks, and a
hole captures one of its candidates. -/
inductive Reads : List Token → List Char → Found → Prop
  | done {cs : List Char} : Reads [] cs ⟨[], 0⟩
  | literal {text cs : List Char} {rest : List Token} {found : Found} : Reads rest cs found →
      Reads (.literal text :: rest) (text ++ cs) ⟨found.captures, text.length + found.length⟩
  | blank {run cs : List Char} {rest : List Token} {found : Found} : run ≠ [] →
      (∀ c ∈ run, Text.isBlank c = true) → cs.head?.any Text.isBlank = false →
      Reads rest cs found →
      Reads (.blank :: rest) (run ++ cs) ⟨found.captures, run.length + found.length⟩
  | hole {name : String} {cs : List Char} {n : Nat} {rest : List Token} {found : Found} :
      n ∈ Fragment.candidates rest.isEmpty cs → Reads rest (cs.drop n) found →
      Reads (.hole name :: rest) cs ⟨⟨name, cs.take n⟩ :: found.captures, n + found.length⟩

/-- Captures of one name are equal. -/
def Consistent (captures : List Capture) : Prop :=
  ∀ a ∈ captures, ∀ b ∈ captures, a.name = b.name → a.text = b.text

theorem consistent_nil : Consistent [] :=
  fun _ ha => absurd ha List.not_mem_nil

theorem Consistent.left {captures more : List Capture} (h : Consistent (captures ++ more)) :
    Consistent captures :=
  fun a ha b hb => h a (List.mem_append_left _ ha) b (List.mem_append_left _ hb)

/-- A name can capture a text exactly if that keeps the captures consistent. -/
theorem agrees_iff {bound : List Capture} (h : Consistent bound) (name : String)
    (text : List Char) : agrees bound name text = true ↔ Consistent (bound ++ [⟨name, text⟩]) := by
  have hfirst : agrees bound name text = true ↔ ∀ c ∈ bound, c.name = name → c.text = text := by
    unfold agrees
    cases hfind : bound.find? (·.name = name) with
    | none =>
      have hnone := List.find?_eq_none.mp hfind
      exact ⟨fun _ c hc hname => absurd (by simpa using hname) (hnone c hc), fun _ => rfl⟩
    | some earlier =>
      have hname : earlier.name = name := by simpa using List.find?_some hfind
      have hmem := List.mem_of_find?_eq_some hfind
      simp only [decide_eq_true_eq]
      exact ⟨fun htext c hc hc' => (h c hc earlier hmem (hc'.trans hname.symm)).trans htext,
        fun hall => hall earlier hmem hname⟩
  rw [hfirst]
  constructor
  · intro hall a ha b hb hab
    rw [List.mem_append, List.mem_singleton] at ha hb
    rcases ha with ha | rfl <;> rcases hb with hb | rfl
    · exact h a ha b hb hab
    · exact hall a ha hab
    · exact (hall b hb hab.symm).symm
    · rfl
  · intro hall c hc hname
    exact hall c (List.mem_append_left _ hc) ⟨name, text⟩ (by simp) hname

/-- The blanks at the start of a text and what follows them. -/
theorem blankRun_spec (cs : List Char) : ∃ run rest, cs = run ++ rest ∧
    (cs.takeWhile Text.isBlank).length = run.length ∧ (∀ c ∈ run, Text.isBlank c = true) ∧
    rest.head?.any Text.isBlank = false := by
  refine ⟨cs.takeWhile Text.isBlank, cs.dropWhile Text.isBlank,
    List.takeWhile_append_dropWhile.symm, rfl, fun c hc => List.mem_takeWhile_imp hc, ?_⟩
  have hnext := List.head?_dropWhile_not Text.isBlank cs
  cases hhead : (cs.dropWhile Text.isBlank).head? with
  | none => rfl
  | some c =>
    rw [hhead] at hnext
    simpa using hnext

/-- A run of blanks is taken whole. -/
theorem length_blankRun {run rest : List Char} (hrun : ∀ c ∈ run, Text.isBlank c = true)
    (hrest : rest.head?.any Text.isBlank = false) :
    ((run ++ rest).takeWhile Text.isBlank).length = run.length := by
  rw [List.takeWhile_append_of_pos hrun]
  cases rest with
  | nil => simp
  | cons c rest =>
    have hc : Text.isBlank c = false := by simpa using hrest
    simp [hc]

variable {cs : List Char} {found : Found}

/-- The search finds a reading, consistent with what was captured before. -/
theorem reads_of_searchFrom {bound : List Capture} {tokens : List Token} (hbound : Consistent bound)
    (h : searchFrom bound tokens cs = some found) :
    Reads tokens cs found ∧ Consistent (bound ++ found.captures) := by
  induction tokens generalizing bound cs found with
  | nil =>
    cases h
    exact ⟨.done, by rwa [List.append_nil]⟩
  | cons token rest ih =>
    cases token with
    | literal text =>
      unfold searchFrom at h
      split at h
      · cases h
      · next cs' hafter =>
        obtain ⟨later, hlater, rfl⟩ := Option.map_eq_some_iff.mp h
        obtain rfl : text ++ cs' = cs := List.isPrefixOf?_eq_some_iff_append_eq.mp hafter
        exact (ih hbound hlater).imp_left .literal
    | blank =>
      obtain ⟨run, after, rfl, hlength, hrun, hafter⟩ := blankRun_spec cs
      unfold searchFrom at h
      dsimp only at h
      rw [hlength] at h
      split at h
      · cases h
      · next hne =>
        obtain ⟨later, hlater, rfl⟩ := Option.map_eq_some_iff.mp h
        rw [List.drop_left] at hlater
        have hrunNe : run ≠ [] := fun hnil => hne (by rw [hnil, List.length_nil])
        exact (ih hbound hlater).imp_left (.blank hrunNe hrun hafter)
    | hole name =>
      unfold searchFrom at h
      obtain ⟨n, hn, htry⟩ := List.exists_of_findSome?_eq_some h
      dsimp only at htry
      split at htry
      · next hagrees =>
        obtain ⟨later, hlater, rfl⟩ := Option.map_eq_some_iff.mp htry
        obtain ⟨hreads, hconsistent⟩ := ih ((agrees_iff hbound _ _).mp hagrees) hlater
        refine ⟨.hole hn hreads, ?_⟩
        rwa [List.append_assoc] at hconsistent
      · cases htry

/-- The search finds a reading if there is one that is consistent with what was captured before. -/
theorem isSome_searchFrom {bound : List Capture} {tokens : List Token} (h : Reads tokens cs found)
    (hbound : Consistent (bound ++ found.captures)) :
    (searchFrom bound tokens cs).isSome = true := by
  induction h generalizing bound with
  | done => rfl
  | @literal text cs rest found _ ih =>
    have hafter : Text.after? text (text ++ cs) = some cs :=
      List.isPrefixOf?_eq_some_iff_append_eq.mpr rfl
    rw [searchFrom, hafter]
    simpa using ih hbound
  | @blank run cs rest found hne hrun hafter _ ih =>
    have hlength := length_blankRun hrun hafter
    rw [searchFrom, hlength, if_neg (by simpa using hne), List.drop_left]
    simpa using ih hbound
  | @hole name cs n rest found hn _ ih =>
    have hbound' : Consistent ((bound ++ [⟨name, cs.take n⟩]) ++ found.captures) := by
      rwa [List.append_assoc]
    have hagrees : agrees bound name (cs.take n) = true :=
      (agrees_iff hbound.left _ _).mpr hbound'.left
    rw [searchFrom, List.findSome?_isSome_iff]
    refine ⟨n, hn, ?_⟩
    dsimp only
    rw [if_pos hagrees]
    simpa using ih hbound'

/-! ## The shape of templates -/

/-- A literal holds something, and no blanks. -/
def Token.Solid : Token → Prop
  | .literal text => text ≠ [] ∧ ∀ c ∈ text, Text.isBlank c = false
  | _ => True

/-- Tokens as templates have them: literals are solid, and blanks are apart from each other. -/
structure Shaped (tokens : List Token) : Prop where
  solid : ∀ token ∈ tokens, token.Solid
  apart : tokens.IsChain fun a b => a = .blank → b ≠ .blank

theorem shaped_nil : Shaped [] :=
  ⟨nofun, .nil⟩

theorem Shaped.tail {token : Token} {rest : List Token} (h : Shaped (token :: rest)) :
    Shaped rest :=
  ⟨fun t ht => h.solid t (List.mem_cons_of_mem _ ht), h.apart.tail⟩

theorem Shaped.cons {token : Token} {rest : List Token} (h : Shaped rest) (hsolid : token.Solid)
    (hapart : token = .blank → rest.head? ≠ some .blank) : Shaped (token :: rest) := by
  refine ⟨List.forall_mem_cons.mpr ⟨hsolid, h.solid⟩, ?_⟩
  cases rest with
  | nil => exact .singleton _
  | cons next rest => exact .cons_cons (fun hblank heq => hapart hblank (by simp [heq])) h.apart

/-- Tokens keep their shape when a character is pushed. -/
theorem Shaped.pushChar {tokens : List Token} (h : Shaped tokens) (c : Char) :
    Shaped (pushChar c tokens) := by
  unfold Template.pushChar
  split
  · split
    · exact h
    · next hhead =>
      refine h.cons trivial fun _ hblank => ?_
      cases tokens with
      | nil => cases hblank
      | cons token rest =>
        cases hblank
        exact hhead rest rfl
  · next hblank =>
    have hc : Text.isBlank c = false := by simpa using hblank
    split
    · next text rest =>
      obtain ⟨-, htext⟩ := h.solid (.literal text) List.mem_cons_self
      exact h.tail.cons ⟨by simp, List.forall_mem_cons.mpr ⟨hc, htext⟩⟩ nofun
    · exact h.cons ⟨by simp, by simpa using hc⟩ nofun

theorem shaped_group (read : List Mark) : Shaped (group read) := by
  induction read with
  | nil => exact shaped_nil
  | cons mark rest ih =>
    cases mark with
    | plain c => exact ih.pushChar c
    | broken => exact ih.pushChar ':'
    | hole name => exact ih.cons trivial nofun

/-- A template that starts with no blank has no blank as its first token. -/
theorem head_group_marks (h : cs.head?.any Text.isBlank = false) :
    (group (marks cs)).head? ≠ some .blank := by
  have hpush (c : Char) (hc : Text.isBlank c = false) (tokens : List Token) :
      (pushChar c tokens).head? ≠ some .blank := by
    unfold pushChar
    rw [if_neg (by simp [hc])]
    split <;> simp
  cases cs with
  | nil => nofun
  | cons c cs =>
    have hc : Text.isBlank c = false := by simpa using h
    rw [marks, marksFrom]
    split
    · simp [group]
    · split
      · exact hpush ':' (by decide) _
      · exact hpush c hc _

/-- A trimmed text starts with no blank. -/
theorem head_trim (cs : List Char) : (Text.trim cs).head?.any Text.isBlank = false := by
  have hstart : (Text.trimStart cs).head?.any Text.isBlank = false := by
    obtain ⟨run, rest, rfl, -, hrun, hrest⟩ := blankRun_spec cs
    rw [Text.trimStart, List.dropWhile_append_of_pos hrun]
    cases rest with
    | nil => rfl
    | cons c rest =>
      have hc : Text.isBlank c = false := by simpa using hrest
      simp [hc]
  -- Taking blanks away at the end leaves the first character, or nothing.
  have hlead : Text.trim cs <+: Text.trimStart cs := by
    rw [← List.reverse_suffix]
    simpa [Text.trim, Text.trimEnd] using List.dropWhile_suffix Text.isBlank
  obtain ⟨after, hafter⟩ := hlead
  cases htrim : Text.trim cs with
  | nil => rfl
  | cons c rest =>
    rw [← hafter, htrim] at hstart
    exact hstart

/-- The tokens of a template are shaped as templates are, and no blank comes first. -/
theorem shaped_of_tokens {template : List Char} {read : List Token}
    (h : tokens template = .ok read) : Shaped read ∧ read.head? ≠ some .blank := by
  unfold tokens at h
  dsimp only at h
  split at h
  · cases h
  · split at h
    · cases h
    · cases h
      exact ⟨shaped_group _, head_group_marks (head_trim template)⟩

/-! ## The pieces of a match -/

/-- A text divides into consecutive pieces, one for each token: a literal itself, a run of blanks
with no blank directly before or after it, and the text bound to a hole. -/
inductive Divides (b : Bindings) :
    (before : List Char) → List Token → (middle after : List Char) → Prop
  | nil {before after : List Char} : Divides b before [] [] after
  | literal {before text middle after : List Char} {rest : List Token} :
      Divides b (before ++ text) rest middle after →
      Divides b before (.literal text :: rest) (text ++ middle) after
  | blank {before run middle after : List Char} {rest : List Token} : run ≠ [] →
      (∀ c ∈ run, Text.isBlank c = true) → before.getLast?.any Text.isBlank = false →
      (middle ++ after).head?.any Text.isBlank = false →
      Divides b (before ++ run) rest middle after →
      Divides b before (.blank :: rest) (run ++ middle) after
  | hole {before middle after : List Char} {name text : String} {rest : List Token} :
      b.get? name = some text → Divides b (before ++ text.toList) rest middle after →
      Divides b before (.hole name :: rest) (text.toList ++ middle) after

theorem getLast?_append_any {before piece : List Char} (hne : piece ≠ [])
    (h : piece.getLast?.any Text.isBlank = false) :
    (before ++ piece).getLast?.any Text.isBlank = false := by
  rw [List.getLast?_append, List.getLast?_eq_some_getLast hne, Option.some_or,
    ← List.getLast?_eq_some_getLast hne, h]

/-- A reading divides the text that it covers. -/
theorem divides_of_reads {tokens : List Token} {b : Bindings} (h : Reads tokens cs found)
    (hshaped : Shaped tokens)
    (hbound : ∀ c ∈ found.captures, b.get? c.name = some (String.ofList c.text))
    {before : List Char}
    (hbefore : tokens.head? = some .blank → before.getLast?.any Text.isBlank = false) :
    Divides b before tokens (cs.take found.length) (cs.drop found.length) := by
  induction h generalizing before with
  | done => exact .nil
  | @literal text cs rest found _ ih =>
    obtain ⟨hne, hsolid⟩ : text ≠ [] ∧ ∀ c ∈ text, Text.isBlank c = false :=
      hshaped.solid (.literal text) List.mem_cons_self
    have hlast : text.getLast?.any Text.isBlank = false := by
      rw [List.getLast?_eq_some_getLast hne, Option.any_some, hsolid _ (List.getLast_mem hne)]
    rw [List.take_length_add_append, List.drop_length_add_append]
    exact .literal (ih hshaped.tail hbound fun _ => getLast?_append_any hne hlast)
  | @blank run cs rest found hne hrun hafter _ ih =>
    have hnext : rest.head? = some .blank → (before ++ run).getLast?.any Text.isBlank = false := by
      intro hblank
      cases rest with
      | nil => cases hblank
      | cons next rest =>
        cases hblank
        exact absurd rfl ((List.isChain_cons_cons.mp hshaped.apart).1 rfl)
    rw [List.take_length_add_append, List.drop_length_add_append]
    refine .blank hne hrun (hbefore rfl) ?_ (ih hshaped.tail hbound hnext)
    rwa [List.take_append_drop]
  | @hole name cs n rest found hn _ ih =>
    obtain ⟨hthis, hothers⟩ := List.forall_mem_cons.mp hbound
    have hlength : n ≤ cs.length := Fragment.le_of_mem_candidates hn
    obtain ⟨c, hlast, hblank⟩ := (Fragment.isFragment_of_mem_candidates hn).ends
    have hne : cs.take n ≠ [] := fun hnil => by
      rw [hnil] at hlast
      cases hlast
    have hmiddle : cs.take (n + found.length) =
        (String.ofList (cs.take n)).toList ++ (cs.drop n).take found.length := by
      rw [String.toList_ofList, List.take_add]
    rw [hmiddle, ← List.drop_drop]
    refine .hole hthis (ih hshaped.tail hothers fun _ => ?_)
    rw [String.toList_ofList]
    exact getLast?_append_any hne (by rw [hlast, Option.any_some, hblank])

/-- What a reading captures are fragments. -/
theorem isFragment_of_reads {tokens : List Token} (h : Reads tokens cs found) :
    ∀ c ∈ found.captures, Fragment.IsFragment c.text := by
  induction h with
  | done => nofun
  | literal _ ih | blank _ _ _ _ ih => exact ih
  | hole hn _ ih => exact List.forall_mem_cons.mpr ⟨Fragment.isFragment_of_mem_candidates hn, ih⟩

end Template

namespace Bindings

/-- The value that was inserted is found, and the others stay. -/
theorem get?_insert (b : Bindings) (name text other : String) :
    (b.insert name text).get? other = if other = name then some text else b.get? other := by
  change (insertEntry name text b.entries).lookup other = if _ then _ else b.entries.lookup other
  by_cases h : other = name
  · subst h
    rw [if_pos rfl]
    induction b.entries with
    | nil => simp [insertEntry]
    | cons entry rest ih =>
      obtain ⟨key, kept⟩ := entry
      unfold insertEntry
      split
      · simp
      · split
        · simp
        · next hne => rw [List.lookup_cons, ih, beq_eq_false_iff_ne.mpr hne]
  · have hname : (other == name) = false := beq_eq_false_iff_ne.mpr h
    rw [if_neg h]
    induction b.entries with
    | nil => simp [insertEntry, List.lookup_cons, hname]
    | cons entry rest ih =>
      obtain ⟨key, kept⟩ := entry
      unfold insertEntry
      split
      · rw [List.lookup_cons, hname]
      · split
        · next heq => rw [← heq, List.lookup_cons, List.lookup_cons, hname]
        · rw [List.lookup_cons, List.lookup_cons, ih]

/-- If entries of one name are equal, then each entry is bound. -/
theorem get?_ofList {entries : List (String × String)}
    (h : ∀ x ∈ entries, ∀ y ∈ entries, x.1 = y.1 → x.2 = y.2) {x : String × String}
    (hx : x ∈ entries) : (ofList entries).get? x.1 = some x.2 := by
  have hfold (b : Bindings) (hb : x ∈ entries ∨ b.get? x.1 = some x.2) :
      (entries.foldl (fun b entry => b.insert entry.1 entry.2) b).get? x.1 = some x.2 := by
    have hagree : ∀ y ∈ entries, y.1 = x.1 → y.2 = x.2 := fun y hy => h y hy x hx
    clear h hx
    induction entries generalizing b with
    | nil => exact hb.resolve_left List.not_mem_nil
    | cons y rest ih =>
      obtain ⟨hy, hrest⟩ := List.forall_mem_cons.mp hagree
      rw [List.foldl_cons]
      refine ih _ ?_ hrest
      by_cases hname : x.1 = y.1
      · exact .inr (by rw [get?_insert, if_pos hname, hy hname.symm])
      · rw [get?_insert, if_neg hname]
        refine hb.imp_left fun hmem => ?_
        rcases List.mem_cons.mp hmem with rfl | hmem
        · exact absurd rfl hname
        · exact hmem
  exact hfold empty (.inl hx)

end Bindings

end Mutagenesis
