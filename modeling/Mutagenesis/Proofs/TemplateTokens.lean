import Mutagenesis.Fault
import Mutagenesis.Proofs.Occurrences

/-!
# The tokens of a template

A template is read into tokens exactly if it holds something and no opening of a hole in it is
broken (`tokens_eq_ok_iff`, `broken_not_mem_marks`). Which blanks stand in a run, and how many, is
lost in that (`marks_collapse`), and nothing else (`rendered_group_marks`): the tokens are a normal
form of the template (`tokens_normal`). What they matched fills the template again
(`findMatches_filled`).
-/

set_option autoImplicit false

namespace Mutagenesis.Template

/-! ## Runs of blanks -/

/-- A text with a single space in the place of each run of blanks. -/
def collapse : List Char → List Char
  | [] => []
  | c :: cs =>
    if Text.isBlank c then if cs.head?.any Text.isBlank then collapse cs else ' ' :: collapse cs
    else c :: collapse cs

theorem isBlank_space : Text.isBlank ' ' = true := by
  decide

variable {cs : List Char} {c : Char}

/-- A text that starts with a blank starts with a space when its blanks are collapsed. -/
theorem collapse_blank (h : Text.isBlank c = true) (cs : List Char) :
    ∃ rest, collapse (c :: cs) = ' ' :: rest := by
  induction cs generalizing c with
  | nil => exact ⟨[], by simp [collapse, h]⟩
  | cons d rest ih =>
    rw [collapse, if_pos h]
    split
    · next hd => exact ih (by simpa using hd)
    · exact ⟨_, rfl⟩

/-- A character that is no blank is kept when blanks are collapsed. -/
theorem collapse_cons (h : Text.isBlank c = false) (cs : List Char) :
    collapse (c :: cs) = c :: collapse cs := by
  rw [collapse, if_neg (by simp [h])]

/-- Only the empty text collapses to nothing. -/
theorem collapse_eq_nil_iff : collapse cs = [] ↔ cs = [] := by
  cases cs with
  | nil => exact iff_of_true rfl rfl
  | cons c rest =>
    refine iff_of_false ?_ nofun
    cases h : Text.isBlank c with
    | true =>
      obtain ⟨after, hafter⟩ := collapse_blank h rest
      rw [hafter]
      nofun
    | false =>
      rw [collapse_cons h]
      nofun

/-- A text without blanks in front is kept when blanks are collapsed. -/
theorem collapse_append {solid : List Char} (h : ∀ c ∈ solid, Text.isBlank c = false)
    (cs : List Char) : collapse (solid ++ cs) = solid ++ collapse cs := by
  induction solid with
  | nil => rfl
  | cons c rest ih =>
    obtain ⟨hc, hrest⟩ := List.forall_mem_cons.mp h
    rw [List.cons_append, collapse_cons hc, ih hrest, List.cons_append]

/-- Collapsing keeps whether a text starts with a blank. -/
theorem head_collapse (cs : List Char) :
    (collapse cs).head?.any Text.isBlank = cs.head?.any Text.isBlank := by
  cases cs with
  | nil => rfl
  | cons c rest =>
    cases h : Text.isBlank c with
    | true =>
      obtain ⟨after, hafter⟩ := collapse_blank h rest
      simp [hafter, h, isBlank_space]
    | false => simp [collapse_cons h]

/-- Collapsing keeps whether a text ends with a blank. -/
theorem last_collapse (cs : List Char) :
    (collapse cs).getLast?.any Text.isBlank = cs.getLast?.any Text.isBlank := by
  induction cs with
  | nil => rfl
  | cons c rest ih =>
    cases rest with
    | nil =>
      cases h : Text.isBlank c with
      | true => simp [collapse, h, isBlank_space]
      | false => simp [collapse, h]
    | cons d rest =>
      have hne : collapse (d :: rest) ≠ [] := collapse_eq_nil_iff.not.mpr nofun
      have hcons (e : Char) : (e :: collapse (d :: rest)).getLast? =
          (collapse (d :: rest)).getLast? := by
        rw [List.getLast?_cons, List.getLast?_eq_some_getLast hne]
        rfl
      rw [List.getLast?_cons_cons, ← ih, collapse]
      split
      · split
        · rfl
        · rw [hcons]
      · rw [hcons]

/-- What holds no blank stands at the start of a text whether its blanks are collapsed or not. -/
theorem prefix_collapse {solid : List Char} (h : ∀ c ∈ solid, Text.isBlank c = false)
    (cs : List Char) : solid <+: collapse cs ↔ solid <+: cs := by
  induction solid generalizing cs with
  | nil => simp
  | cons s solid ih =>
    obtain ⟨hs, hsolid⟩ := List.forall_mem_cons.mp h
    cases cs with
    | nil => rfl
    | cons c rest =>
      cases hc : Text.isBlank c with
      | true =>
        obtain ⟨after, hafter⟩ := collapse_blank hc rest
        rw [hafter, List.cons_prefix_cons, List.cons_prefix_cons]
        refine iff_of_false (fun hsame => ?_) (fun hsame => ?_)
        · exact absurd hs (by rw [hsame.1]; decide)
        · exact absurd hs (by rw [hsame.1, hc]; decide)
      | false =>
        rw [collapse_cons hc, List.cons_prefix_cons, List.cons_prefix_cons, ih hsolid]

/-- A hole is spelled without blanks. -/
theorem spelled_solid {name : List Char} (h : IsName name) :
    ∀ c ∈ spelled name, Text.isBlank c = false := by
  have hname : ∀ c ∈ name, Text.isBlank c = false := fun c hc => by
    by_contra hblank
    have hword := Text.isWord_of_isBlank (by simpa using hblank)
    rw [h.word c hc] at hword
    cases hword
  simp only [spelled, List.mem_cons, List.mem_append, List.not_mem_nil, or_false]
  rintro c (rfl | rfl | hc | rfl)
  · decide
  · decide
  · exact hname c hc
  · decide

theorem startsHole_collapse (cs : List Char) : StartsHole (collapse cs) ↔ StartsHole cs :=
  exists_congr fun _ => and_congr_right fun hname => prefix_collapse (spelled_solid hname) cs

/-! ## Trimmed texts -/

/-- A trimmed text does not end with a blank. -/
theorem last_trim (cs : List Char) : (Text.trim cs).getLast?.any Text.isBlank = false := by
  rw [Text.trim, Text.trimEnd, List.getLast?_reverse]
  have hnext := List.head?_dropWhile_not Text.isBlank (Text.trimStart cs).reverse
  cases hhead : ((Text.trimStart cs).reverse.dropWhile Text.isBlank).head? with
  | none => rfl
  | some c =>
    rw [hhead] at hnext
    simpa using hnext

/-- A text without blanks at its ends is trimmed already. -/
theorem trim_eq_self (hhead : cs.head?.any Text.isBlank = false)
    (hlast : cs.getLast?.any Text.isBlank = false) : Text.trim cs = cs := by
  have hstays (cs : List Char) (h : cs.head?.any Text.isBlank = false) :
      cs.dropWhile Text.isBlank = cs := by
    cases cs with
    | nil => rfl
    | cons c rest =>
      have hc : Text.isBlank c = false := by simpa using h
      simp [hc]
  rw [Text.trim, Text.trimStart, hstays cs hhead, Text.trimEnd,
    hstays _ (by rwa [List.head?_reverse]), List.reverse_reverse]

/-- The blanks of a trimmed template can be collapsed without need to trim it again. -/
theorem trim_collapse (template : List Char) :
    Text.trim (collapse (Text.trim template)) = collapse (Text.trim template) :=
  trim_eq_self ((head_collapse _).trans (head_trim template))
    ((last_collapse _).trans (last_trim template))

/-! ## Marks and tokens -/

/-- A hole at the start is the first token. -/
theorem group_marks_spelled {name : List Char} (h : IsName name) (rest : List Char) :
    group (marks (spelled name ++ rest)) = .hole (String.ofList name) :: group (marks rest) := by
  rw [marks_spelled h]
  rfl

/-- A character that starts no hole is pushed in front of the other tokens. -/
theorem group_marks_cons (h : ¬StartsHole (c :: cs)) :
    group (marks (c :: cs)) = pushChar c (group (marks cs)) := by
  rw [marks_cons h, markOf]
  split
  · next hbroken => rw [group, hbroken.1]
  · rfl

/-- A blank joins the blanks after it. -/
theorem pushChar_blank (h : Text.isBlank c = true) (tokens : List Token) :
    pushChar c tokens = if tokens.head? = some .blank then tokens else .blank :: tokens := by
  unfold pushChar
  rw [if_pos h]
  split
  · rfl
  · next hhead =>
    rw [if_neg fun hblank => ?_]
    obtain ⟨rest, hrest⟩ := List.head?_eq_some_iff.mp hblank
    exact hhead rest hrest

/-- The first token is a blank exactly if the first character is one. -/
theorem head_group_marks_iff (cs : List Char) :
    (group (marks cs)).head? = some .blank ↔ cs.head?.any Text.isBlank = true := by
  cases hhead : cs.head?.any Text.isBlank with
  | false => simpa using head_group_marks hhead
  | true =>
    cases cs with
    | nil => cases hhead
    | cons c rest =>
      have hc : Text.isBlank c = true := hhead
      rw [group_marks_cons (not_startsHole_of_isBlank hc rest), pushChar_blank hc]
      split <;> simp_all

/-- Collapsing the blanks of a template changes none of its tokens, and breaks no opening. -/
theorem marks_collapse (cs : List Char) : group (marks (collapse cs)) = group (marks cs) ∧
    (.broken ∈ marks (collapse cs) ↔ .broken ∈ marks cs) := by
  induction cs using scan_induction with
  | nil => exact ⟨rfl, .rfl⟩
  | hole name rest hname ih =>
    rw [collapse_append (spelled_solid hname), marks_spelled hname, marks_spelled hname, group,
      group, ih.1, List.mem_cons, List.mem_cons, ih.2]
    exact ⟨rfl, .rfl⟩
  | other c rest hstarts ih =>
    rw [group_marks_cons hstarts, marks_cons hstarts, List.mem_cons, ← ih.2]
    cases hc : Text.isBlank c with
    | true =>
      rw [pushChar_blank hc, markOf_of_isBlank hc, collapse, if_pos hc]
      simp only [head_group_marks_iff]
      split
      · exact ⟨ih.1, by simp⟩
      · next hhead =>
        have hspace := not_startsHole_of_isBlank isBlank_space (collapse rest)
        rw [group_marks_cons hspace, marks_cons hspace, markOf_of_isBlank isBlank_space, ih.1,
          pushChar_blank isBlank_space, if_neg (by rwa [head_group_marks_iff])]
        exact ⟨rfl, by simp⟩
    | false =>
      have hlater := (startsHole_collapse _).not.mpr hstarts
      have hhead (cs : List Char) : cs.head? = some '[' ↔ ['['] <+: cs := by
        cases cs <;> simp [List.cons_prefix_cons, eq_comm]
      have hopen : (collapse rest).head? = some '[' ↔ rest.head? = some '[' := by
        rw [hhead, hhead, prefix_collapse (List.forall_mem_singleton.mpr (by decide))]
      rw [collapse_cons hc] at hlater ⊢
      rw [group_marks_cons hlater, marks_cons hlater, List.mem_cons, ih.1]
      simp [markOf, hopen]

/-- A template has no broken opening exactly if each opening in it starts a hole. -/
theorem broken_not_mem_marks : .broken ∉ marks cs ↔
    ∀ rest, ':' :: '[' :: rest <:+ cs → StartsHole (':' :: '[' :: rest) := by
  induction cs using scan_induction with
  | nil => simp [marks, marksFrom]
  | hole name rest hname ih =>
    rw [marks_spelled hname, List.mem_cons, not_or, ih]
    simp only [suffix_spelled hname, or_imp, forall_and]
    refine and_congr_left fun _ => iff_of_true (by simp) ?_
    intro after hafter
    rw [hafter]
    exact ⟨name, hname, List.prefix_append ..⟩
  | other c rest hstarts ih =>
    rw [marks_cons hstarts, List.mem_cons, not_or, ih]
    simp only [List.suffix_cons_iff (a := c), or_imp, forall_and]
    refine and_congr_left fun _ => ?_
    rw [markOf]
    split
    · next hbroken =>
      obtain ⟨rfl, hopen⟩ := hbroken
      obtain ⟨after, rfl⟩ := List.head?_eq_some_iff.mp hopen
      exact iff_of_false (fun h => h rfl) fun h => hstarts (h after rfl)
    · next hplain =>
      refine iff_of_true (by simp) fun after hafter => ?_
      cases hafter
      exact absurd ⟨rfl, rfl⟩ hplain

theorem marks_eq_nil_iff : marks cs = [] ↔ cs = [] := by
  induction cs using scan_induction with
  | nil => exact iff_of_true rfl rfl
  | hole name rest hname _ =>
    rw [marks_spelled hname]
    exact iff_of_false nofun nofun
  | other c rest hstarts _ => simp [marks_cons hstarts]

/-- A template is read exactly if something is left of it and no opening is broken. -/
theorem tokens_eq_ok_iff {template : List Char} {read : List Token} :
    tokens template = .ok read ↔ Text.trim template ≠ [] ∧
      .broken ∉ marks (Text.trim template) ∧ group (marks (Text.trim template)) = read := by
  unfold tokens
  dsimp only
  rw [← marks_eq_nil_iff.ne]
  split
  · next hbroken => simp [hbroken]
  · next hbroken =>
    split
    · next hempty => simp [List.isEmpty_iff.mp hempty]
    · next hempty => simp [hbroken, List.isEmpty_iff.not.mp hempty]

/-! ## The normal form -/

/-- How a token is written. -/
def Token.spelling : Token → List Char
  | .literal text => text
  | .blank => [' ']
  | .hole name => spelled name.toList

/-- Tokens written one after the other. -/
def rendered (tokens : List Token) : List Char :=
  tokens.flatMap Token.spelling

theorem rendered_cons (token : Token) (tokens : List Token) :
    rendered (token :: tokens) = token.spelling ++ rendered tokens :=
  List.flatMap_cons

/-- A character that is no blank is rendered as it is. -/
theorem rendered_pushChar (h : Text.isBlank c = false) (tokens : List Token) :
    rendered (pushChar c tokens) = c :: rendered tokens := by
  unfold pushChar
  rw [if_neg (by simp [h])]
  split <;> simp [rendered_cons, Token.spelling]

/-- The tokens of a template are written as the template is, but for the blanks in it. -/
theorem rendered_group_marks (cs : List Char) : rendered (group (marks cs)) = collapse cs := by
  induction cs using scan_induction with
  | nil => rfl
  | hole name rest hname ih =>
    rw [group_marks_spelled hname, rendered_cons, Token.spelling, String.toList_ofList, ih,
      collapse_append (spelled_solid hname)]
  | other c rest hstarts ih =>
    rw [group_marks_cons hstarts]
    cases hc : Text.isBlank c with
    | true =>
      rw [pushChar_blank hc, collapse, if_pos hc]
      simp only [head_group_marks_iff]
      split
      · exact ih
      · rw [rendered_cons, ih]
        rfl
    | false => rw [rendered_pushChar hc, ih, collapse_cons hc]

/-- A token is a literal. -/
def Token.isLiteral : Token → Bool
  | .literal _ => true
  | _ => false

/-- Tokens in normal form: no blank comes first or last, no two blanks and no two literals come one
after the other, and no literal is empty or holds blanks. -/
structure Normal (tokens : List Token) : Prop extends Shaped tokens where
  head : tokens.head? ≠ some .blank
  last : tokens.getLast? ≠ some .blank
  merged : tokens.IsChain fun a b => a.isLiteral = true → b.isLiteral = false

/-- Pushing a character leaves no two literals next to each other. -/
theorem merged_pushChar {tokens : List Token} (c : Char)
    (h : tokens.IsChain fun a b => a.isLiteral = true → b.isLiteral = false) :
    (pushChar c tokens).IsChain fun a b => a.isLiteral = true → b.isLiteral = false := by
  unfold pushChar
  split
  · split
    · exact h
    · exact .cons h nofun
  · split
    · next text rest =>
      cases rest with
      | nil => exact .singleton _
      | cons next rest =>
        obtain ⟨hnext, hrest⟩ := List.isChain_cons_cons.mp h
        exact .cons_cons (fun _ => hnext rfl) hrest
    · next hhead =>
      refine .cons h fun next hnext _ => ?_
      obtain ⟨rest, rfl⟩ := List.head?_eq_some_iff.mp hnext
      cases next with
      | literal text => exact absurd rfl (hhead text rest)
      | blank | hole => rfl

/-- No two literals stand next to each other among tokens. -/
theorem merged_group (read : List Mark) :
    (group read).IsChain fun a b => a.isLiteral = true → b.isLiteral = false := by
  induction read with
  | nil => exact .nil
  | cons mark rest ih =>
    cases mark with
    | plain c => exact merged_pushChar c ih
    | broken => exact merged_pushChar ':' ih
    | hole name => exact .cons ih nofun

/-- The tokens of a template are in normal form. -/
theorem normal_of_tokens {template : List Char} {read : List Token}
    (h : tokens template = .ok read) : Normal read := by
  obtain ⟨hshaped, hhead⟩ := shaped_of_tokens h
  obtain ⟨-, -, rfl⟩ := tokens_eq_ok_iff.mp h
  refine ⟨hshaped, hhead, fun hlast => ?_, merged_group _⟩
  -- A blank at the end would be written there.
  obtain ⟨before, hbefore⟩ := List.getLast?_eq_some_iff.mp hlast
  have hrendered := rendered_group_marks (Text.trim template)
  have hsolid := (last_collapse (Text.trim template)).trans (last_trim template)
  rw [← hrendered, hbefore, rendered, List.flatMap_append] at hsolid
  simp [Token.spelling, isBlank_space] at hsolid

/-- A template with its blanks collapsed has the same tokens. -/
theorem tokens_collapse {template : List Char} {read : List Token} :
    tokens (collapse (Text.trim template)) = .ok read ↔ tokens template = .ok read := by
  obtain ⟨hgroup, hbroken⟩ := marks_collapse (Text.trim template)
  rw [tokens_eq_ok_iff, tokens_eq_ok_iff, trim_collapse, hgroup, hbroken, Ne, collapse_eq_nil_iff]

/-- A template is read exactly if something is left when it is trimmed, and each opening in that
starts a hole. Its tokens are in normal form: they are written as the trimmed template with a single
space for each run of blanks, and that is read as the same tokens. So templates that differ in
blanks only have the same matches in every text, or both fail for their format. -/
theorem tokens_normal (template : List Char) :
    ((∃ read, tokens template = .ok read) ↔ Text.trim template ≠ [] ∧
      ∀ rest, ':' :: '[' :: rest <:+ Text.trim template → StartsHole (':' :: '[' :: rest)) ∧
    (∀ read, tokens template = .ok read → Normal read ∧
      rendered read = collapse (Text.trim template) ∧ tokens (rendered read) = .ok read) ∧
    ∀ text other : List Char, collapse (Text.trim other) = collapse (Text.trim template) →
      (∃ ms, formatted .template (findMatches text template) = .ok ms ∧
        formatted .template (findMatches text other) = .ok ms) ∨
      ∃ a b, formatted .template (findMatches text template) = .error (.badFormat a) ∧
        formatted .template (findMatches text other) = .error (.badFormat b) := by
  refine ⟨?_, fun read hread => ?_, fun text other hsame => ?_⟩
  · simp only [tokens_eq_ok_iff, broken_not_mem_marks, exists_and_left, exists_eq', and_true]
  · have hrendered : rendered read = collapse (Text.trim template) := by
      obtain ⟨-, -, rfl⟩ := tokens_eq_ok_iff.mp hread
      exact rendered_group_marks _
    exact ⟨normal_of_tokens hread, hrendered, hrendered ▸ tokens_collapse.mpr hread⟩
  · have hiff (read : List Token) : tokens other = .ok read ↔ tokens template = .ok read := by
      rw [← tokens_collapse, hsame, tokens_collapse]
    unfold findMatches
    cases htemplate : tokens template with
    | ok read =>
      rw [(hiff read).mpr htemplate]
      exact .inl ⟨_, rfl, rfl⟩
    | error a =>
      cases hother : tokens other with
      | ok read => exact absurd (htemplate.symm.trans ((hiff read).mp hother)) nofun
      | error b => exact .inr ⟨_, _, rfl, rfl⟩

/-! ## Filling a template with what it matched -/

/-- A text without its blanks. -/
def unblanked (cs : List Char) : List Char :=
  cs.filter fun c => !Text.isBlank c

theorem unblanked_append (as bs : List Char) :
    unblanked (as ++ bs) = unblanked as ++ unblanked bs :=
  List.filter_append ..

theorem unblanked_blanks (h : ∀ c ∈ cs, Text.isBlank c = true) : unblanked cs = [] :=
  List.filter_eq_nil_iff.mpr fun c hc => by simp [h c hc]

/-- A text that divides as tokens do starts with the character that was put in front of them, if
this is not blank. -/
theorem Divides.ofPushChar {b : Bindings} {before middle after : List Char} {tokens : List Token}
    (h : Divides b before (pushChar c tokens) middle after) :
    ∃ passed rest, Divides b passed tokens rest after ∧ unblanked middle = unblanked (c :: rest) ∧
      (Text.isBlank c = false → middle = c :: rest) := by
  unfold pushChar at h
  split at h
  · next hc =>
    have hnot {rest : List Char} : Text.isBlank c = false → middle = c :: rest :=
      fun hsolid => absurd hc (by simp [hsolid])
    split at h
    · exact ⟨before, middle, h, by simp [unblanked, hc], hnot⟩
    · cases h with
      | @blank _ run rest _ _ _ hrun _ _ hrest =>
        refine ⟨_, rest, hrest, ?_, hnot⟩
        rw [unblanked_append, unblanked_blanks hrun]
        simp [unblanked, hc]
  · split at h
    · next text others =>
      cases h with
      | @literal _ _ rest _ _ hrest =>
        have hrest : Divides b ((before ++ [c]) ++ text) others rest after := by simpa using hrest
        exact ⟨before ++ [c], text ++ rest, .literal hrest, rfl, fun _ => rfl⟩
    · cases h with
      | literal hrest => exact ⟨_, _, hrest, rfl, fun _ => rfl⟩

/-- Marks are filled to the text that divides as their tokens do, but for the blanks. -/
theorem fill_of_divides {b : Bindings} {read : List Mark} {before middle after : List Char}
    (h : Divides b before (group read) middle after) :
    ∃ filled, fill b.get? read = .ok filled ∧ unblanked filled = unblanked middle ∧
      ((∀ c, .plain c ∈ read → Text.isBlank c = false) → filled = middle) := by
  induction read generalizing before middle with
  | nil =>
    cases h
    exact ⟨[], rfl, rfl, fun _ => rfl⟩
  | cons mark rest ih =>
    -- A character that is put in front of the tokens is filled in as it is.
    have hchar {c : Char} (h : Divides b before (pushChar c (group rest)) middle after)
        (hmark : fill b.get? (mark :: rest) = (fill b.get? rest).map (c :: ·))
        (hsolid : (∀ d, .plain d ∈ mark :: rest → Text.isBlank d = false) →
          Text.isBlank c = false) :
        ∃ filled, fill b.get? (mark :: rest) = .ok filled ∧ unblanked filled = unblanked middle ∧
          ((∀ d, .plain d ∈ mark :: rest → Text.isBlank d = false) → filled = middle) := by
      obtain ⟨passed, later, hlater, hblanks, hmiddle⟩ := Divides.ofPushChar h
      obtain ⟨filled, hfilled, hsame, hexact⟩ := ih hlater
      refine ⟨c :: filled, by rw [hmark, hfilled]; rfl, ?_, fun hall => ?_⟩
      · rw [hblanks, ← List.singleton_append, unblanked_append, hsame, ← unblanked_append]
        rfl
      · rw [hmiddle (hsolid hall), hexact fun d hd => hall d (List.mem_cons_of_mem _ hd)]
    cases mark with
    | plain c => exact hchar h rfl fun hall => hall c List.mem_cons_self
    | broken => exact hchar h rfl fun _ => by decide
    | hole name =>
      cases h with
      | @hole _ later _ _ text _ hbound hlater =>
        obtain ⟨filled, hfilled, hsame, hexact⟩ := ih hlater
        refine ⟨text.toList ++ filled, by rw [fill, hbound, hfilled]; rfl, ?_, fun hall => ?_⟩
        · rw [unblanked_append, hsame, ← unblanked_append]
        · rw [hexact fun d hd => hall d (List.mem_cons_of_mem _ hd)]

/-- Marks one after the other are filled to their texts one after the other. -/
theorem fill_append {bound : String → Option String} {as bs : List Mark} {x y : List Char}
    (ha : fill bound as = .ok x) (hb : fill bound bs = .ok y) :
    fill bound (as ++ bs) = .ok (x ++ y) := by
  induction as generalizing x with
  | nil =>
    cases ha
    exact hb
  | cons mark rest ih =>
    cases mark with
    | plain c =>
      obtain ⟨later, hlater, rfl⟩ := Except.map_eq_ok_iff.mp ha
      exact Except.map_eq_ok_iff.mpr ⟨_, ih hlater, rfl⟩
    | broken =>
      obtain ⟨later, hlater, rfl⟩ := Except.map_eq_ok_iff.mp ha
      exact Except.map_eq_ok_iff.mpr ⟨_, ih hlater, rfl⟩
    | hole name =>
      rw [fill] at ha
      rw [List.cons_append, fill]
      cases hvalue : bound (String.ofList name) with
      | none => simp [hvalue] at ha
      | some value =>
        rw [hvalue] at ha
        obtain ⟨later, hlater, rfl⟩ := Except.map_eq_ok_iff.mp ha
        exact Except.map_eq_ok_iff.mpr ⟨_, ih hlater, (List.append_assoc ..).symm⟩

/-- Characters outside holes are filled to themselves. -/
theorem fill_plain (bound : String → Option String) (cs : List Char) :
    fill bound (cs.map .plain) = .ok cs := by
  induction cs with
  | nil => rfl
  | cons c rest ih =>
    rw [List.map_cons, fill, ih]
    rfl

/-- A plain mark is a character of the template. -/
theorem mem_of_plain_mem_marks (h : .plain c ∈ marks cs) : c ∈ cs := by
  induction cs using scan_induction with
  | nil => cases h
  | hole name rest hname ih =>
    rw [marks_spelled hname] at h
    simp only [List.mem_cons, reduceCtorEq, false_or] at h
    exact List.mem_append_right _ (ih h)
  | other d rest hstarts ih =>
    rw [marks_cons hstarts, List.mem_cons, markOf] at h
    rcases h with h | h
    · split at h
      · cases h
      · cases h
        exact List.mem_cons_self
    · exact List.mem_cons_of_mem _ (ih h)

/-- A template that is filled with what it matched becomes the text of the match again, but for the
blanks. If it holds no blanks between others, then it becomes exactly that text when it is
trimmed. -/
theorem findMatches_filled {text template : List Char} {ms : List Match} {m : Match}
    (h : findMatches text template = .ok ms) (hm : m ∈ ms) :
    ∃ before middle after filled, text = before ++ middle ++ after ∧
      m.span = ⟨SourceText.locationAt text (Text.byteLength before),
        SourceText.locationAt text (Text.byteLength (before ++ middle))⟩ ∧
      substitute template m.bindings.get? = .ok filled ∧ unblanked filled = unblanked middle ∧
      ((∀ c ∈ Text.trim template, Text.isBlank c = false) →
        substitute (Text.trim template) m.bindings.get? = .ok middle) := by
  obtain ⟨read, o, hread, hstands, rfl⟩ := stands_of_mem_findMatches h hm
  obtain ⟨htext, -, hspan⟩ := hstands.parts
  have hdivides := hstands.divides hread
  obtain ⟨-, -, rfl⟩ := tokens_eq_ok_iff.mp hread
  obtain ⟨filled, hfilled, hsame, hexact⟩ := fill_of_divides hdivides
  obtain ⟨lead, trail, hparts, hlead, htrail⟩ := trim_spec template
  refine ⟨_, _, _, lead ++ filled ++ trail, htext, hspan, ?_, ?_, fun hsolid => ?_⟩
  · conv => lhs; rw [hparts]
    rw [substitute_eq_fill, marks_append_blanks htrail, marks_blanks_append hlead]
    exact fill_append (fill_append (fill_plain _ _) hfilled) (fill_plain _ _)
  · rw [unblanked_append, unblanked_append, unblanked_blanks hlead, unblanked_blanks htrail,
      List.nil_append, List.append_nil, hsame]
  · rw [substitute_eq_fill, hfilled, hexact fun c hc => hsolid c (mem_of_plain_mem_marks hc)]

/-- A template filled with what it has matched, up to blanks. -/
theorem findMatches_filled_sample : ∃ m ms before middle after filled,
    findMatches "y = é(a,\n:[b]);".toList " é(:[f], :[g]) ".toList = .ok ms ∧ m ∈ ms ∧
    "y = é(a,\n:[b]);".toList = before ++ middle ++ after ∧
    substitute " é(:[f], :[g]) ".toList m.bindings.get? = .ok filled ∧
    unblanked filled = unblanked middle := by
  have h : (findMatches "y = é(a,\n:[b]);".toList " é(:[f], :[g]) ".toList).toOption =
      some [⟨⟨⟨1, 4⟩, ⟨2, 5⟩⟩, .ofList [("f", "a"), ("g", ":[b]")]⟩] := by
    decide +kernel
  obtain ⟨before, middle, after, filled, htext, -, hfilled, hsame, -⟩ :=
    findMatches_filled (Except.eq_ok_of_toOption h) List.mem_cons_self
  exact ⟨_, _, before, middle, after, filled, Except.eq_ok_of_toOption h, List.mem_cons_self, htext,
    hfilled, hsame⟩

end Mutagenesis.Template
