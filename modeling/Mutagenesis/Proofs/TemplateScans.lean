import Mathlib.Data.List.TakeWhile
import Mathlib.Data.List.Infix
import Mutagenesis.Template.Token

/-!
# Scanning templates

The marks of a template are the holes that stand in it, wherever they stand, and all its other
characters: a hole starts with a colon and holds no other, so no two holes overlap and none is
passed over (`scan_induction`, `marks_spelled`, `marks_cons`). The loop of substitution, which goes
from one `:[` to the next, reads the same marks (`substitute_eq_fill`). From this follow what a
template is filled to (`substitute_fills`), and that blanks at its ends are only kept
(`marks_blanks_append`, `marks_append_blanks`).
-/

set_option autoImplicit false

namespace Mutagenesis

variable {c : Char}

/-- The runs of a line, with its characters at hand, come before those of the other lines. -/
theorem Text.runsOf_cons (cs : List Char) (lines : List String) :
    runsOf (String.ofList cs :: lines) = lengthsFrom 0 cs ++ runsOf lines := by
  simp [runsOf]

/-- A blank is no word character. -/
theorem Text.isWord_of_isBlank (h : isBlank c = true) : isWord c = false := by
  have hall : ∀ n ∈ [0x9, 0xA, 0xB, 0xC, 0xD, 0x20, 0x85, 0xA0, 0x1680, 0x2000, 0x2001, 0x2002,
      0x2003, 0x2004, 0x2005, 0x2006, 0x2007, 0x2008, 0x2009, 0x200A, 0x2028, 0x2029, 0x202F,
      0x205F, 0x3000], isWord (Char.ofNat n) = false := by
    unfold isWord isAlphanumeric wordRuns
    repeat rewrite [runsOf_cons]
    decide +kernel
  rw [← c.ofNat_toNat]
  refine hall _ ?_
  simp only [isBlank, Bool.or_eq_true, Bool.and_eq_true, decide_eq_true_eq, beq_iff_eq] at h
  simp only [List.mem_cons, List.not_mem_nil, or_false]
  omega

theorem Except.map_eq_ok_iff {ε α β : Type} {x : Except ε α} {f : α → β} {b : β} :
    x.map f = .ok b ↔ ∃ a, x = .ok a ∧ f a = b := by
  cases x <;> simp [Except.map]

namespace Template

/-! ## Holes -/

/-- A name that a hole can have. -/
structure IsName (name : List Char) : Prop where
  ne_nil : name ≠ []
  word : ∀ c ∈ name, Text.isWord c = true

/-- How the hole of a name is written. -/
def spelled (name : List Char) : List Char :=
  ':' :: '[' :: (name ++ [']'])

/-- A text starts with a hole. -/
def StartsHole (cs : List Char) : Prop :=
  ∃ name, IsName name ∧ spelled name <+: cs

/-- The hole of a name stands somewhere in a text. -/
def HasHole (cs name : List Char) : Prop :=
  IsName name ∧ spelled name <:+: cs

variable {bound : String → Option String} {name : List Char}

theorem IsName.not_mem (h : IsName name) (hc : Text.isWord c = false) : c ∉ name := by
  intro hmem
  rw [h.word c hmem] at hc
  cases hc

/-- The first hole of a text is read off it, whatever follows. -/
theorem holeAt?_spelled (h : IsName name) (rest : List Char) :
    holeAt? (spelled name ++ rest) = some name := by
  have htake : (name ++ ']' :: rest).takeWhile (· != ']') = name := by
    rw [List.takeWhile_append_of_pos fun c hc => by
      simpa using fun heq : c = ']' => h.not_mem (by decide) (heq ▸ hc)]
    simp
  simp [spelled, holeAt?, htake, h.ne_nil, List.all_eq_true.mpr h.word]

/-- A hole that the scan finds is spelled at the start of the text. -/
theorem of_holeAt? {cs name : List Char} (h : holeAt? cs = some name) :
    IsName name ∧ ∃ rest, cs = spelled name ++ rest := by
  unfold holeAt? at h
  split at h
  · next rest =>
    dsimp only at h
    split at h
    · next hname =>
      cases h
      obtain ⟨hlength, hne, hword⟩ := hname
      have hsplit := List.takeWhile_append_dropWhile (p := (· != ']')) (l := rest)
      have hnext := List.head?_dropWhile_not (· != ']') rest
      -- The name is shorter than the rest, so it ended at a closing bracket.
      cases hdrop : rest.dropWhile (· != ']') with
      | nil =>
        rw [hdrop, List.append_nil] at hsplit
        rw [hsplit] at hlength
        exact absurd hlength (Nat.lt_irrefl _)
      | cons c after =>
        rw [hdrop] at hsplit hnext
        obtain rfl : c = ']' := by simpa using hnext
        refine ⟨⟨hne, List.all_eq_true.mp hword⟩, after, ?_⟩
        simp only [spelled, List.cons_append, List.append_assoc, List.nil_append]
        rw [hsplit]
    · cases h
  · cases h

theorem holeAt?_eq_none_iff {cs : List Char} : holeAt? cs = none ↔ ¬StartsHole cs := by
  rw [← not_iff_not, not_not, ← Ne, Option.ne_none_iff_exists']
  constructor
  · rintro ⟨name, h⟩
    obtain ⟨hname, rest, rfl⟩ := of_holeAt? h
    exact ⟨name, hname, List.prefix_append ..⟩
  · rintro ⟨name, hname, rest, rfl⟩
    exact ⟨name, holeAt?_spelled hname rest⟩

/-! ## The scan -/

theorem marksFrom_skip (skip : Nat) (cs : List Char) :
    marksFrom skip cs = marks (cs.drop skip) := by
  induction skip generalizing cs with
  | zero => rfl
  | succ skip ih =>
    cases cs with
    | nil => rfl
    | cons c cs => exact ih cs

theorem marks_spelled (h : IsName name) (rest : List Char) :
    marks (spelled name ++ rest) = .hole name :: marks rest := by
  have hhole := holeAt?_spelled h rest
  have hskip : ('[' :: (name ++ [']']) ++ rest).drop (name.length + 2) = rest :=
    List.drop_left' (by simp)
  simp only [spelled, List.cons_append] at hhole hskip ⊢
  rw [marks, marksFrom, hhole]
  exact congrArg _ ((marksFrom_skip ..).trans (congrArg marks hskip))

/-- The mark of a character that starts no hole. -/
def markOf (c : Char) (cs : List Char) : Mark :=
  if c = ':' ∧ cs.head? = some '[' then .broken else .plain c

theorem marks_cons {cs : List Char} (h : ¬StartsHole (c :: cs)) :
    marks (c :: cs) = markOf c cs :: marks cs := by
  rw [marks, marksFrom, holeAt?_eq_none_iff.mpr h, markOf]
  dsimp only
  split <;> rfl

/-- A template is empty, or starts with a hole, or with a character that starts none. -/
@[elab_as_elim]
theorem scan_induction {motive : List Char → Prop} (cs : List Char) (nil : motive [])
    (hole : ∀ name rest, IsName name → motive rest → motive (spelled name ++ rest))
    (other : ∀ c rest, ¬StartsHole (c :: rest) → motive rest → motive (c :: rest)) :
    motive cs := by
  induction hlength : cs.length using Nat.strongRecOn generalizing cs with
  | ind n ih =>
    subst hlength
    by_cases hstarts : StartsHole cs
    · obtain ⟨name, hname, rest, rfl⟩ := hstarts
      exact hole name rest hname (ih _ (by simp [spelled]; omega) rest rfl)
    · cases cs with
      | nil => exact nil
      | cons c rest => exact other c rest hstarts (ih _ (by simp) rest rfl)

/-- A colon in a text that starts with a hole is the first character or stands after the hole. -/
theorem suffix_spelled {name rest cs : List Char} (hname : IsName name) :
    ':' :: cs <:+ spelled name ++ rest ↔
      ':' :: cs = spelled name ++ rest ∨ ':' :: cs <:+ rest := by
  have hpass (skipped : List Char) (hcolon : ':' ∉ skipped) :
      ':' :: cs <:+ skipped ++ rest ↔ ':' :: cs <:+ rest := by
    induction skipped with
    | nil => rfl
    | cons c skipped ih =>
      obtain ⟨hc, hskipped⟩ := not_or.mp (List.mem_cons.not.mp hcolon)
      rw [List.cons_append, List.suffix_cons_iff, ih hskipped]
      exact or_iff_right fun heq => hc (List.cons.inj heq).1
  have hcolon : ':' ∉ '[' :: (name ++ [']']) := by
    have := hname.not_mem (c := ':') (by decide)
    simpa using this
  rw [spelled, List.cons_append, List.suffix_cons_iff, hpass _ hcolon]

/-- The holes of a text that starts with a hole are this one and those after it. -/
theorem hasHole_spelled {name rest other : List Char} (hname : IsName name) :
    HasHole (spelled name ++ rest) other ↔ other = name ∨ HasHole rest other := by
  unfold HasHole
  rw [List.infix_iff_prefix_suffix, List.infix_iff_prefix_suffix]
  constructor
  · rintro ⟨hother, _, ⟨after, rfl⟩, hsuffix⟩
    rcases (suffix_spelled hname).mp hsuffix with heq | hsuffix
    · have hsame : holeAt? (spelled other ++ after) = holeAt? (spelled name ++ rest) :=
        congrArg holeAt? heq
      rw [holeAt?_spelled hother, holeAt?_spelled hname] at hsame
      exact .inl (Option.some.inj hsame)
    · exact .inr ⟨hother, _, List.prefix_append .., hsuffix⟩
  · rintro (rfl | ⟨hother, cs, hprefix, hsuffix⟩)
    · exact ⟨hname, _, List.prefix_append .., List.suffix_rfl⟩
    · exact ⟨hother, cs, hprefix, hsuffix.trans (List.suffix_append ..)⟩

theorem hasHole_cons {rest other : List Char} (h : ¬StartsHole (c :: rest)) :
    HasHole (c :: rest) other ↔ HasHole rest other := by
  unfold HasHole
  rw [List.infix_cons_iff]
  exact and_congr_right fun hother => or_iff_right fun hprefix => h ⟨other, hother, hprefix⟩

theorem not_hasHole_nil : ¬HasHole [] name := by
  rintro ⟨-, h⟩
  exact absurd (List.infix_nil.mp h) (by simp [spelled])

/-! ## Filling a template -/

theorem substituteFrom_skip (bound : String → Option String) (skip : Nat) (cs : List Char) :
    substituteFrom bound skip cs = substitute (cs.drop skip) bound := by
  induction skip generalizing cs with
  | zero => rfl
  | succ skip ih =>
    cases cs with
    | nil => rfl
    | cons c cs => exact ih cs

/-- A hole at the start is replaced by the text bound to its name, and the loop goes on after it. -/
theorem substitute_spelled (h : IsName name) (rest : List Char) (bound : String → Option String) :
    substitute (spelled name ++ rest) bound =
      match bound (String.ofList name) with
      | none => .error (.unbound (String.ofList name))
      | some text => (substitute rest bound).map (text.toList ++ ·) := by
  have hhole := holeAt?_spelled h rest
  have hskip : ('[' :: (name ++ [']']) ++ rest).drop (name.length + 2) = rest :=
    List.drop_left' (by simp)
  simp only [spelled, List.cons_append] at hhole hskip ⊢
  rw [substitute, substituteFrom, if_pos ⟨rfl, rfl⟩, hhole]
  dsimp only
  rewrite [substituteFrom_skip, hskip]
  cases bound (String.ofList name) <;> rfl

/-- A character that starts no hole is kept. After a broken opening the loop goes on two characters
further, and the one it steps over is an opening bracket, which starts no hole. -/
theorem substitute_cons {cs : List Char} (h : ¬StartsHole (c :: cs))
    (bound : String → Option String) :
    substitute (c :: cs) bound = (substitute cs bound).map (c :: ·) := by
  rw [substitute, substituteFrom]
  split
  · next hopen =>
    obtain ⟨rfl, hhead⟩ := hopen
    obtain ⟨rest, rfl⟩ := List.head?_eq_some_iff.mp hhead
    have hbracket : substitute ('[' :: rest) bound = (substitute rest bound).map ('[' :: ·) := by
      rw [substitute, substituteFrom, if_neg (by simp)]
      rfl
    rw [holeAt?_eq_none_iff.mpr h, hbracket]
    dsimp only
    rw [substituteFrom_skip, List.drop_one, List.tail_cons]
    cases substitute rest bound <;> rfl
  · rfl

/-- Puts the bound texts in the place of a scan's holes; what is no hole stays as it is. -/
def fill (bound : String → Option String) : List Mark → Except TemplateFault (List Char)
  | [] => .ok []
  | .plain c :: rest => (fill bound rest).map (c :: ·)
  | .broken :: rest => (fill bound rest).map (':' :: ·)
  | .hole name :: rest =>
    match bound (String.ofList name) with
    | none => .error (.unbound (String.ofList name))
    | some text => (fill bound rest).map (text.toList ++ ·)

/-- Substitution and matching agree on what is a hole: the loop of substitution fills the marks of
the template. -/
theorem substitute_eq_fill (template : List Char) (bound : String → Option String) :
    substitute template bound = fill bound (marks template) := by
  induction template using scan_induction with
  | nil => rfl
  | hole name rest hname ih => rw [substitute_spelled hname, marks_spelled hname, fill, ih]
  | other c rest hstarts ih =>
    rw [substitute_cons hstarts, marks_cons hstarts, ih, markOf]
    split
    · next hbroken => rw [fill, hbroken.1]
    · rfl

/-- A template becomes a text in which the bound texts stand in the places of its holes, and all
other characters stand as they are. -/
inductive Filled (bound : String → Option String) : (template text : List Char) → Prop
  | nil : Filled bound [] []
  | hole {name rest text : List Char} {value : String} : IsName name →
      bound (String.ofList name) = some value → Filled bound rest text →
      Filled bound (spelled name ++ rest) (value.toList ++ text)
  | other {c : Char} {rest text : List Char} : ¬StartsHole (c :: rest) → Filled bound rest text →
      Filled bound (c :: rest) (c :: text)

/-- The loop gives the filled template. -/
theorem substitute_of_filled {template text : List Char} (h : Filled bound template text) :
    substitute template bound = .ok text := by
  induction h with
  | nil => rfl
  | @hole name rest text value hname hvalue _ ih =>
    rw [substitute_spelled hname, hvalue, ih]
    rfl
  | @other c rest text hstarts _ ih =>
    rw [substitute_cons hstarts, ih]
    rfl

/-- A template can be filled if all its holes are bound. -/
theorem exists_filled (template : List Char)
    (h : ∀ name, HasHole template name → (bound (String.ofList name)).isSome = true) :
    ∃ text, Filled bound template text := by
  induction template using scan_induction with
  | nil => exact ⟨[], .nil⟩
  | hole name rest hname ih =>
    obtain ⟨value, hvalue⟩ :=
      Option.isSome_iff_exists.mp (h name ((hasHole_spelled hname).mpr (.inl rfl)))
    obtain ⟨text, htext⟩ := ih fun n hn => h n ((hasHole_spelled hname).mpr (.inr hn))
    exact ⟨value.toList ++ text, .hole hname hvalue htext⟩
  | other c rest hstarts ih =>
    obtain ⟨text, htext⟩ := ih fun other hother => h other ((hasHole_cons hstarts).mpr hother)
    exact ⟨c :: text, .other hstarts htext⟩

/-- What the loop gives is the template with its holes filled. -/
theorem filled_of_substitute {template text : List Char}
    (h : substitute template bound = .ok text) : Filled bound template text := by
  induction template using scan_induction generalizing text with
  | nil =>
    cases h
    exact .nil
  | hole name rest hname ih =>
    rw [substitute_spelled hname] at h
    cases hvalue : bound (String.ofList name) with
    | none => simp [hvalue] at h
    | some value =>
      rw [hvalue] at h
      obtain ⟨filled, hfilled, rfl⟩ := Except.map_eq_ok_iff.mp h
      exact .hole hname hvalue (ih hfilled)
  | other c rest hstarts ih =>
    rw [substitute_cons hstarts] at h
    obtain ⟨filled, hfilled, rfl⟩ := Except.map_eq_ok_iff.mp h
    exact .other hstarts (ih hfilled)

theorem Filled.isSome_bound {template text name : List Char} (h : Filled bound template text)
    (hname : HasHole template name) : (bound (String.ofList name)).isSome = true := by
  induction h with
  | nil => exact absurd hname not_hasHole_nil
  | hole hfirst hvalue _ ih =>
    rcases (hasHole_spelled hfirst).mp hname with rfl | hlater
    · exact Option.isSome_of_eq_some hvalue
    · exact ih hlater
  | other hstarts _ ih => exact ih ((hasHole_cons hstarts).mp hname)

/-- Only the bindings of the holes of a template count. -/
theorem substitute_congr {bound other : String → Option String} {template : List Char}
    (h : ∀ name, HasHole template name → other (String.ofList name) = bound (String.ofList name)) :
    substitute template other = substitute template bound := by
  induction template using scan_induction with
  | nil => rfl
  | hole name rest hname ih =>
    rw [substitute_spelled hname, substitute_spelled hname,
      h name ((hasHole_spelled hname).mpr (.inl rfl)),
      ih fun n hn => h n ((hasHole_spelled hname).mpr (.inr hn))]
  | other c rest hstarts ih =>
    rw [substitute_cons hstarts, substitute_cons hstarts,
      ih fun n hn => h n ((hasHole_cons hstarts).mpr hn)]

/-- A template whose holes are bound to themselves is filled to itself. -/
theorem filled_self {template : List Char}
    (h : ∀ name, HasHole template name →
      bound (String.ofList name) = some (String.ofList (spelled name))) :
    Filled bound template template := by
  induction template using scan_induction with
  | nil => exact .nil
  | hole name rest hname ih =>
    have hfilled := Filled.hole hname (h name ((hasHole_spelled hname).mpr (.inl rfl)))
      (ih fun n hn => h n ((hasHole_spelled hname).mpr (.inr hn)))
    rwa [String.toList_ofList] at hfilled
  | other c rest hstarts ih =>
    exact .other hstarts (ih fun n hn => h n ((hasHole_cons hstarts).mpr hn))

/-- Substitution fills the holes of a template all at once and loses nothing. It succeeds exactly if
every hole that stands in the template is bound, and gives the template with each hole replaced by
its text, which is not read again, and every other character as it was. Only the bindings of these
holes count, and holes that are bound to themselves give the template back. -/
theorem substitute_fills (template : List Char) (bound : String → Option String) :
    ((∃ text, substitute template bound = .ok text) ↔
      ∀ name, HasHole template name → (bound (String.ofList name)).isSome = true) ∧
    (∀ text, substitute template bound = .ok text ↔ Filled bound template text) ∧
    (∀ other : String → Option String, (∀ name, HasHole template name →
        other (String.ofList name) = bound (String.ofList name)) →
      substitute template other = substitute template bound) ∧
    ((∀ name, HasHole template name →
        bound (String.ofList name) = some (String.ofList (spelled name))) →
      substitute template bound = .ok template) := by
  refine ⟨⟨?_, fun h => ?_⟩, fun text => ⟨filled_of_substitute, substitute_of_filled⟩,
    fun other h => substitute_congr h, fun h => substitute_of_filled (filled_self h)⟩
  · rintro ⟨text, htext⟩ name hname
    exact (filled_of_substitute htext).isSome_bound hname
  · obtain ⟨text, htext⟩ := exists_filled template h
    exact ⟨text, substitute_of_filled htext⟩

/-- A broken opening in front of a hole stays, and a text that looks like a hole is not filled. -/
example : (substitute "::[:[x]:[y]:[".toList fun name =>
    if name = "x" then some ":[y]" else some "2").toOption = some "::[:[y]2:[".toList := by
  decide +kernel

/-! ## Blanks at the ends -/

theorem not_startsHole_of_isBlank (h : Text.isBlank c = true) (cs : List Char) :
    ¬StartsHole (c :: cs) := by
  rintro ⟨name, -, hprefix⟩
  obtain rfl : ':' = c := (List.cons_prefix_cons.mp hprefix).1
  exact absurd h (by decide)

theorem markOf_of_isBlank (h : Text.isBlank c = true) (cs : List Char) : markOf c cs = .plain c :=
  if_neg fun hbroken => absurd h (by rw [hbroken.1]; decide)

theorem marks_blanks_append {blanks : List Char} (h : ∀ c ∈ blanks, Text.isBlank c = true)
    (cs : List Char) : marks (blanks ++ cs) = blanks.map .plain ++ marks cs := by
  induction blanks with
  | nil => rfl
  | cons c rest ih =>
    obtain ⟨hc, hrest⟩ := List.forall_mem_cons.mp h
    rw [List.cons_append, marks_cons (not_startsHole_of_isBlank hc _), markOf_of_isBlank hc,
      ih hrest]
    rfl

/-- Blanks at the end complete no hole: it would end with one of them. -/
theorem not_startsHole_append {blanks cs : List Char} (h : ∀ c ∈ blanks, Text.isBlank c = true)
    (hstarts : ¬StartsHole cs) : ¬StartsHole (cs ++ blanks) := by
  rintro ⟨name, hname, after, hafter⟩
  rcases List.append_eq_append_iff.mp hafter with ⟨more, rfl, -⟩ | ⟨missing, hspelled, rfl⟩
  · exact hstarts ⟨name, hname, List.prefix_append ..⟩
  · cases hlast : missing.getLast? with
    | none =>
      rw [List.getLast?_eq_none_iff.mp hlast, List.append_nil] at hspelled
      exact hstarts ⟨name, hname, hspelled ▸ List.prefix_rfl⟩
    | some c =>
      have hend : (spelled name).getLast? = some ']' :=
        List.getLast?_concat (l := ':' :: '[' :: name)
      rw [hspelled, List.getLast?_append, hlast] at hend
      cases hend
      exact absurd (h ']' (List.mem_append_left _ (List.mem_of_getLast? hlast))) (by decide)

/-- Blanks at the end of a template are plain. -/
theorem marks_append_blanks {blanks : List Char} (h : ∀ c ∈ blanks, Text.isBlank c = true)
    (cs : List Char) : marks (cs ++ blanks) = marks cs ++ blanks.map .plain := by
  induction cs using scan_induction with
  | nil => simpa [marks, marksFrom] using marks_blanks_append h []
  | hole name rest hname ih =>
    rw [List.append_assoc, marks_spelled hname, marks_spelled hname, ih]
    rfl
  | other c rest hstarts ih =>
    have hopen : (rest ++ blanks).head? = some '[' ↔ rest.head? = some '[' := by
      cases rest with
      | cons d rest => rfl
      | nil =>
        rw [List.nil_append]
        refine iff_of_false (fun hhead => ?_) nofun
        exact absurd (h '[' (List.mem_of_head? hhead)) (by decide)
    have hlonger : ¬StartsHole (c :: (rest ++ blanks)) := not_startsHole_append h hstarts
    rw [List.cons_append, marks_cons hlonger, marks_cons hstarts, ih]
    simp only [markOf, hopen, List.cons_append]

end Template

end Mutagenesis
