import Mutagenesis.Proofs.Occurrences

/-!
# Matching by byte offsets

A matcher that stands at byte offsets and cuts the text there can go wrong: an offset may lie beyond
the end or inside a character. Here every cut is checked, and one that is not allowed is a failure
of the whole run. No run fails (`scans`): from the start of any text, the steps go on to its end,
and the offsets and texts that they note are those of the occurrences. So the matches are in order
and apart, and their locations lead back to the offsets (`findMatches_located`).
-/

set_option autoImplicit false

namespace Mutagenesis

open Text (byteLength)

namespace Template

namespace Checked

/-! ## Steps that check every cut -/

/-- The text from an offset on. -/
def from? (text : List Char) (o : Nat) : Option (List Char) :=
  (Text.splitAtByte? o text).map Prod.snd

/-- The text up to an offset. -/
def upTo? (text : List Char) (o : Nat) : Option (List Char) :=
  (Text.splitAtByte? o text).map Prod.fst

/-- Reads one mark off a template that is not empty. -/
def mark? (c : Char) (cs : List Char) : Option (Mark × List Char) :=
  if c = ':' ∧ cs.head? = some '[' then do
    let rest ← from? (c :: cs) 2
    let close := byteLength (rest.takeWhile (· != ']'))
    if close < byteLength rest then
      let name ← upTo? rest close
      if name ≠ [] ∧ name.all Text.isWord then
        return (.hole name, ← from? (c :: cs) (close + 3))
    return (.broken, cs)
  else return (.plain c, ← from? (c :: cs) c.utf8Size)

/-- A template is read mark by mark to its end, without a cut that is not allowed. -/
inductive Marked : List Char → List Mark → Prop
  | done : Marked [] []
  | next {c : Char} {cs rest : List Char} {mark : Mark} {marks : List Mark} :
      mark? c cs = some (mark, rest) → Marked rest marks → Marked (c :: cs) (mark :: marks)

/-- The place where a hole's text can end, if no bracket is open and no blank comes last. -/
def offer? (text : List Char) (stop : Nat) (pending : List Char) : Option (List Nat) :=
  if pending.isEmpty then
    (upTo? text stop).map fun before => if before.getLast?.any Text.isBlank then [] else [stop]
  else some []

/-- The offsets at which the text of a hole can end. -/
def endsFrom? (text : List Char) (o : Nat) (pending : List Char) (place : Fragment.Place) :
    List Char → Option (List Nat)
  | [] => some []
  | c :: cs =>
    let stop := o + c.utf8Size
    match place with
    | .quoted escaped =>
      if c = '\n' then some []
      else if escaped then endsFrom? text stop pending (.quoted false) cs
      else if c = '\\' then endsFrom? text stop pending (.quoted true) cs
      else if c = '"' then do
        return (← offer? text stop pending) ++ (← endsFrom? text stop pending .code cs)
      else endsFrom? text stop pending (.quoted false) cs
    | .code =>
      match Fragment.closer? c with
      | some close => endsFrom? text stop (close :: pending) .code cs
      | none =>
        if Fragment.isCloser c then
          match pending with
          | [] => some []
          | awaited :: outer =>
            if awaited ≠ c then some []
            else do return (← offer? text stop outer) ++ (← endsFrom? text stop outer .code cs)
        else if c = '"' then endsFrom? text stop pending (.quoted false) cs
        else if pending.isEmpty ∧ (c = ';' ∨ c = '\n') then some []
        else do return (← offer? text stop pending) ++ (← endsFrom? text stop pending .code cs)

/-- The offsets at which the text of a hole that starts at an offset can end. -/
def holeEnds? (text : List Char) (start : Nat) (last : Bool) : Option (List Nat) := do
  let rest ← from? text start
  if rest.head?.all Text.isBlank then return []
  let ends ← endsFrom? text start [] .code rest
  return if last then ends.getLast?.toList else ends

/-- A name that is bound to the text between two offsets. -/
structure Slot where
  name : String
  start : Nat
  stop : Nat

/-- A name is bound to another text already. -/
def clashes? (text : List Char) (bound : List Slot) (name : String) (start stop : Nat) :
    Option Bool :=
  match bound.find? (·.name = name) with
  | none => some false
  | some s => do
    return (← SourceText.slice? text s.start s.stop) != (← SourceText.slice? text start stop)

/-- The first answer of a checked search through candidates. -/
def firstSome? {α β : Type} (f : α → Option (Option β)) : List α → Option (Option β)
  | [] => some none
  | x :: xs => do
    match ← f x with
    | some b => return some b
    | none => firstSome? f xs

/-- Matches tokens at an offset: where the match stops, and all that is bound then. -/
def matchFrom? (text : List Char) (bound : List Slot) :
    List Token → Nat → Option (Option (Nat × List Slot))
  | [], o => some (some (o, bound))
  | .literal lead :: rest, o => do
    if lead.isPrefixOf (← from? text o) then matchFrom? text bound rest (o + byteLength lead)
    else return none
  | .blank :: rest, o => do
    let cs ← from? text o
    let run := byteLength cs - byteLength (Text.trimStart cs)
    if run = 0 then return none else matchFrom? text bound rest (o + run)
  | .hole name :: rest, o => do
    firstSome? (fun stop => do
      if ← clashes? text bound name o stop then return none
      else matchFrom? text (bound ++ [⟨name, o, stop⟩]) rest stop) (← holeEnds? text o rest.isEmpty)

/-- Matches a template at an offset; the match is not empty, and does not end inside a word. -/
def matchAt? (text : List Char) (tokens : List Token) (o : Nat) :
    Option (Option (Nat × List Slot)) := do
  match (← matchFrom? text [] tokens o).filter (o < ·.1) with
  | none => return none
  | some found =>
    if endsWithWord tokens then
      return if (← from? text found.1).head?.any Text.isWord then none else some found
    else return some found

/-- A leading hole can start at an offset. -/
def startsTerm? (text : List Char) (o : Nat) : Option Bool := do
  return startsTerm (← upTo? text o).getLast? (← from? text o)

/-- Tries later starts, of which the last one that matches counts. -/
def latest? (text : List Char) (tokens : List Token) (best : Nat × Nat × List Slot) :
    List Nat → Option (Nat × Nat × List Slot)
  | [] => some best
  | o :: rest => do
    if SourceText.isBoundary text o then
      if ← startsTerm? text o then
        match ← matchAt? text tokens o with
        | some found => latest? text tokens (o, found) rest
        | none => latest? text tokens best rest
      else latest? text tokens best rest
    else latest? text tokens best rest

/-- The match that counts, if a match was found at an offset: that of a leading hole moves on inside
its first text. -/
def settle? (text : List Char) (tokens : List Token) (o : Nat) (found : Nat × List Slot) :
    Option (Nat × Nat × List Slot) :=
  if startsWithHole tokens then
    match found.2 with
    | [] => none
    | first :: _ => latest? text tokens (o, found) (List.range' (o + 1) (first.stop - (o + 1)))
  else some (o, found)

/-- What is noted of a match: its offsets and the texts of its holes. -/
structure Note where
  start : Nat
  stop : Nat
  texts : List (String × List Char)

/-- A template cannot begin at an offset. -/
def blocked? (text : List Char) (tokens : List Token) (o : Nat) : Option Bool := do
  if startsWithWord tokens then return (← upTo? text o).getLast?.any Text.isWord
  else if startsWithHole tokens then return !(← startsTerm? text o)
  else return false

/-- One step of the walk over a text: what it notes, and the offset to go on from. -/
def step? (text : List Char) (tokens : List Token) (o : Nat) : Option (Option Note × Nat) := do
  let next := o + ((← from? text o).head?.map Char.utf8Size).getD 1
  if ← blocked? text tokens o then return (none, next)
  match ← matchAt? text tokens o with
  | none => return (none, next)
  | some found =>
    let (start, stop, slots) ← settle? text tokens o found
    let texts ← slots.mapM fun s =>
      (SourceText.slice? text s.start s.stop).map fun piece => (s.name, piece)
    return (some ⟨start, stop, texts⟩, stop)

/-- The steps from an offset come to the end of the text, without a cut that is not allowed, and
note some matches. -/
inductive Scans (text : List Char) (tokens : List Token) : Nat → List Note → Prop
  | done {o : Nat} : byteLength text ≤ o → Scans text tokens o []
  | pass {o next : Nat} {notes : List Note} : o < byteLength text →
      step? text tokens o = some (none, next) → Scans text tokens next notes →
      Scans text tokens o notes
  | hit {o next : Nat} {note : Note} {notes : List Note} : o < byteLength text →
      step? text tokens o = some (some note, next) → Scans text tokens next notes →
      Scans text tokens o (note :: notes)

/-! ## Every cut is allowed -/

section

variable {text : List Char} {tokens : List Token} {before cs : List Char}

theorem from?_eq (h : text = before ++ cs) : from? text (byteLength before) = some cs := by
  rw [h, from?, Text.splitAtByte?_append]
  rfl

theorem upTo?_eq (h : text = before ++ cs) : upTo? text (byteLength before) = some before := by
  rw [h, upTo?, Text.splitAtByte?_append]
  rfl

/-- The mark at the start is the one that the scan of the template makes there. -/
theorem mark?_eq (c : Char) (cs : List Char) :
    mark? c cs = some (match holeAt? (c :: cs) with
      | some name => (.hole name, cs.drop (name.length + 2))
      | none => (if c = ':' ∧ cs.head? = some '[' then .broken else .plain c, cs)) := by
  have hone : from? (c :: cs) c.utf8Size = some cs := by
    have := @from?_eq (c :: cs) [c] cs rfl
    rwa [Text.byteLength_cons, Text.byteLength_nil, Nat.add_zero] at this
  by_cases hopen : c = ':' ∧ cs.head? = some '['
  · obtain ⟨rfl, hhead⟩ := hopen
    obtain ⟨rest, rfl⟩ : ∃ rest, cs = '[' :: rest := List.head?_eq_some_iff.mp hhead
    have htwo : from? (':' :: '[' :: rest) 2 = some rest := @from?_eq _ [':', '['] rest rfl
    have hsplit : rest.takeWhile (· != ']') ++ rest.dropWhile (· != ']') = rest :=
      List.takeWhile_append_dropWhile
    have hnext := List.head?_dropWhile_not (· != ']') rest
    unfold mark? holeAt?
    rw [if_pos ⟨rfl, rfl⟩, htwo]
    simp only [Option.bind_eq_bind, Option.bind_some]
    generalize rest.takeWhile (· != ']') = name at *
    generalize rest.dropWhile (· != ']') = tail at *
    subst hsplit
    rw [upTo?_eq rfl]
    cases tail with
    | nil => simp
    | cons close more =>
      obtain rfl : close = ']' := by simpa using hnext
      have hclose : from? (':' :: '[' :: (name ++ ']' :: more)) (byteLength name + 3) =
          some more := by
        have hbytes : byteLength (':' :: '[' :: (name ++ [']'])) = byteLength name + 3 := by
          have hsize : ':'.utf8Size = 1 ∧ '['.utf8Size = 1 ∧ ']'.utf8Size = 1 := by decide
          simp only [Text.byteLength_cons, Text.byteLength_append, Text.byteLength_nil, hsize]
          omega
        rw [← hbytes]
        exact from?_eq (by simp)
      have hlt : byteLength name < byteLength (name ++ ']' :: more) := by
        rw [Text.byteLength_append]
        exact Nat.lt_add_of_pos_right (Text.byteLength_pos (by simp))
      have hlength : name.length < (name ++ ']' :: more).length := by simp
      have hdrop : ('[' :: (name ++ ']' :: more)).drop (name.length + 2) = more := by
        rw [List.drop_succ_cons, List.drop_length_add_append]
        rfl
      rw [if_pos hlt, Option.bind_some, hclose]
      by_cases hname : name ≠ [] ∧ name.all Text.isWord
      · rw [if_pos hname, if_pos ⟨hlength, hname⟩]
        dsimp only
        rw [hdrop]
        rfl
      · rw [if_neg hname, if_neg fun hall => hname hall.2]
        rfl
  · have hnone : holeAt? (c :: cs) = none := by
      unfold holeAt?
      split
      · next heq =>
        cases heq
        exact absurd ⟨rfl, rfl⟩ hopen
      · rfl
    rw [mark?, if_neg hopen, hone, hnone]
    dsimp only
    rw [if_neg hopen]
    rfl

/-- Every template is read to its end, and gives its marks. -/
theorem marked (cs : List Char) : Marked cs (marks cs) := by
  induction hn : cs.length using Nat.strongRecOn generalizing cs with
  | ind n ih =>
    cases cs with
    | nil => exact .done
    | cons c cs =>
      have hmark := mark?_eq c cs
      have hrest (k : Nat) : Marked (cs.drop k) (marks (cs.drop k)) := by
        refine ih _ ?_ _ rfl
        rw [← hn, List.length_drop, List.length_cons]
        omega
      rw [marks, marksFrom]
      cases hhole : holeAt? (c :: cs) with
      | some name =>
        rw [hhole] at hmark
        dsimp only
        rw [marksFrom_skip]
        exact .next hmark (hrest _)
      | none =>
        rw [hhole] at hmark
        dsimp only at hmark ⊢
        split at hmark
        · next hopen =>
          rw [if_pos hopen]
          exact .next hmark (hrest 0)
        · next hopen =>
          rw [if_neg hopen]
          exact .next hmark (hrest 0)

/-- The checked ends lie behind the lengths that a fragment can have. -/
theorem endsFrom?_eq (h : text = before ++ cs) (taken : Nat) (pending : List Char)
    (place : Fragment.Place) :
    endsFrom? text (byteLength before) pending place cs =
      some ((Fragment.lengthsFrom taken pending place cs).map fun n =>
        byteLength (before ++ cs.take (n - taken))) := by
  induction cs generalizing before taken pending place with
  | nil => rfl
  | cons c cs ih =>
    have hcut : text = before ++ [c] ++ cs := by rw [h, List.append_assoc]; rfl
    have hstop : byteLength before + c.utf8Size = byteLength (before ++ [c]) := by simp
    have hone : byteLength (before ++ (c :: cs).take (taken + 1 - taken)) =
        byteLength before + c.utf8Size := by simp
    have hlater (pending : List Char) (place : Fragment.Place) :
        endsFrom? text (byteLength before + c.utf8Size) pending place cs =
          some ((Fragment.lengthsFrom (taken + 1) pending place cs).map fun n =>
            byteLength (before ++ (c :: cs).take (n - taken))) := by
      rw [hstop, ih hcut (taken + 1)]
      refine congrArg some (List.map_congr_left fun n hn => ?_)
      obtain ⟨_, _, -, rfl, -⟩ := Fragment.closes_of_mem_lengthsFrom hn
      rw [Nat.add_sub_cancel_left, Nat.add_assoc, Nat.add_sub_cancel_left, Nat.add_comm 1,
        List.take_succ_cons, List.append_assoc, List.singleton_append]
    have hoffer (pending : List Char) : offer? text (byteLength before + c.utf8Size) pending =
        some (if pending.isEmpty ∧ Text.isBlank c = false then [byteLength before + c.utf8Size]
          else []) := by
      unfold offer?
      rw [hstop, upTo?_eq hcut]
      by_cases hpending : pending.isEmpty = true <;> cases hblank : Text.isBlank c <;>
        simp [hpending, hblank]
    unfold endsFrom? Fragment.lengthsFrom
    cases place with
    | quoted escaped =>
      have hquote : Text.isBlank '"' = false := by decide
      dsimp only
      split_ifs <;> simp_all
    | code =>
      dsimp only
      cases hopen : Fragment.closer? c with
      | some close => exact hlater _ _
      | none =>
        dsimp only
        by_cases hcloser : Fragment.isCloser c = true
        · have hblank : Text.isBlank c = false := by
            simp only [Fragment.isCloser, Bool.or_eq_true, beq_iff_eq] at hcloser
            rcases hcloser with (rfl | rfl) | rfl <;> decide
          rw [if_pos hcloser, if_pos hcloser]
          cases pending with
          | nil => rfl
          | cons awaited outer =>
            dsimp only
            split_ifs <;> simp_all
        · rw [if_neg hcloser, if_neg hcloser]
          by_cases hempty : pending.isEmpty = true <;> split_ifs <;> simp_all

/-- The checked ends of a hole are its candidates. -/
theorem holeEnds?_eq (h : text = before ++ cs) (last : Bool) :
    holeEnds? text (byteLength before) last =
      some ((Fragment.candidates last cs).map fun n => byteLength (before ++ cs.take n)) := by
  have hends := endsFrom?_eq h 0 [] .code
  unfold holeEnds? Fragment.candidates Fragment.lengths
  rw [from?_eq h]
  cases cs with
  | nil => cases last <;> rfl
  | cons c rest =>
    cases hblank : Text.isBlank c with
    | true => cases last <;> simp [hblank]
    | false => cases last <;> simp [hblank, hends, List.getLast?_map, Option.toList_map]

/-- A slot lies in the text, and what was captured stands there. -/
structure Slot.Holds (text : List Char) (slot : Slot) (capture : Capture) : Prop where
  name : slot.name = capture.name
  piece : SourceText.slice? text slot.start slot.stop = some capture.text
  stop : slot.stop = slot.start + byteLength capture.text

theorem Slot.holds_take (h : text = before ++ cs) (name : String) (n : Nat) :
    Slot.Holds text ⟨name, byteLength before, byteLength (before ++ cs.take n)⟩
      ⟨name, cs.take n⟩ := by
  refine ⟨rfl, ?_, Text.byteLength_append ..⟩
  have hslice := SourceText.slice?_append before (cs.take n) (cs.drop n)
  rwa [List.append_assoc, List.take_append_drop, ← h] at hslice

/-- A name clashes if the captures do not agree with the text. -/
theorem clashes?_eq {bound : List Slot} {captures : List Capture} {name : String} {start stop : Nat}
    {piece : List Char} (hbound : List.Forall₂ (Slot.Holds text) bound captures)
    (hpiece : SourceText.slice? text start stop = some piece) :
    clashes? text bound name start stop = some (!agrees captures name piece) := by
  unfold clashes? agrees
  induction hbound with
  | nil => rfl
  | @cons slot capture _ _ hslot _ ih =>
    by_cases hname : capture.name = name
    · simp [hslot.name, hname, hslot.piece, hpiece, bne, Bool.beq_eq_decide_eq]
    · simpa [hslot.name, hname] using ih

/-- A result at offsets is one of the search: it stops where the match does, and has slots for all
captures, after those that were there before. A leading hole's slot is the first. -/
def Agree (text before cs : List Char) (tokens : List Token) (bound : List Slot) :
    Option (Nat × List Slot) → Option Found → Prop
  | none, none => True
  | some (stop, slots), some found =>
    stop = byteLength (before ++ cs.take found.length) ∧
      ∃ new, slots = bound ++ new ∧ List.Forall₂ (Slot.Holds text) new found.captures ∧
        (startsWithHole tokens = true → new.head?.map (·.start) = some (byteLength before))
  | _, _ => False

/-- The first answer of two searches is related if all answers are. -/
theorem firstSome?_eq {α β γ δ : Type} {f : β → Option (Option γ)} {g : α → β} {h : α → Option δ}
    {R : Option γ → Option δ → Prop} (hnone : R none none) (hne : ∀ c, ¬R (some c) none)
    (hne' : ∀ d, ¬R none (some d)) {xs : List α}
    (hxs : ∀ x ∈ xs, ∃ r, f (g x) = some r ∧ R r (h x)) :
    ∃ r, firstSome? f (xs.map g) = some r ∧ R r (xs.findSome? h) := by
  induction xs with
  | nil => exact ⟨none, rfl, hnone⟩
  | cons x xs ih =>
    obtain ⟨r, hr, hR⟩ := hxs x List.mem_cons_self
    rw [List.map_cons, firstSome?, hr, List.findSome?_cons]
    cases r with
    | none =>
      cases hx : h x with
      | none => exact ih fun y hy => hxs y (List.mem_cons_of_mem _ hy)
      | some d => exact absurd (hx ▸ hR) (hne' d)
    | some c =>
      cases hx : h x with
      | none => exact absurd (hx ▸ hR) (hne c)
      | some d =>
        rw [hx] at hR
        exact ⟨some c, rfl, hR⟩

/-- Tokens after a part of the text that is matched already: the match goes on behind it. -/
theorem Agree.after {before lead cs : List Char} {rest tokens : List Token} {bound : List Slot}
    {r : Option (Nat × List Slot)} {found : Option Found}
    (h : Agree text (before ++ lead) cs rest bound r found)
    (hhole : startsWithHole tokens = false) :
    Agree text before (lead ++ cs) tokens bound r
      (found.map fun found => ⟨found.captures, lead.length + found.length⟩) := by
  match r, found, h with
  | none, none, _ => trivial
  | some (stop, slots), some found, ⟨hstop, new, hslots, hholds, _⟩ =>
    refine ⟨?_, new, hslots, hholds, fun hnot => absurd hnot (by simp [hhole])⟩
    rw [hstop, List.take_length_add_append, List.append_assoc]

/-- Tokens after a hole that has captured something: the match goes on behind it, and the hole's
slot comes before the other new ones. -/
theorem Agree.bind {rest : List Token} {bound : List Slot} {name : String} {n : Nat}
    {r : Option (Nat × List Slot)} {found : Option Found}
    (h : Agree text (before ++ cs.take n) (cs.drop n) rest
      (bound ++ [⟨name, byteLength before, byteLength (before ++ cs.take n)⟩]) r found)
    (hslot : Slot.Holds text ⟨name, byteLength before, byteLength (before ++ cs.take n)⟩
      ⟨name, cs.take n⟩) :
    Agree text before cs (.hole name :: rest) bound r
      (found.map fun found => ⟨⟨name, cs.take n⟩ :: found.captures, n + found.length⟩) := by
  match r, found, h with
  | none, none, _ => trivial
  | some (stop, slots), some found, ⟨hstop, new, hslots, hholds, _⟩ =>
    refine ⟨?_, _ :: new, ?_, .cons hslot hholds, fun _ => rfl⟩
    · rw [hstop, List.append_assoc, ← List.take_add]
    · rw [hslots, List.append_assoc, List.singleton_append]

/-- The bytes of the blanks at the start of a text. -/
theorem byteLength_blankRun {run after : List Char}
    (hlength : ((run ++ after).takeWhile Text.isBlank).length = run.length) :
    byteLength (run ++ after) - byteLength (Text.trimStart (run ++ after)) = byteLength run := by
  have hsplit : (run ++ after).takeWhile Text.isBlank ++ Text.trimStart (run ++ after) =
      run ++ after := List.takeWhile_append_dropWhile
  rw [(List.append_inj hsplit hlength).2, Text.byteLength_append, Nat.add_sub_cancel]

/-- The text is cut behind what a hole has captured. -/
theorem cut_take (h : text = before ++ cs) (n : Nat) : text = before ++ cs.take n ++ cs.drop n := by
  rw [List.append_assoc, List.take_append_drop, h]

section

variable {run after : List Char} {bound : List Slot} {rest : List Token}

/-- A literal is passed if the text goes on with it. -/
theorem matchFrom?_literal (h : text = before ++ cs) (lead : List Char) :
    matchFrom? text bound (.literal lead :: rest) (byteLength before) =
      if lead <+: cs then matchFrom? text bound rest (byteLength (before ++ lead))
      else some none := by
  rw [matchFrom?, from?_eq h, Text.byteLength_append]
  simp

/-- A blank token passes all blanks at the place, and there has to be one. -/
theorem matchFrom?_blank (h : text = before ++ (run ++ after))
    (hlength : ((run ++ after).takeWhile Text.isBlank).length = run.length) :
    matchFrom? text bound (.blank :: rest) (byteLength before) =
      if run = [] then some none else matchFrom? text bound rest (byteLength (before ++ run)) := by
  rw [matchFrom?, from?_eq h, Text.byteLength_append]
  simp only [Option.bind_eq_bind, Option.bind_some, byteLength_blankRun hlength]
  by_cases hempty : run = []
  · rw [hempty]
    rfl
  · rw [if_neg hempty, if_neg (Nat.ne_of_gt (Text.byteLength_pos hempty))]

end

/-- Matching tokens at offsets gives what the search finds, from every place on and whatever is
bound. -/
def FollowsSearch (text : List Char) (tokens : List Token) : Prop :=
  ∀ before cs, text = before ++ cs → ∀ bound captures,
    List.Forall₂ (Slot.Holds text) bound captures →
      ∃ r, matchFrom? text bound tokens (byteLength before) = some r ∧
        Agree text before cs tokens bound r (searchFrom captures tokens cs)

section

variable {rest : List Token} (hrest : FollowsSearch text rest)
include hrest

/-- A literal is passed where the text goes on with it. -/
theorem FollowsSearch.literal (lead : List Char) :
    FollowsSearch text (.literal lead :: rest) := by
  intro before cs h bound captures hbound
  rw [matchFrom?_literal h, searchFrom]
  cases hafter : Text.after? lead cs with
  | none =>
    have hlead : ¬lead <+: cs := by
      rintro ⟨cs', hcs'⟩
      cases hafter.symm.trans (List.isPrefixOf?_eq_some_iff_append_eq.mpr hcs')
    exact ⟨none, if_neg hlead, trivial⟩
  | some cs' =>
    obtain rfl : lead ++ cs' = cs := List.isPrefixOf?_eq_some_iff_append_eq.mp hafter
    obtain ⟨r, hr, hagree⟩ := hrest _ _ (h.trans (List.append_assoc ..).symm) _ _ hbound
    exact ⟨r, by rwa [if_pos (List.prefix_append ..)], hagree.after rfl⟩

/-- A blank token passes the blanks of the text. -/
theorem FollowsSearch.blank : FollowsSearch text (.blank :: rest) := by
  intro before cs h bound captures hbound
  obtain ⟨run, after, rfl, hlength, -⟩ := blankRun_spec cs
  rw [matchFrom?_blank h hlength, searchFrom, hlength]
  by_cases hempty : run = []
  · exact ⟨none, if_pos hempty, by simp [hempty, Agree]⟩
  · obtain ⟨r, hr, hagree⟩ := hrest _ _ (h.trans (List.append_assoc ..).symm) _ _ hbound
    refine ⟨r, by rwa [if_neg hempty], ?_⟩
    simpa [hempty] using hagree.after rfl

/-- The ends of a hole are those that the search tries, in the same order, and an end is refused if
the captured text does not agree with an earlier one. -/
theorem FollowsSearch.hole (name : String) : FollowsSearch text (.hole name :: rest) := by
  intro before cs h bound captures hbound
  rw [matchFrom?, holeEnds?_eq h, searchFrom]
  refine firstSome?_eq trivial (fun _ => id) (fun _ => id) fun n hn => ?_
  have hslot := Slot.holds_take h name n
  rw [clashes?_eq hbound hslot.piece]
  cases hagrees : agrees captures name (cs.take n) with
  | false => exact ⟨none, rfl, by simp [hagrees, Agree]⟩
  | true =>
    obtain ⟨r, hr, hagree⟩ :=
      hrest _ _ (cut_take h n) _ _ (List.rel_append hbound (.cons hslot .nil))
    refine ⟨r, by simpa using hr, ?_⟩
    dsimp only
    rw [if_pos hagrees]
    exact hagree.bind hslot

end

/-- Matching at offsets never fails on a cut, and gives what the search finds. -/
theorem matchFrom?_eq (tokens : List Token) : FollowsSearch text tokens := by
  induction tokens with
  | nil =>
    intro before cs h bound captures hbound
    refine ⟨_, rfl, ?_, [], (List.append_nil _).symm, .nil, nofun⟩
    rw [List.take_zero, List.append_nil]
  | cons token rest ih =>
    cases token with
    | literal lead => exact ih.literal lead
    | blank => exact ih.blank
    | hole name => exact ih.hole name

/-- Matching a template at a place gives what matches there. -/
theorem matchAt?_eq (h : text = before ++ cs) :
    ∃ r, matchAt? text tokens (byteLength before) = some r ∧
      Agree text before cs tokens [] r (matchHere tokens cs) := by
  obtain ⟨r, hr, hagree⟩ := matchFrom?_eq tokens before cs h [] [] .nil
  unfold matchAt? matchHere search
  rw [hr]
  cases hsearch : searchFrom [] tokens cs with
  | none =>
    rw [hsearch] at hagree
    match r, hagree with
    | none, _ => exact ⟨none, rfl, trivial⟩
  | some found =>
    rw [hsearch] at hagree
    match r, hagree with
    | some (stop, slots), hagree =>
      have hfrom : from? text stop = some (cs.drop found.length) :=
        hagree.1 ▸ from?_eq (cut_take h _)
      have hmoves : byteLength before < stop ↔ 0 < found.length := by
        rw [hagree.1, Text.byteLength_append]
        have hlength := (searchFrom_spec hsearch).1
        constructor
        · intro hlt
          refine Nat.pos_of_ne_zero fun hzero => ?_
          simp [hzero] at hlt
        · intro hpos
          refine Nat.lt_add_of_pos_right (Text.byteLength_pos fun hnil => ?_)
          rcases List.take_eq_nil_iff.mp hnil with hzero | rfl
          · omega
          · exact absurd hlength (Nat.not_le.mpr hpos)
      simp only [Option.bind_eq_bind, Option.bind_some, Option.filter, hmoves]
      by_cases hpos : 0 < found.length
      · simp only [hpos, decide_true, if_true, Option.bind_some, hfrom]
        cases endsWithWord tokens with
        | false => exact ⟨_, rfl, hagree⟩
        | true =>
          by_cases hword : (cs.drop found.length).head?.any Text.isWord = true
          · refine ⟨none, ?_, ?_⟩
            · rw [if_pos rfl, if_pos hword]
              rfl
            · rw [if_neg (by rw [hword]; decide)]
              trivial
          · refine ⟨some (stop, slots), ?_, ?_⟩
            · rw [if_pos rfl, if_neg hword]
              rfl
            · rwa [if_pos (by rw [Bool.eq_false_iff.mpr hword]; rfl)]
      · simp only [hpos, decide_false, Bool.false_eq_true, if_false]
        exact ⟨_, rfl, trivial⟩

theorem startsTerm?_eq (h : text = before ++ cs) :
    startsTerm? text (byteLength before) = some (startsTerm before.getLast? cs) := by
  rw [startsTerm?, upTo?_eq h, from?_eq h]
  rfl

/-- The offsets of characters behind a part of a text are those of the rest. -/
theorem isBoundary_eq (h : text = before ++ cs) (j : Nat) :
    SourceText.isBoundary text (byteLength before + j) = SourceText.isBoundary cs j := by
  subst h
  unfold SourceText.isBoundary
  induction before with
  | nil => simp
  | cons c rest ih =>
    have hpos : 0 < c.utf8Size := Char.utf8Size_pos c
    obtain ⟨n, hn⟩ : ∃ n, byteLength (c :: rest) + j = n + 1 :=
      Nat.exists_eq_succ_of_ne_zero (by rw [Text.byteLength_cons]; omega)
    have hrest : n + 1 - c.utf8Size = byteLength rest + j := by
      rw [← hn, Text.byteLength_cons]
      omega
    have hle : c.utf8Size ≤ n + 1 := by
      rw [← hn, Text.byteLength_cons]
      omega
    rw [hn, List.cons_append, Text.splitAtByte?, if_pos hle, hrest, Option.isSome_map]
    exact ih

/-- The offsets after the first one of a character: those inside it and those behind it. -/
theorem range'_char (o n : Nat) (c : Char) :
    List.range' (o + 1) (c.utf8Size + n - 1) =
      List.range' (o + 1) (c.utf8Size - 1) ++ List.range' (o + c.utf8Size) n := by
  have hpos : 0 < c.utf8Size := Char.utf8Size_pos c
  have hsize : c.utf8Size + n - 1 = c.utf8Size - 1 + n := by omega
  have hnext : o + c.utf8Size = o + 1 + 1 * (c.utf8Size - 1) := by omega
  rw [hsize, hnext, List.range'_append]

/-- Offsets inside a character are passed over. -/
theorem latest?_inside {c : Char} (h : text = before ++ c :: cs) (best : Nat × Nat × List Slot)
    (more : List Nat) :
    latest? text tokens best (List.range' (byteLength before + 1) (c.utf8Size - 1) ++ more) =
      latest? text tokens best more := by
  have hinside : ∀ o ∈ List.range' (byteLength before + 1) (c.utf8Size - 1),
      SourceText.isBoundary text o = false := by
    intro o ho
    obtain ⟨j, hj, rfl⟩ := List.mem_range'.mp ho
    have hlt : ¬c.utf8Size ≤ j + 1 := by omega
    have hsplit : SourceText.isBoundary (c :: cs) (j + 1) = false := by
      rw [SourceText.isBoundary, Text.splitAtByte?, if_neg hlt]
      rfl
    rw [← hsplit, ← isBoundary_eq h]
    congr 1
    omega
  generalize List.range' (byteLength before + 1) (c.utf8Size - 1) = inside at hinside
  induction inside with
  | nil => rfl
  | cons o rest ih =>
    rw [List.cons_append, latest?, hinside o List.mem_cons_self, if_neg (by decide)]
    exact ih fun o ho => hinside o (List.mem_cons_of_mem _ ho)

/-- A result of the search for a later start: the best one so far, if there is none. -/
def Later (text before cs : List Char) (tokens : List Token) (distance : Nat)
    (best r : Nat × Nat × List Slot) : Option (Nat × Found) → Prop
  | none => r = best
  | some (d, found) => ∃ k, d = distance + k ∧ r.1 = byteLength (before ++ cs.take k) ∧
      Agree text (before ++ cs.take k) (cs.drop k) tokens [] (some r.2) (some found)

/-- The latest start is the one that the search finds, or else the best so far. -/
theorem latest?_eq {before seg after : List Char} (h : text = before ++ (seg ++ after))
    (distance : Nat) (best : Nat × Nat × List Slot) {previous : Char}
    (hprevious : before.getLast? = some previous) :
    ∃ r, latest? text tokens best (List.range' (byteLength before) (byteLength seg)) = some r ∧
      Later text before (seg ++ after) tokens distance best r
        (latestStart tokens distance previous seg.length (seg ++ after)) := by
  induction seg generalizing before distance best previous with
  | nil => exact ⟨best, rfl, rfl⟩
  | cons c seg ih =>
    have hcut : text = before ++ [c] ++ (seg ++ after) := by
      rw [h, List.append_assoc]
      rfl
    have hstart : SourceText.isBoundary text (byteLength before) = true := by
      have := isBoundary_eq h 0
      rwa [Nat.add_zero] at this
    have hrange : List.range' (byteLength before) (byteLength (c :: seg)) =
        byteLength before :: (List.range' (byteLength before + 1) (c.utf8Size - 1) ++
          List.range' (byteLength (before ++ [c])) (byteLength seg)) := by
      have hpos : 0 < c.utf8Size := Char.utf8Size_pos c
      have hsize : byteLength (c :: seg) = c.utf8Size + byteLength seg - 1 + 1 := by
        rw [Text.byteLength_cons]
        omega
      have hnext : byteLength (before ++ [c]) = byteLength before + c.utf8Size := by simp
      rw [hsize, List.range'_succ, range'_char, hnext]
    -- A match that starts here is the best one, until a later one is found.
    obtain ⟨here, hstep, hhere⟩ : ∃ here, latest? text tokens best
        (List.range' (byteLength before) (byteLength (c :: seg))) =
          latest? text tokens here (List.range' (byteLength (before ++ [c])) (byteLength seg)) ∧
        Later text before (c :: seg ++ after) tokens distance best here
          (if startsTerm (some previous) (c :: seg ++ after) then
            (matchHere tokens (c :: seg ++ after)).map fun found => (distance, found)
          else none) := by
      obtain ⟨found, hfound, hagree⟩ := @matchAt?_eq text tokens _ _ h
      rw [hrange, latest?, if_pos hstart, startsTerm?_eq h, hfound, hprevious]
      simp only [Option.bind_eq_bind, Option.bind_some, latest?_inside h]
      cases startsTerm (some previous) (c :: seg ++ after) with
      | false => exact ⟨best, rfl, rfl⟩
      | true =>
        cases hmatch : matchHere tokens (c :: seg ++ after) with
        | none =>
          rw [hmatch] at hagree
          match found, hagree with
          | none, _ => exact ⟨best, rfl, rfl⟩
        | some matched =>
          rw [hmatch] at hagree
          match found, hagree with
          | some found, hagree =>
            refine ⟨(byteLength before, found), rfl, 0, rfl, ?_, ?_⟩
            · rw [List.take_zero, List.append_nil]
            · rwa [List.take_zero, List.append_nil]
    obtain ⟨r, hr, hlater⟩ := ih hcut (distance + 1) here List.getLast?_concat
    refine ⟨r, hstep.trans hr, ?_⟩
    rw [List.cons_append, List.length_cons, latestStart]
    cases hlatest : latestStart tokens (distance + 1) c seg.length (seg ++ after) with
    | none =>
      rw [hlatest] at hlater
      obtain rfl : r = here := hlater
      exact hhere
    | some later =>
      rw [hlatest] at hlater
      obtain ⟨k, hk, hstart, hagree⟩ := hlater
      refine ⟨k + 1, by omega, ?_, ?_⟩ <;> rwa [List.take_succ_cons, List.append_cons]

/-- A leading hole moves on to the start at which the search settles. -/
theorem settle?_eq {done cs : List Char} {c : Char} {found : Found} {stop : Nat} {slots : List Slot}
    (h : text = done ++ c :: cs) (hfound : matchHere tokens (c :: cs) = some found)
    (hagree : Agree text done (c :: cs) tokens [] (some (stop, slots)) (some found)) :
    ∃ stop' slots', settle? text tokens (byteLength done) (stop, slots) =
        some (byteLength (done ++ (c :: cs).take (settle tokens c cs found).1), stop', slots') ∧
      Agree text (done ++ (c :: cs).take (settle tokens c cs found).1)
        ((c :: cs).drop (settle tokens c cs found).1) tokens [] (some (stop', slots'))
        (some (settle tokens c cs found).2) := by
  have hstay : Agree text (done ++ (c :: cs).take 0) ((c :: cs).drop 0) tokens []
      (some (stop, slots)) (some found) := by
    rwa [List.take_zero, List.append_nil]
  cases tokens with
  | nil => exact ⟨stop, slots, by simp [settle?, settle, startsWithHole], hstay⟩
  | cons token rest =>
    cases token with
    | literal _ | blank => exact ⟨stop, slots, by simp [settle?, settle, startsWithHole], hstay⟩
    | hole name =>
      obtain ⟨hsearch, -⟩ := matchHere_eq_some_iff.mp hfound
      cases (reads_of_searchFrom consistent_nil hsearch).1 with
      | @hole _ _ n _ later hn _ =>
        obtain ⟨m, rfl⟩ : ∃ m, n = m + 1 := by
          obtain ⟨-, ⟨d, hd, -⟩, -⟩ := Fragment.isFragment_of_mem_candidates hn
          refine Nat.exists_eq_succ_of_ne_zero fun hzero => ?_
          rw [hzero, List.take_zero] at hd
          cases hd
        obtain ⟨-, new, hslots, hholds, hfirst⟩ := hagree
        rw [List.nil_append] at hslots
        subst hslots
        cases hholds with
        | @cons slot _ more _ hslot hmore =>
          have hstart : slot.start = byteLength done := Option.some.inj (hfirst rfl)
          have hcut : text = done ++ [c] ++ (cs.take m ++ cs.drop m) := by
            rw [List.take_append_drop, h, List.append_assoc]
            rfl
          have hlength : (cs.take m).length = m := by
            have hle := Fragment.le_of_mem_candidates hn
            rw [List.length_cons] at hle
            rw [List.length_take]
            omega
          have hsize : slot.stop - (byteLength done + 1) =
              c.utf8Size + byteLength (cs.take m) - 1 := by
            have hstop := hslot.stop
            rw [hstart, List.take_succ_cons, Text.byteLength_cons] at hstop
            omega
          have hnext : byteLength done + c.utf8Size = byteLength (done ++ [c]) := by simp
          obtain ⟨r, hr, hlater⟩ := @latest?_eq text (.hole name :: rest) _ _ _ hcut 1
            (byteLength done, stop, slot :: more) c List.getLast?_concat
          have hsettle : settle? text (.hole name :: rest) (byteLength done)
              (stop, slot :: more) = some r := by
            have hhole : startsWithHole (.hole name :: rest) = true := rfl
            rw [settle?, if_pos hhole]
            dsimp only
            rw [hsize, range'_char, latest?_inside h, hnext, hr]
          rw [List.take_append_drop, hlength] at hlater
          rw [hsettle, settle]
          simp only [startsWithHole, List.take_succ_cons, List.length_cons, hlength,
            Nat.add_sub_cancel]
          cases hlatest : latestStart (.hole name :: rest) 1 c m cs with
          | none =>
            rw [hlatest] at hlater
            obtain rfl : r = _ := hlater
            exact ⟨stop, slot :: more, by simp, hstay⟩
          | some found =>
            rw [hlatest] at hlater
            obtain ⟨k, hk, hat, hagree⟩ := hlater
            have hmove : done ++ (c :: cs).take found.1 = done ++ [c] ++ cs.take k := by
              rw [hk, Nat.add_comm, List.take_succ_cons, List.append_cons]
            have hdrop : (c :: cs).drop found.1 = cs.drop k := by
              rw [hk, Nat.add_comm, List.drop_succ_cons]
            refine ⟨r.2.1, r.2.2, ?_, ?_⟩
            · rw [Option.getD_some, hmove, ← hat]
            · rwa [Option.getD_some, hmove, hdrop]

/-- What is noted of an occurrence. -/
def noteOf (text : List Char) (o : Occurrence) : Note where
  start := byteLength (text.take o.start)
  stop := byteLength (text.take (o.start + o.found.length))
  texts := o.found.captures.map fun c => (c.name, c.text)

theorem texts_eq {slots : List Slot} {captures : List Capture}
    (h : List.Forall₂ (Slot.Holds text) slots captures) :
    (slots.mapM fun s => (SourceText.slice? text s.start s.stop).map fun piece => (s.name, piece)) =
      some (captures.map fun c => (c.name, c.text)) := by
  induction h with
  | nil => rfl
  | cons hslot _ ih => simp [hslot.name, hslot.piece, ih]

/-- A template is blocked at an offset where the search is. -/
theorem blocked?_eq {done cs : List Char} (h : text = done ++ cs) :
    blocked? text tokens (byteLength done) = some (blockedHere tokens done.getLast? cs) := by
  unfold blocked? blockedHere
  rw [upTo?_eq h, startsTerm?_eq h]
  cases tokens with
  | nil => rfl
  | cons token rest =>
    cases token with
    | literal lead =>
      cases hword : lead.head?.any Text.isWord <;> simp [startsWithWord, startsWithHole, hword]
    | blank => rfl
    | hole name => simp [startsWithWord, startsWithHole]

/-- A step notes the match that the search settles on, and goes on behind it. -/
theorem step?_eq {done cs : List Char} {c : Char} (h : text = done ++ c :: cs) :
    step? text tokens (byteLength done) =
      if blockedHere tokens done.getLast? (c :: cs) then some (none, byteLength (done ++ [c]))
      else
        match matchHere tokens (c :: cs) with
        | none => some (none, byteLength (done ++ [c]))
        | some found =>
          let note := noteOf text
            ⟨done.length + (settle tokens c cs found).1, (settle tokens c cs found).2⟩
          some (some note, note.stop) := by
  obtain ⟨r, hr, hagree⟩ := @matchAt?_eq text tokens _ _ h
  have hnext : byteLength done + c.utf8Size = byteLength (done ++ [c]) := by simp
  unfold step?
  rw [from?_eq h, blocked?_eq h, hr]
  simp only [Option.bind_eq_bind, Option.bind_some, List.head?_cons, Option.map_some,
    Option.getD_some, hnext]
  cases blockedHere tokens done.getLast? (c :: cs) with
  | true => rfl
  | false =>
    simp only [Bool.false_eq_true, if_false]
    cases hfound : matchHere tokens (c :: cs) with
    | none =>
      rw [hfound] at hagree
      match r, hagree with
      | none, _ => rfl
    | some found =>
      rw [hfound] at hagree
      match r, hagree with
      | some (stop, slots), hagree =>
        obtain ⟨stop', slots', hsettle, hstop, new, hslots, hholds, -⟩ := settle?_eq h hfound hagree
        have hstart : text.take (done.length + (settle tokens c cs found).1) =
            done ++ (c :: cs).take (settle tokens c cs found).1 := by
          rw [h, List.take_length_add_append]
        have hend : text.take
            (done.length + (settle tokens c cs found).1 + (settle tokens c cs found).2.length) =
            done ++ (c :: cs).take (settle tokens c cs found).1 ++
              ((c :: cs).drop (settle tokens c cs found).1).take
                (settle tokens c cs found).2.length := by
          rw [h, Nat.add_assoc, List.take_length_add_append, List.append_assoc, ← List.take_add]
        rw [List.nil_append] at hslots
        subst hslots hstop
        dsimp only
        rw [hsettle]
        simp only [Option.bind_some, texts_eq hholds, noteOf, hstart, hend]
        rfl

/-- Skipped characters are passed over one by one. -/
theorem occurrencesFrom_skip (tokens : List Token) {skip : Nat} {done cs : List Char}
    (h : skip ≤ cs.length) :
    occurrencesFrom tokens skip done.getLast? done.length cs =
      occurrencesFrom tokens 0 (done ++ cs.take skip).getLast? (done ++ cs.take skip).length
        (cs.drop skip) := by
  induction skip generalizing done cs with
  | zero => rw [List.take_zero, List.append_nil, List.drop_zero]
  | succ skip ih =>
    cases cs with
    | nil => cases h
    | cons c cs =>
      have hrest := @ih (done ++ [c]) cs (Nat.le_of_succ_le_succ h)
      rw [List.getLast?_concat, List.length_append, List.length_singleton] at hrest
      rw [occurrencesFrom, hrest, List.take_succ_cons, List.drop_succ_cons, List.append_assoc,
        List.singleton_append]

/-- The steps from a place of the text come to its end, and note the occurrences from there on. -/
theorem scans (tokens : List Token) {done cs : List Char} (h : text = done ++ cs) :
    Scans text tokens (byteLength done)
      ((occurrencesFrom tokens 0 done.getLast? done.length cs).map (noteOf text)) := by
  induction hn : cs.length using Nat.strongRecOn generalizing done cs with
  | ind n ih =>
    cases cs with
    | nil => exact .done (by rw [h, List.append_nil])
    | cons c cs =>
      have hbelow : byteLength done < byteLength text := by
        rw [h, Text.byteLength_append]
        exact Nat.lt_add_of_pos_right (Text.byteLength_pos (by simp))
      have hstep := @step?_eq text tokens _ _ _ h
      -- The walk goes on behind some characters, of which there is at least one.
      have hrest (skip : Nat) (hskip : skip ≤ cs.length) :
          Scans text tokens (byteLength (done ++ (c :: cs).take (skip + 1)))
            ((occurrencesFrom tokens skip (some c) (done.length + 1) cs).map (noteOf text)) := by
        have hskips := @occurrencesFrom_skip tokens skip (done ++ [c]) cs hskip
        rw [List.getLast?_concat, List.length_append, List.length_singleton] at hskips
        rw [hskips, List.take_succ_cons, List.append_cons]
        refine ih _ ?_ ?_ rfl
        · rw [← hn, List.length_drop, List.length_cons]
          omega
        · rw [List.append_assoc, List.take_append_drop, List.append_assoc, List.singleton_append, h]
      rw [occurrencesFrom_cons]
      split at hstep
      · next hblocked =>
        rw [if_pos hblocked]
        exact .pass hbelow hstep (hrest 0 (Nat.zero_le _))
      · next hblocked =>
        rw [if_neg hblocked]
        cases hfound : matchHere tokens (c :: cs) with
        | none =>
          rw [hfound] at hstep
          exact .pass hbelow hstep (hrest 0 (Nat.zero_le _))
        | some found =>
          rw [hfound] at hstep
          obtain ⟨hsettled, -⟩ := settle_spec hfound
          have hpos := (matchHere_eq_some_iff.mp hsettled).2.1
          have hlength := (searchFrom_spec (matchHere_eq_some_iff.mp hsettled).1).1
          rw [List.length_drop, List.length_cons] at hlength
          rw [List.map_cons]
          refine .hit hbelow hstep ?_
          have hstop : text.take (done.length + (settle tokens c cs found).1 +
              (settle tokens c cs found).2.length) = done ++ (c :: cs).take
                ((settle tokens c cs found).1 + (settle tokens c cs found).2.length - 1 + 1) := by
            rw [h, Nat.add_assoc, List.take_length_add_append, Nat.sub_add_cancel (by omega)]
          simp only [noteOf, hstop]
          exact hrest _ (by omega)

end

/-- What is noted of a match, at offsets, is where it is located: the locations lead back to the
offsets, and the match is not empty. -/
structure Located (text : List Char) (note : Note) (m : Match) : Prop where
  start : SourceText.offset text m.span.start = .ok note.start
  stop : SourceText.offset text m.span.stop = .ok note.stop
  texts : m.bindings = .ofList (note.texts.map fun entry => (entry.1, String.ofList entry.2))
  bytes : note.start < note.stop
  span : m.span.start < m.span.stop

end Checked

/-- A later place of a text has a later location. -/
theorem locationOfIndex_lt (text : List Char) {a b : Nat} (h : a < b) (hb : b ≤ text.length) :
    locationOfIndex text a < locationOfIndex text b := by
  have hcursor (i : Nat) : locationOfIndex text i = Location.endOf (text.take i) := by
    rw [← SourceText.locationAt_append _ (text.drop i), List.take_append_drop]
    rfl
  have hparts : text.take a ++ text.drop a = text.take b ++ text.drop b := by
    rw [List.take_append_drop, List.take_append_drop]
  rw [hcursor, hcursor, SourceText.endOf_lt_iff hparts]
  exact byteLength_take_lt text h hb

theorem located_of_stands {tokens : List Token} {text : List Char} {o : Occurrence}
    (h : Stands tokens text o) : Checked.Located text (Checked.noteOf text o) (o.toMatch text) where
  start := offset_locationOfIndex ..
  stop := offset_locationOfIndex ..
  texts := by rw [Checked.noteOf, List.map_map]; rfl
  bytes := byteLength_take_lt _ (Nat.lt_add_of_pos_right h.stops.1) h.stops.2
  span := locationOfIndex_lt _ (Nat.lt_add_of_pos_right h.stops.1) h.stops.2

/-- Occurrences come in order, each one after the end of those before. -/
theorem pairwise_occurrencesFrom (tokens : List Token) (skip : Nat) (done cs : List Char) :
    (occurrencesFrom tokens skip done.getLast? done.length cs).Pairwise
      fun a b => a.start + a.found.length ≤ b.start := by
  induction cs generalizing skip done with
  | nil => exact .nil
  | cons c cs ih =>
    have hrest (skip : Nat) := ih skip (done ++ [c])
    simp only [List.getLast?_concat, List.length_append, List.length_singleton] at hrest
    cases skip with
    | succ skip => exact hrest skip
    | zero =>
      rw [occurrencesFrom_cons]
      split
      · exact hrest 0
      · split
        · exact hrest 0
        · next found hfound =>
          refine List.pairwise_cons.mpr ⟨fun o ho => ?_, hrest _⟩
          have hlater := @stands_of_mem_occurrencesFrom tokens
            ((settle tokens c cs found).1 + (settle tokens c cs found).2.length - 1) cs o
            (done ++ [c])
          simp only [List.getLast?_concat, List.length_append, List.length_singleton] at hlater
          have hstart := (hlater ho).2
          dsimp only
          omega

/-- With every cut checked, a template is read to its end, and so are the steps of the walk over a
text. The matches are those they note, in order and apart, both at the offsets and in their
locations, and the locations lead back to the offsets. -/
theorem findMatches_located (text template : List Char) :
    Checked.Marked (Text.trim template) (marks (Text.trim template)) ∧
    match tokens template with
    | .error fault => findMatches text template = .error fault
    | .ok read => ∃ notes ms, Checked.Scans text read 0 notes ∧
        findMatches text template = .ok ms ∧ List.Forall₂ (Checked.Located text) notes ms ∧
        (notes.Pairwise fun a b => a.stop ≤ b.start) ∧
        ms.Pairwise fun a b => a.span.stop ≤ b.span.start := by
  refine ⟨Checked.marked _, ?_⟩
  unfold findMatches
  cases hread : tokens template with
  | error fault => rfl
  | ok read =>
    have hapart := pairwise_occurrencesFrom read 0 [] text
    refine ⟨(occurrences read text).map (Checked.noteOf text), _,
      Checked.scans read (List.nil_append text).symm, rfl, ?_, ?_, ?_⟩
    · rw [List.forall₂_map_left_iff, List.forall₂_map_right_iff, List.forall₂_same]
      exact fun o ho => located_of_stands (stands_of_mem_occurrences ho)
    · exact List.pairwise_map.mpr (hapart.imp fun hle => byteLength_take_le text hle)
    · exact List.pairwise_map.mpr
        (hapart.imp fun hle => SourceText.locationAt_le text (byteLength_take_le text hle))

end Template

end Mutagenesis
