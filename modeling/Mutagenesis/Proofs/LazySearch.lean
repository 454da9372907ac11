import Mathlib.Data.List.Forall2
import Mutagenesis.Installation
import Mutagenesis.MemoryStore
import Mutagenesis.Proofs.LineIndex
import Mutagenesis.Proofs.TemplateMatches

/-!
# What a search gives

A search goes from item to item, with matches and transformations still to come. `Finder.items` says
without that what it has to give: for each operator, transformation and match in order, the mutation
or the fault. Each item that is taken is the first of what remains (`remaining_eq`), so all items
are those (`items_start`). The matches of templates have their ends in the text, and then the lines
that are asked for only leave items out (`search_items`).
-/

set_option autoImplicit false

namespace Mutagenesis

namespace Finder

/-- What a match of a transformation gives: a fault if one of its ends is no place in the text, and
the mutation if all constraints hold. -/
def matchItems (path : String) (text : List Char) (operator : String) (index : Nat)
    (t : Transformation) (m : Match) : List (Except Fault Mutation) :=
  match SourceText.offset text m.span.start, SourceText.offset text m.span.stop with
  | .ok start, .ok _ =>
    if Constraint.allHold t.constraints m.bindings text start then
      [.ok ⟨operator, index, ⟨path, m.span⟩, m.bindings⟩]
    else []
  | .error fault, _ | .ok _, .error fault => [.error (.badFormat (.position fault))]

/-- What a transformation gives: the fault of the matcher, or what those matches give, in order,
that start on a line that is asked for. -/
def transformationItems (matcher : Matcher) (path : String) (text : List Char)
    (lines : Option (List Nat)) (operator : String) (index : Nat) (t : Transformation) :
    List (Except Fault Mutation) :=
  match matcher text t.matchTemplate with
  | .ok ms => (ms.filter fun m => lines.all (m.span.start.line ∈ ·)).flatMap
      (matchItems path text operator index t)
  | .error fault => [.error fault]

/-- What a search for the transformations of operators gives. -/
def items (matcher : Matcher) (path : String) (text : List Char) (lines : Option (List Nat))
    (os : List Operator) : List (Except Fault Mutation) :=
  os.flatMap fun o => o.transformations.zipIdx.flatMap fun (t, index) =>
    transformationItems matcher path text lines o.name index t

/-- The operators of a search: those that are named, as they are named, or else those of the
language, as they stand in the catalogue. -/
def Chosen (c : Catalogue) (path : String) (filter : SearchFilter) (os : List Operator) : Prop :=
  ∃ language, (match filter.language with
      | some name => c.languages.get name
      | none => c.languages.detect path) = .ok language ∧
    match filter.operators with
    | some names => List.Forall₂ (fun name o => c.operators.get name = .ok o) names os
    | none => os = c.operators.filter (·.supports language.name)

/-- The operators of a search are those chosen by its filter. -/
theorem chosen_operators {c : Catalogue} {path : String} {filter : SearchFilter}
    {os : List Operator} (h : operators c path filter = .ok os) : Chosen c path filter os := by
  obtain ⟨given, names, lines⟩ := filter
  cases given
  all_goals
    obtain ⟨language, hlanguage, hos⟩ := Except.bind_eq_ok_iff.mp h
    refine ⟨language, hlanguage, ?_⟩
    cases names with
    | some names => exact Except.mapM_eq_ok_iff.mp hos
    | none =>
      cases hos
      rfl

namespace Search

/-- What matches of a transformation have still to give. -/
def ofMatches (s : Search) (o : Operator) (index : Nat) (ms : List Match) :
    List (Except Fault Mutation) :=
  ms.flatMap fun m =>
    match s.mutationAt o index m with
    | .ok (some mutation) => [.ok mutation]
    | .ok none => []
    | .error fault => [.error fault]

/-- What transformations have still to give. -/
def ofWork (s : Search) (work : List (Operator × Nat)) : List (Except Fault Mutation) :=
  work.flatMap fun (o, index) =>
    match s.matchesOf o index with
    | .ok ms => s.ofMatches o index ms
    | .error fault => [.error fault]

/-- What a search has still to give. -/
def remaining (s : Search) : List (Except Fault Mutation) :=
  (s.current.elim [] fun (o, index) => s.ofMatches o index s.pending) ++ s.ofWork s.work

theorem ofMatches_eq (s : Search) (o : Operator) (index : Nat) (ms : List Match) :
    s.ofMatches o index ms =
      (s.fromMatches o index ms).elim [] fun (item, rest) => item :: s.ofMatches o index rest := by
  fun_induction fromMatches s o index ms with
  | case1 => rfl
  | case2 m rest mutation h => simp [ofMatches, h]
  | case3 m rest h ih => rw [← ih, ofMatches, List.flatMap_cons, h, ofMatches, List.nil_append]
  | case4 m rest fault h => simp [ofMatches, h]

/-- The items of some work are those that the steps give one by one. -/
theorem ofWork_eq (s : Search) (work : List (Operator × Nat)) :
    s.ofWork work = (s.fromWork work).elim [] fun (item, s') => item :: s'.remaining := by
  fun_induction fromWork s work with
  | case1 => rfl
  | case2 o index work fault h =>
    simp only [ofWork, List.flatMap_cons, h]
    rfl
  | case3 o index work ms h item rest hitem =>
    have hms := s.ofMatches_eq o index ms
    rw [hitem] at hms
    simp only [ofWork, List.flatMap_cons, h, hms]
    rfl
  | case4 o index work ms h hnone ih =>
    have hms := s.ofMatches_eq o index ms
    rw [hnone] at hms
    rw [← ih]
    simp only [ofWork, List.flatMap_cons, h, hms]
    rfl

/-- The next item is the first of what remains, and what remains after it is the rest. -/
theorem remaining_eq (s : Search) :
    s.remaining = s.next.elim [] fun (item, s') => item :: s'.remaining := by
  unfold next
  split
  · next item rest heq =>
    obtain ⟨⟨o, index⟩, hcurrent, heq⟩ := Option.bind_eq_some_iff.mp heq
    have hms := s.ofMatches_eq o index s.pending
    rw [show s.fromMatches o index s.pending = some (item, rest) from heq] at hms
    simp only [remaining, hcurrent, Option.elim, hms]
    rfl
  · next heq =>
    rw [← ofWork_eq, remaining]
    cases hcurrent : s.current with
    | none => rfl
    | some pair =>
      have hms := s.ofMatches_eq pair.1 pair.2 s.pending
      rw [hcurrent] at heq
      rw [show s.fromMatches pair.1 pair.2 s.pending = none from heq] at hms
      exact congrArg (· ++ _) hms

theorem items_eq_remaining (s : Search) : s.items = s.remaining := by
  fun_induction items s with
  | case1 s h => rw [remaining_eq, h]; rfl
  | case2 s item s' h ih => rw [remaining_eq, h, ih]; rfl

/-- A match gives what the transformation says, if it starts on a line that is asked for. -/
theorem ofMatches_transformation (s : Search) {o : Operator} {index : Nat} {t : Transformation}
    (ht : o.transformation index = .ok t) (ms : List Match) :
    s.ofMatches o index ms = (ms.filter fun m => s.lines.all (m.span.start.line ∈ ·)).flatMap
      (matchItems s.path s.text o.name index t) := by
  induction ms with
  | nil => rfl
  | cons m rest ih =>
    rw [ofMatches, List.flatMap_cons, ← ofMatches, ih, List.filter_cons]
    have hline : s.lines.all (m.span.start.line ∈ ·) = !s.lines.any (m.span.start.line ∉ ·) := by
      cases s.lines <;> simp
    unfold mutationAt matchItems
    rw [hline, ht]
    cases s.lines.any (m.span.start.line ∉ ·) with
    | true => rfl
    | false =>
      cases hstart : SourceText.offset s.text m.span.start with
      | error fault => simp [hstart, formatted, bind, Except.bind]
      | ok start =>
        cases hstop : SourceText.offset s.text m.span.stop with
        | error fault => simp [hstart, hstop, formatted, bind, Except.bind]
        | ok stop =>
          cases hholds : Constraint.allHold t.constraints m.bindings s.text start <;>
            simp [hstart, hstop, hholds, formatted, bind, Except.bind, pure, Except.pure]

/-- All items of a search are those that it has to give. -/
theorem items_start (matcher : Matcher) (path : String) (text : List Char)
    (lines : Option (List Nat)) (os : List Operator) :
    (start matcher path text lines os).items = Finder.items matcher path text lines os := by
  rw [items_eq_remaining]
  change ofWork _ (os.flatMap _) = _
  rw [ofWork, List.flatMap_assoc]
  refine List.flatMap_congr fun o _ => ?_
  rw [List.flatMap_map]
  refine List.flatMap_congr fun ⟨t, index⟩ hmem => ?_
  have ht : o.transformation index = .ok t := by
    rw [Operator.transformation, List.mem_zipIdx_iff_getElem?.mp hmem]
  simp only [matchesOf, ht, Except.ok_bind, transformationItems]
  change (match matcher text t.matchTemplate with | .ok ms => _ | .error fault => _) = _
  cases matcher text t.matchTemplate with
  | error fault => rfl
  | ok ms => exact ofMatches_transformation _ ht ms

end Search

/-- An item stays when lines are asked for: a fault always, a mutation if it starts on one. -/
def startsOn (lines : List Nat) : Except Fault Mutation → Bool
  | .ok m => m.location.span.start.line ∈ lines
  | .error _ => true

end Finder

/-- The matches of a template are those of the matcher. -/
theorem Template.findMatches_of_matcher {text : List Char} {template : String} {ms : List Match}
    (h : Template.matcher text template = .ok ms) :
    Template.findMatches text template.toList = .ok ms := by
  unfold Template.matcher at h
  cases hfind : Template.findMatches text template.toList with
  | ok found =>
    rw [hfind] at h
    cases h
    rfl
  | error fault =>
    rw [hfind] at h
    cases h

namespace Finder

/-- A match of a template gives no fault, so an item of it stays exactly if the match starts on one
of the lines. -/
theorem filter_matchItems {text : List Char} {template : String} {ms : List Match}
    (hms : Template.matcher text template = .ok ms) {m : Match} (hm : m ∈ ms) (path : String)
    (operator : String) (index : Nat) (t : Transformation) (lines : List Nat) :
    (matchItems path text operator index t m).filter (startsOn lines) =
      if m.span.start.line ∈ lines then matchItems path text operator index t m else [] := by
  obtain ⟨before, middle, after, rfl, -, hspan, -⟩ :=
    Template.parts_of_mem_findMatches (Template.findMatches_of_matcher hms) hm
  have hstart : SourceText.offset (before ++ middle ++ after) m.span.start =
      .ok (Text.byteLength before) := by
    rw [hspan, List.append_assoc]
    exact SourceText.offset_locationAt before (middle ++ after)
  have hstop : SourceText.offset (before ++ middle ++ after) m.span.stop =
      .ok (Text.byteLength (before ++ middle)) := by
    rw [hspan]
    exact SourceText.offset_locationAt (before ++ middle) after
  unfold matchItems
  rw [hstart, hstop]
  dsimp only
  split
  · by_cases hline : m.span.start.line ∈ lines <;> simp [startsOn, hline]
  · simp

/-- Filtering the matches by lines is filtering what they give. -/
theorem flatMap_filter_lines {lines : List Nat} {ms : List Match}
    {give : Match → List (Except Fault Mutation)}
    (h : ∀ m ∈ ms, (give m).filter (startsOn lines) =
      if m.span.start.line ∈ lines then give m else []) :
    (ms.filter (·.span.start.line ∈ lines)).flatMap give =
      (ms.flatMap give).filter (startsOn lines) := by
  induction ms with
  | nil => rfl
  | cons m rest ih =>
    rw [List.flatMap_cons, List.filter_append, h m List.mem_cons_self,
      ← ih fun m hm => h m (List.mem_cons_of_mem _ hm)]
    by_cases hline : m.span.start.line ∈ lines <;> simp [hline]

/-- The lines that are asked for only leave mutations out. -/
theorem items_lines (path : String) (text : List Char) (os : List Operator) (lines : List Nat) :
    items Template.matcher path text (some lines) os =
      (items Template.matcher path text none os).filter (startsOn lines) := by
  unfold items
  rw [List.filter_flatMap]
  refine List.flatMap_congr fun o _ => ?_
  rw [List.filter_flatMap]
  refine List.flatMap_congr fun ⟨t, index⟩ _ => ?_
  dsimp only [transformationItems]
  split
  · next ms hms =>
    simp only [Option.all_none, List.filter_true, Option.all_some]
    exact flatMap_filter_lines fun m hm => filter_matchItems hms hm path o.name index t lines
  · rfl

end Finder

namespace Installation

variable {σ : Type} {i : Installation σ} {s : Snapshot} {path : String} {filter : SearchFilter}
  {t t' : Session σ} {search : Finder.Search}

/-- A search starts once its operators are chosen and its file is read. -/
theorem search_eq_ok_iff : i.search s path filter t = .ok search t' ↔
    ∃ os text, Finder.operators i.catalogue path filter = .ok os ∧
      Session.readSource i.backend s path t = .ok text t' ∧
      search = .start i.matcher path text.toList filter.lines os := by
  unfold Installation.search
  simp only [Action.bind_eq_ok_iff, Action.ofExcept_eq_ok_iff, Action.pure_eq_ok_iff]
  constructor
  · rintro ⟨os, _, ⟨hos, rfl⟩, text, _, htext, rfl, rfl⟩
    exact ⟨os, text, hos, htext, rfl⟩
  · rintro ⟨os, text, hos, htext, rfl⟩
    exact ⟨os, t, ⟨hos, rfl⟩, text, t', htext, rfl, rfl⟩

namespace LazySample

/-- The second template cannot be read. -/
def change : Operator :=
  ⟨"change", .ofList ["c"], [⟨"x", "y", []⟩, ⟨":[", "", []⟩, ⟨"x", "z", []⟩]⟩

def installation : Installation MemoryStore :=
  { catalogue := ⟨[⟨"c", .ofList [".c"]⟩], [change]⟩
    matcher := Template.matcher
    backend := MemoryStore.backend }

def base : Snapshot := { name := "base", image := "image" }

def session : Session MemoryStore where
  store := { snapshots := [base], images := [⟨"image", [("f.c", "x\nx\n")]⟩] }

/-- The index and the line of a mutation; none for a fault. -/
def place (item : Except Fault Mutation) : Option (Nat × Nat) :=
  item.toOption.map fun m => (m.index, m.location.span.start.line)

end LazySample

end Installation

end Mutagenesis
