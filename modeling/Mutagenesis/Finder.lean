import Mutagenesis.Catalogue
import Mutagenesis.Mutation

/-!
# Finding mutations

The mutations of a file are the matches of the transformations of the chosen operators that meet
their constraints. A search gives them one at a time: it matches the next template only when the
matches of the last one are used up. A fault of the matcher, or of a match, is given where it
arises, and the search goes on after it.
-/

set_option autoImplicit false

namespace Mutagenesis

/-- Finds the matches of a template in a text. -/
abbrev Matcher := (text : List Char) → (template : String) → Except Fault (List Match)

def Template.matcher : Matcher := fun text template =>
  formatted .template (findMatches text template.toList)

/-- What a search is narrowed down to. -/
structure SearchFilter where
  /-- The language; if not given, the name of the file decides. -/
  language : Option String := none
  /-- The operators; if not given, all of the language. -/
  operators : Option (List String) := none
  /-- The lines where mutations may start; if not given, all. -/
  lines : Option (List Nat) := none
  deriving DecidableEq, Repr

namespace Finder

def operators (c : Catalogue) (path : String) (filter : SearchFilter) :
    Except Fault (List Operator) := do
  let language ← match filter.language with
    | some name => c.languages.get name
    | none => c.languages.detect path
  match filter.operators with
  | some names => names.mapM c.operators.get
  | none => return c.operators.forLanguage language.name

/-- A search in a file, between two items. -/
structure Search where
  matcher : Matcher
  path : String
  text : List Char
  lines : Option (List Nat)
  /-- What is still to be matched: operators with indices of transformations. -/
  work : List (Operator × Nat)
  /-- What was matched last. -/
  current : Option (Operator × Nat) := none
  /-- The matches of it that were not yet looked at. -/
  pending : List Match := []

namespace Search

def start (matcher : Matcher) (path : String) (text : List Char) (lines : Option (List Nat))
    (os : List Operator) : Search where
  matcher := matcher
  path := path
  text := text
  lines := lines
  work := os.flatMap fun o => o.transformations.zipIdx.map fun (_, index) => (o, index)

/-- The mutation that a match gives; none if its line is not asked for or a constraint fails. -/
def mutationAt (s : Search) (o : Operator) (index : Nat) (m : Match) :
    Except Fault (Option Mutation) :=
  if s.lines.any (m.span.start.line ∉ ·) then .ok none
  else do
    let t ← o.transformation index
    let start ← formatted .position (SourceText.offset s.text m.span.start)
    let _ ← formatted .position (SourceText.offset s.text m.span.stop)
    if Constraint.allHold t.constraints m.bindings s.text start then
      return some ⟨o.name, index, ⟨s.path, m.span⟩, m.bindings⟩
    else return none

/-- The first item that matches give, and the matches after it. -/
def fromMatches (s : Search) (o : Operator) (index : Nat) :
    List Match → Option (Except Fault Mutation × List Match)
  | [] => none
  | m :: rest =>
    match s.mutationAt o index m with
    | .ok (some mutation) => some (.ok mutation, rest)
    | .ok none => s.fromMatches o index rest
    | .error fault => some (.error fault, rest)

/-- The matches of a transformation. -/
def matchesOf (s : Search) (o : Operator) (index : Nat) : Except Fault (List Match) := do
  let t ← o.transformation index
  s.matcher s.text t.matchTemplate

/-- The first item that transformations give, and the search after it. -/
def fromWork (s : Search) : List (Operator × Nat) → Option (Except Fault Mutation × Search)
  | [] => none
  | (o, index) :: work =>
    match s.matchesOf o index with
    | .error fault =>
      some (.error fault, { s with work := work, current := some (o, index), pending := [] })
    | .ok ms =>
      match s.fromMatches o index ms with
      | some (item, rest) =>
        some (item, { s with work := work, current := some (o, index), pending := rest })
      | none => s.fromWork work

/-- The next item, and the search after it; none at the end. -/
def next (s : Search) : Option (Except Fault Mutation × Search) :=
  match s.current.bind fun (o, index) => s.fromMatches o index s.pending with
  | some (item, rest) => some (item, { s with pending := rest })
  | none => s.fromWork s.work

/-- How many items transformations give at most: one for each match, and one for a fault. -/
def bound (s : Search) (work : List (Operator × Nat)) : Nat :=
  work.foldr (fun (o, index) n => ((s.matchesOf o index).toOption.getD []).length + 1 + n) 0

theorem length_fromMatches {s : Search} {o : Operator} {index : Nat} {ms rest : List Match}
    {item : Except Fault Mutation} (h : s.fromMatches o index ms = some (item, rest)) :
    rest.length < ms.length := by
  fun_induction fromMatches s o index ms with
  | case1 => cases h
  | case2 => cases h; exact Nat.lt_succ_self _
  | case3 m ms _ ih => exact Nat.lt_succ_of_lt (ih h)
  | case4 => cases h; exact Nat.lt_succ_self _

theorem bound_fromWork {s s' : Search} {work : List (Operator × Nat)}
    {item : Except Fault Mutation} (h : s.fromWork work = some (item, s')) :
    s'.pending.length + s'.bound s'.work < s.bound work := by
  fun_induction fromWork s work with
  | case1 => cases h
  | case2 o index work fault hms =>
    cases h
    simp only [bound, List.foldr_cons, hms]
    exact Nat.add_lt_add_right (Nat.succ_pos _) _
  | case3 o index work ms hms item rest hitem =>
    cases h
    have hlength := length_fromMatches hitem
    simp only [bound, List.foldr_cons, hms]
    exact Nat.add_lt_add_right (Nat.lt_succ_of_lt hlength) _
  | case4 o index work _ _ _ ih => exact Nat.lt_of_lt_of_le (ih h) (Nat.le_add_left _ _)

theorem bound_next {s s' : Search} {item : Except Fault Mutation} (h : s.next = some (item, s')) :
    s'.pending.length + s'.bound s'.work < s.pending.length + s.bound s.work := by
  unfold next at h
  split at h
  · next heq =>
    cases h
    obtain ⟨⟨o, index⟩, -, heq⟩ := Option.bind_eq_some_iff.mp heq
    exact Nat.add_lt_add_right (length_fromMatches heq) _
  · exact Nat.lt_of_lt_of_le (bound_fromWork h) (Nat.le_add_left _ _)

/-- All items of a search, one after the other. -/
def items (s : Search) : List (Except Fault Mutation) :=
  match _h : s.next with
  | none => []
  | some (item, s') => item :: s'.items
termination_by s.pending.length + s.bound s.work
decreasing_by exact bound_next _h

end Search

end Finder

end Mutagenesis
