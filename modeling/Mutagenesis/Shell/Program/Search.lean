import Mutagenesis.Shell.Program.Lines
import Mutagenesis.Shell.Regex

/-!
# Searching lines

`grep` shows the lines of files that match one of some expressions.
-/

namespace Mutagenesis.Shell

open Work

/-- What lines are searched for. -/
structure Search where
  expressions : List Regex
  foldCase : Bool := false
  whole : Bool := false
  word : Bool := false
  inverted : Bool := false

def Search.find? (s : Search) (l : Octets) (position : Nat) : Option Regex.Found :=
  let accepts (start : Nat) (spot : Regex.Spot) : Bool :=
    let before := if start = 0 then none else l[start - 1]?
    (!s.whole || (start = 0 && spot.rest.isEmpty)) &&
    (!s.word || (!before.any Regex.isWordChar && !spot.rest.head?.any Regex.isWordChar))
  let found := s.expressions.filterMap fun r =>
    r.find? s.foldCase l accepts ((l.take position).getLast?) position (l.drop position)
  found.foldl (fun best f =>
    match best with
    | none => some f
    | some b =>
      if f.start < b.start ∨ (f.start = b.start ∧ b.stop < f.stop) then some f else best) none

def Search.selects (s : Search) (l : Octets) : Bool :=
  (s.find? l 0).isSome != s.inverted

def Search.parts (s : Search) (l : Octets) : (steps : Nat) → (position : Nat) → List Octets
  | 0, _ => []
  | steps + 1, position =>
    match s.find? l position with
    | none => []
    | some f =>
      if f.stop = f.start then
        if f.start < l.length then s.parts l steps (f.start + 1) else []
      else (l.take f.stop).drop f.start :: s.parts l steps f.stop

/-- How lines are shown. -/
structure SearchStyle where
  numbered : Bool
  onlyParts : Bool
  before : Option Nat := none
  after : Option Nat := none
  limit : Option Nat := none

/-- A line of a file: its number and whether it is selected. -/
structure SearchLine where
  number : Nat
  text : Octets
  selected : Bool

def searchLines (s : Search) (content : Octets) : List SearchLine :=
  (Octets.lines content).zipIdx.map fun (l, i) => ⟨i + 1, l, s.selects l⟩

def limited : Option Nat → List SearchLine → List SearchLine
  | none, ls => ls
  | some n, ls =>
    let (done, _) := ls.foldl (fun (done, left) l =>
      if !l.selected then (l :: done, left)
      else if left = 0 then ({ l with selected := false } :: done, left)
      else (l :: done, left - 1)) (([], n) : List SearchLine × Nat)
    done.reverse

def showLine (s : Search) (style : SearchStyle) (name : Option Octets) (l : SearchLine) : Octets :=
  let lead (mark : Char) : Octets :=
    (name.map (· ++ [mark])).getD [] ++
    (if style.numbered then Octets.ofNat l.number ++ [mark] else [])
  if style.onlyParts then
    let parts := if l.selected = s.inverted then [] else s.parts l.text (l.text.length + 1) 0
    parts.flatMap fun part => lead (if s.inverted then '-' else ':') ++ part ++ ['\n']
  else lead (if l.selected then ':' else '-') ++ l.text ++ ['\n']

/-- Which lines are shown. -/
structure Showing where
  shown : List Octets := []
  recent : List SearchLine := []
  pending : Nat := 0
  last : Nat := 0
  used : Bool

def showSelected (s : Search) (style : SearchStyle) (name : Option Octets) (used : Bool)
    (ls : List SearchLine) : Octets :=
  let around := style.before.isSome || style.after.isSome
  let add (state : Showing) (l : SearchLine) : Showing :=
    if l.selected then
      let group := l :: state.recent.take (style.before.getD 0)
      let first := ((group.getLast?).map SearchLine.number).getD l.number
      let gap := if around ∧ state.used ∧ (state.last = 0 ∨ state.last + 1 < first) then
          ["--\n".toList] else []
      { shown := group.map (showLine s style name) ++ gap ++ state.shown, recent := []
        pending := style.after.getD 0, last := l.number, used := true }
    else if 0 < state.pending then
      { state with shown := showLine s style name l :: state.shown
                   pending := state.pending - 1, last := l.number }
    else { state with recent := l :: state.recent.take (style.before.getD 0) }
  (ls.foldl add { used := used }).shown.reverse.flatten

/-- What is told of a file. -/
inductive SearchReport where
  | lines
  | count
  | names
  | otherNames
  | silence
  deriving DecidableEq

/-- What is done in a search. -/
structure SearchPlan where
  search : Search
  style : SearchStyle
  report : SearchReport
  quiet : Bool
  named : Option Bool

def searchUsage (name : Octets) : List Octets :=
  ["Usage: " ++ name ++ " [OPTION]... PATTERNS [FILE]...",
    "Try '" ++ name ++ " --help' for more information."]

def searchOptions : OptionTable :=
  { flags := "EFGivwxclLqsonHh".toList, valued := ['e', 'm', 'A', 'B', 'C']
    hint := searchUsage }

def failSearchUsage {α : Type} (call : Call) : Work α := do
  (searchUsage call.name).forM complain
  stop 2

def readExpressions (call : Call) (options : Options) (texts : List Octets) :
    Work (List Regex) :=
  texts.mapM fun text => do
    if options.has 'F' then return text.foldr (fun c r => .both (.char c) r) .nothing
    match Regex.parse { extended := options.has 'E', lenient := true } text with
    | .ok r => return r
    | .error fault => call.fail 2 fault.toList

def readSearchStyle (call : Call) (options : Options) : Work SearchStyle := do
  let number (letter : Char) : Work (Option Nat) := (options.value? letter).mapM fun w =>
    match Octets.nat? w with
    | some n => pure n
    | none => call.fail 2 (w ++ ": invalid context length argument")
  let around ← number 'C'
  let before ← number 'B'
  let after ← number 'A'
  let limit ← number 'm'
  return { numbered := options.has 'n', onlyParts := options.has 'o'
           before := before.or around, after := after.or around, limit := limit }

def readSearch (call : Call) (letters : List Char) : Work (SearchPlan × List Octets) := do
  let (options, operands) ← searchOptions.read call 2
  let options : Options := letters.map (fun c => ([c], [])) ++ options
  let lastOf (cs : List Char) : Option Char :=
    ((options.reverse.find? fun (name, _) => cs.any (name = [·])).map Prod.fst).bind List.head?
  let given := options.values 'e'
  let (texts, operands) ← if given.isEmpty then
      match operands with
      | text :: rest => pure (Text.pieces '\n' text, rest)
      | [] => failSearchUsage call
    else pure (given.flatMap (Text.pieces '\n'), operands)
  let style ← readSearchStyle call options
  let expressions ← readExpressions call options texts
  let s : Search :=
    { expressions := expressions, foldCase := options.has 'i'
      whole := options.has 'x', word := options.has 'w', inverted := options.has 'v' }
  let report : SearchReport := if options.has 'q' then .silence
    else match lastOf ['l', 'L'] with
      | some 'l' => .names
      | some _ => .otherNames
      | none => if options.has 'c' then .count else .lines
  return ({ search := s, style := style, report := report, quiet := options.has 's'
            named := (lastOf ['h', 'H']).map (· == 'H') }, operands)

/-- What a search has come to. -/
structure SearchTally where
  found : Bool := false
  failed : Bool := false
  used : Bool := false

def SearchPlan.searchContent (plan : SearchPlan) (tally : SearchTally)
    (path : Octets) (named : Bool)
    (content : Octets) : Work SearchTally := do
  let style := plan.style
  let name : Octets := if path = ['-'] then "(standard input)".toList else path
  let ls := limited style.limit (searchLines plan.search content)
  let count := (ls.filter SearchLine.selected).length
  let found := 0 < count
  let naming : Work Unit := putLine name
  match plan.report with
  | .silence => pure ()
  | .names => if found then naming
  | .otherNames => if !found then naming
  | .count => putLine ((if named then name ++ [':'] else []) ++ Octets.ofNat count)
  | .lines =>
    put (showSelected plan.search style (if named then some name else none) tally.used ls)
  return { tally with found := tally.found || found, used := tally.used || found }

def SearchPlan.searchFile (plan : SearchPlan) (call : Call) (named : Bool) (tally : SearchTally)
    (path : Octets) : Work SearchTally := do
  if plan.report = .silence ∧ tally.found then return tally
  let refuse (message : Octets) : Work SearchTally := do
    if !plan.quiet then call.complain (path ++ ": " ++ message)
    return { tally with failed := true }
  match ← inputAt path with
  | .error fault => refuse (reason fault)
  | .ok content => plan.searchContent tally path named content

def grepAs (letters : List Char) : Program := fun call => do
  let (plan, operands) ← readSearch call letters
  if plan.style.limit = some 0 then return 1
  let named := plan.named.getD (1 < operands.length)
  let tally ← (orInput operands).foldlM (plan.searchFile call named) {}
  return if tally.found ∧ (plan.report = .silence ∨ !tally.failed) then 0
    else if tally.failed then 2 else 1

def grep : Program :=
  grepAs []

end Mutagenesis.Shell
