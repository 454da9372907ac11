import Mutagenesis.Shell.Program

/-!
# Making files by rules

`make` reads a file of rules and brings files up to date by it: a file is made again if it is
missing, or if something that it is made from is newer.
-/

namespace Mutagenesis.Shell.Make

/-- What a file is made from, and the numbered lines of commands that make it. -/
structure Rule where
  prerequisites : List Octets := []
  recipe : List (Nat × Octets) := []

/-- The rules and variables, and how far files are up to date. -/
structure Book where
  call : Call
  silent : Bool
  values : List (Octets × Octets)
  fixed : List Octets := []
  file : Octets := []
  place : Octets := call.name
  current : List Octets := []
  rules : List (Octets × Rule) := []
  outcomes : List (Octets × Bool) := []
  newest : List Octets := []
  started : Nat := 0

abbrev Step := StateT Book Work

def fatal {α : Type} (message : Octets) : Step α := do
  liftM (Work.fail 2 ((← get).place ++ ": *** " ++ message ++ ".  Stop.") : Work α)

def isSpace (c : Char) : Bool :=
  c = ' ' || c = '\t'

def wordsOf (cs : Octets) : List Octets :=
  (cs.splitBy fun a b => isSpace a == isSpace b).filter fun w => !w.any isSpace

def expandFrom (values : List (Octets × Octets)) : (steps : Nat) → Octets → Except String Octets
  | 0, _ => .error "Recursive variable references itself (eventually)"
  | _ + 1, [] => .ok []
  | steps + 1, '$' :: '$' :: rest => return '$' :: (← expandFrom values steps rest)
  | steps + 1, '$' :: c :: rest => do
    let isLong := c = '(' || c = '\x7b'
    let close := if c = '(' then ')' else '\x7d'
    if isLong && !rest.contains close then throw "unterminated variable reference"
    let name := if isLong then rest.takeWhile (· ≠ close) else [c]
    if name.any fun d => isSpace d || d = ':' then throw "functions are not known"
    let after := if isLong then rest.drop (name.length + 1) else rest
    return (← expandFrom values steps ((values.lookup name).getD [])) ++
      (← expandFrom values steps after)
  | steps + 1, c :: rest => return c :: (← expandFrom values steps rest)

def expand (cs : Octets) : Step Octets := do
  match expandFrom (← get).values 5000 cs with
  | .ok text => return text
  | .error message => fatal message

/-- The name, the letter before `=` and the value of an assignment. -/
def assignment? (line : Octets) : Option (Octets × Char × Octets) := do
  let (before, value) ← Text.cutFirst? ['='] line
  let kind := (before.getLast?.filter (· ∈ [':', '?', '+'])).getD '='
  match wordsOf (if kind = '=' then before else before.dropLast) with
  | [name] => if name.contains ':' then none else some (name, kind, value.dropWhile isSpace)
  | _ => none

def assign (name : Octets) (kind : Char) (value : Octets) : Step Unit := do
  let b ← get
  let old := b.values.lookup name
  if b.fixed.contains name || (kind = '?' && old.isSome) then return ()
  let value ← match kind, old with
    | ':', _ => pure ((← expand value).flatMap fun c => if c = '$' then ['$', '$'] else [c])
    | '+', some old => pure (old ++ ' ' :: value)
    | _, _ => pure value
  set { b with values := (name, value) :: b.values.filter (·.1 ≠ name) }

def changeRule (name : Octets) (change : Rule → Rule) : Step Unit :=
  modify fun b =>
    if (b.rules.lookup name).isSome then
      { b with rules := b.rules.map fun (n, r) => if n = name then (n, change r) else (n, r) }
    else { b with rules := b.rules ++ [(name, change {})] }

def readRule (line : Octets) : Step Unit := do
  let text ← expand line
  match Text.cutFirst? [':'] text with
  | none =>
    if line.head? = some '\t' then fatal "recipe commences before first target"
    else if (List.replicate 8 ' ').isPrefixOf line then
      fatal "missing separator (did you mean TAB instead of 8 spaces?)"
    else fatal "missing separator"
  | some (targets, prerequisites) =>
    if text.any (· ∈ ['%', ';', '|']) then fatal "rules of this kind are not known"
    modify fun b => { b with current := wordsOf targets }
    (wordsOf targets).forM fun name =>
      changeRule name fun r =>
        { r with prerequisites := r.prerequisites ++ wordsOf prerequisites }

def readLine (number : Nat) (line : Octets) : Step Unit := do
  modify fun b => { b with place := b.file ++ ':' :: Octets.ofNat number }
  let current := (← get).current
  if line.head? = some '\t' ∧ !current.isEmpty then
    current.forM fun name =>
      changeRule name fun r => { r with recipe := r.recipe ++ [(number, line.drop 1)] }
  else
    let line := line.takeWhile (· ≠ '#')
    if line.all isSpace then return ()
    modify fun b => { b with current := [] }
    match assignment? line with
    | some (name, kind, value) => assign name kind value
    | none => readRule line

/-- The marks at the start of a command (not shown, errors passed over), and the rest. -/
def readMarks (marks : Octets) : Octets → Octets × Octets
  | c :: rest =>
    if c ∈ ['@', '-', '+', ' ', '\t'] then readMarks (c :: marks) rest else (marks, c :: rest)
  | [] => (marks, [])

def isPhony (name : Octets) : Step Bool := do
  return ((← get).rules.lookup ".PHONY".toList).any (·.prerequisites.contains name)

/-- When a file was changed last, and `none` if it is missing. -/
def ageOf (name : Octets) : Step (Option Int) := do
  if (← get).newest.contains name then return some (1 <<< 62 : Nat)
  if ← isPhony name then return none
  let t ← (liftM (get : Work Task) : Step Task)
  match t.disk.resolve true (Octets.toText name) with
  | .ok place =>
    return (t.disk.top.at? place).map fun _ =>
      (t.attributes.find place).changed.getD firstMoment
  | .error _ => return none

def runCommand (name : Octets) (number : Nat) (text : Octets) : Step Bool := do
  let (marks, command) := readMarks [] text
  if command.isEmpty then return true
  let b ← get
  if !(marks.contains '@' || b.silent) then liftM (Work.putLine command)
  set { b with started := b.started + 1 }
  let request : Request :=
    { words := ["/bin/sh", "-c", command], environment := b.call.environment }
  let status := match (← (liftM (Work.ask request) : Step Answer)).ending with
    | .ok status => status
    | .error signal => 128 + signal
  if status = 0 then return true
  let about := '[' :: b.file ++ ':' :: Octets.ofNat number ++ ": " ++ name ++ "] Error " ++
    Octets.ofNat status
  let ignored := marks.contains '-'
  liftM (b.call.complain (if ignored then about ++ " (ignored)" else "*** " ++ about))
  return ignored

def remake (name : Octets) (rule : Rule) (newer : List Octets) : Step Bool := do
  let b ← get
  let automatic : List (Char × List Octets) :=
    [('@', [name]), ('<', rule.prerequisites.take 1), ('^', rule.prerequisites.eraseDups),
     ('?', newer.eraseDups)]
  let own := automatic.map fun (c, ws) => ([c], [' '].intercalate ws)
  set { b with values := own ++ b.values }
  let commands ← rule.recipe.mapM fun (number, text) => do return (number, ← expand text)
  set b
  commands.foldlM (fun going (number, text) => do
    if going then runCommand name number text else return false) true

def update : (steps : Nat) → (parents : List Octets) → (name : Octets) → Step Bool
  | 0, _, _ => fatal "rules are nested too deep"
  | steps + 1, parents, name => do
    let b ← get
    if let some outcome := b.outcomes.lookup name then return outcome
    let rule := (b.rules.lookup name).getD {}
    let own ← ageOf name
    let (kept, newer, ok) ← rule.prerequisites.foldlM
      (fun ((kept, newer, ok) : List Octets × List Octets × Bool) dep => do
      if !ok then return (kept, newer, ok)
      if (name :: parents).contains dep then
        liftM (b.call.complain ("Circular " ++ name ++ " <- " ++ dep ++ " dependency dropped."))
        return (kept, newer, ok)
      let ok ← update steps (name :: parents) dep
      let isNewer : Bool := match ← ageOf dep, own with
        | some dep, some own => own < dep
        | _, _ => true
      return (kept ++ [dep], if isNewer then newer ++ [dep] else newer, ok)) ([], [], true)
    let ok ← if !ok || (own.isSome && newer.isEmpty) then pure ok
      else if !rule.recipe.isEmpty then
        remake name { rule with prerequisites := kept } newer
      else if (b.rules.lookup name).isSome then
        if !(← isPhony name) then modify fun b => { b with newest := name :: b.newest }
        pure true
      else if ← isPhony name then pure true
      else
        let needed := match parents with
          | p :: _ => ", needed by '" ++ p ++ ['\'']
          | [] => []
        fatal ("No rule to make target '" ++ name ++ ['\''] ++ needed)
    modify fun b => { b with outcomes := (name, ok) :: b.outcomes }
    return ok

def updateGoal (goal : Octets) : Step Bool := do
  let b ← get
  let ok ← update 1000 [] goal
  let now ← get
  if ok ∧ now.started = b.started ∧ !now.silent then
    let hasRecipe := (now.rules.lookup goal).any fun r => !r.recipe.isEmpty
    let text := if hasRecipe && !(← isPhony goal) then '\'' :: goal ++ "' is up to date."
      else "Nothing to be done for '" ++ goal ++ "'."
    liftM (Work.putLine (b.call.name ++ ": " ++ text))
  return ok

def make : Program := fun call => do
  let (options, operands) ← OptionTable.read { flags := ['s'], valued := ['f'] } call 2
  let given := operands.filterMap assignment?
  let names := match options.values 'f' with
    | [] => [["GNUmakefile".toList, "makefile", "Makefile"]]
    | paths => paths.map fun path => [path]
  let act : Step Nat := do
    given.forM fun (name, kind, value) => assign name kind value
    modify fun b => { b with fixed := given.map (·.1) }
    names.forM fun choices => do
      let found ← choices.findSomeM? fun (path : Octets) => do
        match ← (liftM (inputAt path) : Step (Except DiskFault Octets)) with
        | .ok content => return some (path, content)
        | .error _ => return none
      match found, choices with
      | some (path, content), _ =>
        modify fun b => { b with file := path }
        (Octets.lines content).zipIdx.forM fun (line, i) => readLine (i + 1) line
      | none, [path] =>
        liftM (call.complain (path ++ ": " ++ reason .noEntry))
        fatal ("No rule to make target '" ++ path ++ ['\''])
      | none, _ => return ()
    modify fun b => { b with place := call.name }
    let b ← (get : Step Book)
    let first := b.rules.find? fun (name, _) => name.head? ≠ some '.'
    let goals := match operands.filter fun w => (assignment? w).isNone with
      | [] => (first.map Prod.fst).toList
      | goals => goals
    if goals.isEmpty then
      fatal (if b.file.isEmpty then "No targets specified and no makefile found" else "No targets")
    let ok ← goals.foldlM (fun (ok : Bool) goal => do
      if ok then updateGoal goal else return false) true
    return if ok then 0 else 2
  let usual : List (Octets × Octets) :=
    [("CC", "cc"), ("CXX", "g++"), ("RM", "rm -f"), ("MAKE", call.name)]
  let (status, _) ← act.run { call, silent := options.has 's', values := call.environment ++ usual }
  return status

end Mutagenesis.Shell.Make
