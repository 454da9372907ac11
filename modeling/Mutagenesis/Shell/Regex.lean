import Mutagenesis.Shell.Pattern

/-!
# Regular expressions

The two written forms of regular expressions, basic and extended, and where they match.
-/

namespace Mutagenesis.Shell

/-- A regular expression. -/
inductive Regex where
  | nothing
  | any
  | oneOf (negated : Bool) (ranges : List (Char × Char)) (classes : List String)
  | lineStart
  | lineEnd
  | wordStart
  | wordEnd
  | wordEdge
  | group (number : Nat) (body : Regex)
  | again (number : Nat)
  | both (first second : Regex)
  | either (first second : Regex)
  | repeated (body : Regex) (least : Nat) (most : Option Nat)
  deriving DecidableEq

namespace Regex

def char (c : Char) : Regex :=
  .oneOf false [(c, c)] []

/-- How an expression is written. -/
structure Form where
  extended : Bool
  lenient : Bool := false

/-- An operator of the written forms. -/
inductive Operator where
  | alternative
  | opening
  | closing
  | star
  | plus
  | question
  | brace
  deriving DecidableEq

def operatorOf? : Char → Option Operator
  | '|' => some .alternative
  | '(' => some .opening
  | ')' => some .closing
  | '+' => some .plus
  | '?' => some .question
  | '\x7b' => some .brace
  | _ => none

def operator? (form : Form) : Octets → Option (Operator × Octets)
  | '*' :: rest => some (.star, rest)
  | '\\' :: c :: rest => if form.extended then none else (operatorOf? c).map (·, rest)
  | c :: rest =>
    if form.extended then (operatorOf? c).map (·, rest) else none
  | [] => none

/-- The state of reading: the octets left, and the number of groups that were opened. -/
structure Source where
  rest : Octets
  groups : Nat := 0
  closed : List Nat := []
  depth : Nat := 0

/-- Reading, which fails with a complaint. -/
abbrev Read := EStateM String Source

def unmatchedBracket : String := "Unmatched [, [^, [:, [., or [="

def readMembers : (steps : Nat) → (first : Bool) → List (Char × Char) → List String → Octets →
    Except String (List (Char × Char) × List String × Octets)
  | 0, _, _, _, _ => .error unmatchedBracket
  | steps + 1, first, ranges, classes, cs =>
    let member (low : Char) (rest : Octets) :
        Except String (List (Char × Char) × List String × Octets) :=
      match rest with
      | '-' :: ']' :: _ => readMembers steps false ((low, low) :: ranges) classes rest
      | '-' :: high :: rest =>
        if high < low then .error "Invalid range end"
        else readMembers steps false ((low, high) :: ranges) classes rest
      | _ => readMembers steps false ((low, low) :: ranges) classes rest
    match cs with
    | [] => .error unmatchedBracket
    | ']' :: rest => if first then member ']' rest else .ok (ranges, classes, rest)
    | '[' :: ':' :: rest =>
      match Text.cutFirst? ":]" rest with
      | some (name, rest) =>
        let name := String.ofList name
        if name ∈ classNames then readMembers steps false ranges (name :: classes) rest
        else .error "Invalid character class name"
      | none => .error unmatchedBracket
    | c :: rest => member c rest

def readSet : Read Regex := do
  let source ← get
  let (negated, cs) := match source.rest with
    | '^' :: rest => (true, rest)
    | rest => (false, rest)
  match readMembers (cs.length + 1) true [] [] cs with
  | .ok (ranges, classes, rest) =>
    set { source with rest := rest }
    return .oneOf negated ranges classes
  | .error fault => throw fault

def bounds? (form : Form) (cs : Octets) : Option (Nat × Option Nat × Octets) :=
  let ending (cs : Octets) : Option Octets := match form.extended, cs with
    | true, '\x7d' :: rest => some rest
    | false, '\\' :: '\x7d' :: rest => some rest
    | _, _ => none
  let low := cs.takeWhile Char.isDigit
  let least := (Octets.nat? low).getD 0
  match cs.drop low.length with
  | ',' :: rest =>
    let high := rest.takeWhile Char.isDigit
    (ending (rest.drop high.length)).map fun rest => (least, Octets.nat? high, rest)
  | rest =>
    if low.isEmpty then none else (ending rest).map fun rest => (least, some least, rest)

def readRepeats (form : Form) : (steps : Nat) → Regex → Read Regex
  | 0, r => return r
  | steps + 1, r => do
    let source ← get
    let next (least : Nat) (most : Option Nat) (rest : Octets) : Read Regex := do
      set { source with rest := rest }
      readRepeats form steps (.repeated r least most)
    match operator? form source.rest with
    | some (.star, rest) => next 0 none rest
    | some (.plus, rest) => next 1 none rest
    | some (.question, rest) => next 0 (some 1) rest
    | some (.brace, rest) =>
      match bounds? form rest with
      | some (least, most, rest) =>
        if most.any (· < least) then throw "Invalid content of \\\x7b\\\x7d"
        else next least most rest
      | none =>
        if form.extended then return r else throw "Unmatched \\\x7b"
    | _ => return r

def readEscape (c : Char) : Read Regex := do
  let source ← get
  match c with
  | 'w' => return .oneOf false [('_', '_')] ["alnum"]
  | 'W' => return .oneOf true [('_', '_')] ["alnum"]
  | 's' => return .oneOf false [] ["space"]
  | 'S' => return .oneOf true [] ["space"]
  | '<' => return .wordStart
  | '>' => return .wordEnd
  | 'b' => return .wordEdge
  | 'n' => return .char '\n'
  | 't' => return .char '\t'
  | _ =>
    let n := c.toNat - '0'.toNat
    if c.isDigit ∧ 0 < n then
      if source.closed.contains n then return .again n else throw "Invalid back reference"
    else return .char c

def isBranchEnd (form : Form) (cs : Octets) : Bool :=
  match operator? form cs with
  | some (.alternative, _) | some (.closing, _) => true
  | _ => cs.isEmpty

mutual

def readBranches (form : Form) : (steps : Nat) → Read Regex
  | 0 => throw "Unmatched ( or \\("
  | steps + 1 => do
    let known := (← get).closed
    let first ← readBranch form true .nothing steps
    let source ← get
    match operator? form source.rest with
    | some (.alternative, rest) =>
      set { source with rest := rest, closed := known }
      let second ← readBranches form steps
      modify fun after => { after with closed := after.closed ++ source.closed }
      return .either first second
    | _ => return first

def readBranch (form : Form) (start : Bool) (before : Regex) : (steps : Nat) → Read Regex
  | 0 => throw "Unmatched ( or \\("
  | steps + 1 => do
    let source ← get
    let go (r : Regex) : Read Regex := do
      let r ← readRepeats form (source.rest.length + 1) r
      readBranch form false (if before = .nothing then r else .both before r) steps
    let plain (c : Char) (rest : Octets) : Read Regex := do
      set { source with rest := rest }
      go (.char c)
    let skip (rest : Octets) : Read Regex := do
      if !form.lenient then throw "Invalid preceding regular expression"
      set { source with rest := rest }
      readBranch form start before steps
    match operator? form source.rest, source.rest with
    | some (.alternative, _), _ => return before
    | some (.closing, rest), _ =>
      if source.depth = 0 ∧ form.extended ∧ form.lenient then plain ')' rest else return before
    | some (.opening, rest), _ =>
      let number := source.groups + 1
      set { source with rest := rest, groups := number, depth := source.depth + 1 }
      let body ← readBranches form steps
      let after ← get
      match operator? form after.rest with
      | some (.closing, rest) =>
        set { after with rest := rest, depth := source.depth, closed := number :: after.closed }
        go (.group number body)
      | _ => throw "Unmatched ( or \\("
    | some (.star, rest), _ =>
      if form.extended then skip rest else plain '*' rest
    | some (.plus, rest), _ | some (.question, rest), _ =>
      if form.extended then skip rest
      else plain ((source.rest.drop 1).headD '+') rest
    | some (.brace, rest), _ =>
      match bounds? form rest with
      | some (_, _, rest) =>
        if form.extended then skip rest else throw "Invalid preceding regular expression"
      | none =>
        if form.extended then plain '\x7b' rest else throw "Invalid preceding regular expression"
    | none, [] => return before
    | none, c :: rest =>
      set { source with rest := rest }
      match c with
      | '.' => go .any
      | '[' => go (← readSet)
      | '^' =>
        if form.extended then go Regex.lineStart
        else if start then readBranch form true Regex.lineStart steps
        else plain '^' rest
      | '$' => if form.extended ∨ isBranchEnd form rest then go Regex.lineEnd else plain '$' rest
      | '\\' =>
        match rest with
        | [] => throw "Trailing backslash"
        | d :: rest =>
          set { source with rest := rest }
          go (← readEscape d)
      | _ => go (.char c)

end

def parse (form : Form) (cs : Octets) : Except String Regex :=
  match readBranches form (2 * cs.length + 2) { rest := cs } with
  | .ok r source => if source.rest.isEmpty then .ok r else .error "Unmatched ) or \\)"
  | .error fault _ => .error fault

/-- A place in a subject that a match has come to, and what groups have matched. -/
structure Spot where
  previous : Option Char := none
  rest : Octets
  position : Nat := 0
  groups : List (Nat × Nat × Nat) := []

def Spot.same (a b : Spot) : Bool :=
  a.position = b.position && a.groups = b.groups

def newSpots (seen : List Spot) : List Spot → List Spot
  | [] => []
  | s :: rest =>
    if seen.any s.same then newSpots seen rest else s :: newSpots (s :: seen) rest

def isWordChar (c : Char) : Bool :=
  c.isAlphanum || c = '_'

def isMember (fold : Bool) (ranges : List (Char × Char)) (classes : List String) (c : Char) :
    Bool :=
  let plain (c : Char) : Bool :=
    ranges.any (fun (low, high) => low ≤ c && c ≤ high) || classes.any (isInClass · c)
  plain c || (fold && (plain c.toLower || plain c.toUpper))

def rounds (step : Spot → List Spot) : (limit : Nat) → (seen now : List Spot) → List Spot
  | 0, seen, _ => seen
  | limit + 1, seen, now =>
    let next := newSpots seen (now.flatMap fun s => (step s).filter (s.position < ·.position))
    if next.isEmpty then seen else rounds step limit (next ++ seen) next

def exactly (step : Spot → List Spot) : (count : Nat) → List Spot → List Spot
  | 0, now => now
  | count + 1, now => exactly step count (newSpots [] (now.flatMap step))

def ends (subject : Octets) (fold : Bool) : Regex → Spot → List Spot
  | .nothing, s => [s]
  | .any, s => advance s fun _ => true
  | .oneOf negated ranges classes, s =>
    advance s fun c => isMember fold ranges classes c != negated
  | .lineStart, s => if s.position = 0 then [s] else []
  | .lineEnd, s => if s.rest.isEmpty then [s] else []
  | .wordStart, s => if !before s && after s then [s] else []
  | .wordEnd, s => if before s && !after s then [s] else []
  | .wordEdge, s => if before s != after s then [s] else []
  | .group number body, s =>
    (ends subject fold body s).map fun e =>
      { e with groups := (number, s.position, e.position) :: e.groups.filter (·.1 ≠ number) }
  | .again number, s =>
    match s.groups.lookup number with
    | some (start, stop) =>
      let part := (subject.drop start).take (stop - start)
      if part.isPrefixOf s.rest then
        [{ s with
          previous := part.getLast?.or s.previous
          rest := s.rest.drop part.length
          position := s.position + part.length }]
      else []
    | none => []
  | .both first second, s =>
    newSpots [] ((ends subject fold first s).flatMap (ends subject fold second))
  | .either first second, s =>
    newSpots [] (ends subject fold first s ++ ends subject fold second s)
  | .repeated body least most, s =>
    let step := ends subject fold body
    let start := exactly step least [s]
    let limit := match most with
      | some n => n - least
      | none => s.rest.length + 1
    rounds step limit start start
where
  advance (s : Spot) (fits : Char → Bool) : List Spot :=
    match s.rest with
    | c :: rest =>
      if fits c then
        [{ s with previous := some c, rest := rest, position := s.position + 1 }]
      else []
    | [] => []
  before (s : Spot) : Bool :=
    s.previous.any isWordChar
  after (s : Spot) : Bool :=
    s.rest.head?.any isWordChar

/-- A part of a subject that matches. -/
structure Found where
  start : Nat
  stop : Nat
  groups : List (Nat × Nat × Nat) := []

def furthest : List Spot → Option Spot
  | [] => none
  | s :: rest =>
    match furthest rest with
    | some t => if s.position < t.position then some t else some s
    | none => some s

def find? (r : Regex) (fold : Bool) (subject : Octets) (accepts : Nat → Spot → Bool)
    (previous : Option Char) (position : Nat) : Octets → Option Found
  | [] => here [] previous position
  | c :: rest =>
    match here (c :: rest) previous position with
    | some found => some found
    | none => find? r fold subject accepts (some c) (position + 1) rest
where
  here (rest : Octets) (previous : Option Char) (position : Nat) : Option Found :=
    let spots := ends subject fold r { previous := previous, rest := rest, position := position }
    (furthest (spots.filter (accepts position))).map fun s => ⟨position, s.position, s.groups⟩

def findFrom? (r : Regex) (fold : Bool) (subject : Octets) (position : Nat) : Option Found :=
  find? r fold subject (fun _ _ => true) ((subject.take position).getLast?) position
    (subject.drop position)

end Regex

end Mutagenesis.Shell
