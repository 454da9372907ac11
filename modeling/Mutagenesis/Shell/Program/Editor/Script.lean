import Mutagenesis.Shell.Arithmetic
import Mutagenesis.Shell.Regex

/-!
# Scripts of the stream editor

A script is a row of steps.
-/

namespace Mutagenesis.Shell.Editor

/-- A line, or lines, that an address stands for. -/
inductive Address where
  | line (n : Nat)
  | last
  | matching (r : Option Regex) (fold : Bool)
  | every (first step : Nat)
  | count (n : Nat)
  deriving DecidableEq

/-- A part of a replacement. -/
inductive Part where
  | text (cs : Octets)
  | group (number : Nat)
  | case (letter : Char)
  deriving DecidableEq

/-- How matches are replaced. -/
structure Substitution where
  expression : Option Regex
  parts : List Part
  fold : Bool := false
  all : Bool := false
  number : Nat := 1
  shown : Bool := false
  deriving DecidableEq

/-- What a step does. -/
inductive Action where
  | opening (stop : Nat)
  | closing
  | substitute (s : Substitution)
  | translate (source goal : Octets)
  | delete
  | deleteFirst
  | print
  | printFirst
  | next
  | appendNext
  | quit (status : Nat)
  | number
  | append (text : Octets)
  | insert (text : Octets)
  | replace (text : Octets)
  | list (width : Option Nat)
  | fileName
  | nothing
  deriving DecidableEq

/-- A step of a script. -/
structure Step where
  first : Option Address := none
  second : Option Address := none
  negated : Bool := false
  action : Action
  deriving DecidableEq

/-- How scripts are read. -/
structure Manner where
  extended : Bool := false
  ending : Char := '\n'

/-- The state of reading a script. -/
structure Source where
  rest : Octets
  steps : List Step := []
  blocks : List Nat := []

/-- What fails with the complaint about the script. -/
abbrev Read := EStateM String Source

def peek? : Read (Option Char) := do
  return (← get).rest.head?

def pass (n : Nat) : Read Unit :=
  modify fun s => { s with rest := s.rest.drop n }

def takeWhile (fits : Char → Bool) : Read Octets := do
  let cs := (← get).rest.takeWhile fits
  pass cs.length
  return cs

def isBlank (c : Char) : Bool :=
  c = ' ' || c = '\t'

def isSpace (c : Char) : Bool :=
  isInClass "space" c

def readNumber : Read Nat := do
  return (Octets.nat? (← takeWhile Char.isDigit)).getD 0

def readDelimited (delimiter : Char) :
    (steps : Nat) → Octets → Except Octets (Octets × Octets)
  | 0, cs => .error cs
  | _ + 1, [] => .error []
  | steps + 1, c :: rest => do
    if c = delimiter then return ([], rest)
    else if c = '\n' then .error (c :: rest)
    else if c = '\\' then
      match rest with
      | d :: rest =>
        let kept := if d = delimiter ∨ d = '\n' then [d] else ['\\', d]
        let (cs, rest) ← readDelimited delimiter steps rest
        return (kept ++ cs, rest)
      | [] => .error []
    else
      let (cs, rest) ← readDelimited delimiter steps rest
      return (c :: cs, rest)

def takeDelimited (delimiter : Char) (fault : String) : Read Octets := do
  let s ← get
  match readDelimited delimiter (s.rest.length + 1) s.rest with
  | .ok (cs, rest) =>
    set { s with rest := rest }
    return cs
  | .error rest =>
    set { s with rest := rest }
    throw fault

def coded? (cs : Octets) : Option (Char × Octets) :=
  let body := (cs.take 2).takeWhile fun c => (Arithmetic.digit? c).any (· < 16)
  if body.isEmpty then none
  else
    let value := body.foldl (fun n c => n * 16 + (Arithmetic.digit? c).getD 0) 0
    some (Char.ofNat value, cs.drop body.length)

def escape? : Octets → Option (Char × Octets)
  | 't' :: rest => some ('\t', rest)
  | 'x' :: rest => coded? rest
  | _ => none

def unescaped : (steps : Nat) → Octets → Octets
  | 0, cs => cs
  | _ + 1, [] => []
  | steps + 1, '\\' :: rest =>
    match escape? rest, rest with
    | some (c, rest), _ => c :: unescaped steps rest
    | none, d :: rest => '\\' :: d :: unescaped steps rest
    | none, [] => ['\\']
  | steps + 1, c :: rest => c :: unescaped steps rest

def readExpression (m : Manner) (fold : Bool) (cs : Octets) : Read (Option Regex) :=
  if cs.isEmpty then
    if fold then throw "cannot specify modifiers on empty regexp" else return none
  else
    match Regex.parse { extended := m.extended } (unescaped (cs.length + 1) cs) with
    | .ok r => return some r
    | .error fault => throw fault

def readAddress (m : Manner) : Read (Option Address) := do
  match ← peek? with
  | some '$' =>
    pass 1
    return some .last
  | some '/' =>
    pass 1
    let cs ← takeDelimited '/' "unterminated address regex"
    let fold := !(← takeWhile (· = 'I')).isEmpty
    return some (.matching (← readExpression m fold cs) fold)
  | some c =>
    if c.isDigit then
      let n ← readNumber
      discard (takeWhile isBlank)
      if (← peek?) = some '~' then
        pass 1
        let step ← readNumber
        return some (if step = 0 then .line n else .every n step)
      else return some (.line n)
    else return none
  | none => return none

def readSecondAddress (m : Manner) : Read (Option Address) := do
  discard (takeWhile isSpace)
  if (← peek?) = some '+' then
    pass 1
    return some (.count (← readNumber))
  else readAddress m

def readEnd : Read Unit := do
  discard (takeWhile isBlank)
  match ← peek? with
  | none | some '\x7d' | some '#' => return ()
  | some c =>
    pass 1
    if c = '\n' ∨ c = ';' ∨ c = '\r' then return () else throw "extra characters after command"

def replacementParts : (steps : Nat) → Octets → List Part
  | 0, _ => []
  | _ + 1, [] => []
  | steps + 1, c :: rest =>
    let add (d : Char) (rest : Octets) : List Part :=
      match replacementParts steps rest with
      | .text cs :: parts => .text (d :: cs) :: parts
      | parts => .text [d] :: parts
    if c = '&' then .group 0 :: replacementParts steps rest
    else if c = '\\' then
      match rest with
      | [] => add '\\' []
      | d :: rest =>
        if d.isDigit then .group (d.toNat - '0'.toNat) :: replacementParts steps rest
        else if d ∈ ['U', 'L', 'E'] then .case d :: replacementParts steps rest
        else if d = 'n' then add '\n' rest
        else
          match escape? (d :: rest) with
          | some (c, rest) => add c rest
          | none => add d rest
    else add c rest

def groupCount : Regex → Nat
  | .group n body => max n (groupCount body)
  | .both a b | .either a b => max (groupCount a) (groupCount b)
  | .repeated body _ _ => groupCount body
  | _ => 0

def readFlags : (steps : Nat) → Substitution → Read Substitution
  | 0, s => return s
  | steps + 1, s => do
    match ← peek? with
    | none => return s
    | some c =>
      if c.isDigit then
        let n ← readNumber
        if n = 0 then throw "number option to \x60s' command may not be zero"
        readFlags steps { s with number := n }
      else if c = '\x7d' ∨ c = '#' then return s
      else
        pass 1
        match c with
        | 'g' => readFlags steps { s with all := true }
        | 'p' => readFlags steps { s with shown := true }
        | 'i' | 'I' => readFlags steps { s with fold := true }
        | '\n' | ';' | '\r' => return s
        -- `e` would run the line as a command; here it is read and does nothing
        | ' ' | '\t' | 'e' => readFlags steps s
        | _ => throw "unknown option to \x60s'"

def readSubstitution (m : Manner) : Read Action := do
  let delimiter := (← peek?).getD '\n'
  pass 1
  let unended := "unterminated \x60s' command"
  if delimiter = '\n' ∨ delimiter = '\\' then throw unended
  let pattern ← takeDelimited delimiter unended
  let replacement ← takeDelimited delimiter unended
  let parts := replacementParts (replacement.length + 1) replacement
  let sub ← readFlags ((← get).rest.length + 1) { expression := none, parts := parts }
  let expression ← readExpression m sub.fold pattern
  let highest := (parts.map fun
    | .group n => n
    | _ => 0).foldl max 0
  if let some r := expression then
    if groupCount r < highest then throw s!"invalid reference \\{highest} on \x60s' command's RHS"
  return .substitute { sub with expression := expression }

def textLines : (steps : Nat) → Octets → Octets × Octets
  | 0, cs => ([], cs)
  | _ + 1, [] => ([], [])
  | steps + 1, c :: rest =>
    if c = '\n' then ([], rest)
    else if c = '\\' then
      match escape? rest, rest with
      | some (d, rest), _ | none, d :: rest =>
        let (cs, left) := textLines steps rest
        (d :: cs, left)
      | none, [] => ([], [])
    else
      let (cs, left) := textLines steps rest
      (c :: cs, left)

def readText : Read Octets := do
  discard (takeWhile isBlank)
  let s ← get
  let rest ← match s.rest with
    | [] => throw "expected \\ after \x60a', \x60c' or \x60i'"
    | '\\' :: after =>
      let blanks := after.takeWhile isBlank
      match after.drop blanks.length with
      | '\n' :: text => pure text
      | text => pure (if text.isEmpty then [] else after)
    | rest => pure rest
  if rest.isEmpty then
    set { s with rest := [] }
    return []
  let (text, left) := textLines (rest.length + 1) rest
  set { s with rest := left }
  return text ++ ['\n']

def plain (a : Action) : Read Action := do
  readEnd
  return a

def readAction (m : Manner) (hasFirst hasSecond : Bool) : Read Action := do
  match ← peek? with
  | none => throw "missing command"
  | some c =>
    pass 1
    match c with
    | '\x7b' =>
      modify fun s => { s with blocks := s.steps.length :: s.blocks }
      return .opening 0
    | '\x7d' =>
      let s ← get
      match s.blocks with
      | [] => throw "unexpected \x60\x7d'"
      | start :: blocks =>
        if hasFirst then throw "\x60\x7d' doesn't want any addresses"
        let here := s.steps.length
        let steps := s.steps.zipIdx.map fun (step, i) =>
          if here - 1 - i = start then { step with action := .opening here } else step
        set { s with blocks := blocks, steps := steps }
        plain .closing
    | 's' => readSubstitution m
    | 'y' =>
      let delimiter := (← peek?).getD '\n'
      pass 1
      let unended := "unterminated \x60y' command"
      let source ← takeDelimited delimiter unended
      let goal ← takeDelimited delimiter unended
      if source.length ≠ goal.length then throw "strings for \x60y' command are different lengths"
      plain (.translate source goal)
    | 'd' => plain .delete
    | 'D' => plain .deleteFirst
    | 'p' => plain .print
    | 'P' => plain .printFirst
    | 'n' => plain .next
    | 'N' => plain .appendNext
    | 'q' =>
      if hasSecond then throw "command only uses one address"
      discard (takeWhile isBlank)
      plain (.quit (← readNumber))
    | '=' => plain .number
    | 'a' => return .append (← readText)
    | 'i' => return .insert (← readText)
    | 'c' => return .replace (← readText)
    | 'l' =>
      discard (takeWhile isBlank)
      let digits ← takeWhile Char.isDigit
      plain (.list (Octets.nat? digits))
    | 'F' => plain .fileName
    | '#' =>
      if hasFirst then throw "comments don't accept any addresses"
      discard (takeWhile (· != '\n'))
      return .nothing
    | _ => throw s!"unknown command: \x60{String.ofList [c]}'"

def readSteps (m : Manner) : (steps : Nat) → Read Unit
  | 0 => return ()
  | steps + 1 => do
    discard (takeWhile fun c => isSpace c || c = ';')
    if (← peek?).isNone then return ()
    let first ← readAddress m
    discard (takeWhile isBlank)
    let second ← match first, ← peek? with
      | some _, some ',' => do
        pass 1
        match ← readSecondAddress m with
        | some a => pure (some a)
        | none =>
          pass 1
          throw "unexpected \x60,'"
      | _, _ => pure none
    discard (takeWhile isBlank)
    let isMatching : Bool := match second with
      | some (.matching _ _) => true
      | _ => false
    if first = some (.line 0) ∧ !isMatching then
      pass 1
      throw "invalid usage of line address 0"
    let negated := (← peek?) = some '!'
    if negated then
      pass 1
      discard (takeWhile isBlank)
    let action ← readAction m first.isSome second.isSome
    modify fun s =>
      { s with
        steps := { first := first, second := second, negated := negated, action := action } ::
          s.steps }
    readSteps m steps

/-- Reads a script. A complaint comes with the number of characters that were read up to it. -/
def parse (m : Manner) (cs : Octets) : Except (String × Nat) (List Step) :=
  match readSteps m (cs.length + 1) { rest := cs } with
  | .error fault s => .error (fault, cs.length - s.rest.length)
  | .ok _ s => if s.blocks.isEmpty then .ok s.steps.reverse else .error ("unmatched \x60\x7b'", 0)

end Mutagenesis.Shell.Editor
