import Mutagenesis.Shell.Program.Editor.Script
import Mutagenesis.Shell.Program.Files
import Mutagenesis.Shell.Program.Lines

/-!
# The stream editor

`sed` runs a script for each line of its input.
-/

namespace Mutagenesis.Shell.Editor

open Work

/-- How far a range of lines has come: it goes on to a line, or until a line fits. -/
inductive Progress where
  | upTo (line : Nat)
  | untilFound
  deriving DecidableEq

/-- A line of the input. -/
structure Row where
  text : Octets
  ended : Bool := true
  file : Octets
  fileIndex : Nat := 0

/-- A space for lines. -/
structure Space where
  text : Octets := []
  ended : Bool := true

/-- What was written to a place. -/
structure Written where
  parts : List Octets := []
  unended : Bool := false

def Written.content (w : Written) : Octets :=
  w.parts.reverse.flatten

def Written.add (w : Written) (ending : Char) (cs : Octets) : Written :=
  { parts := cs :: if w.unended then [ending] :: w.parts else w.parts }

def Written.addLine (w : Written) (ending : Char) (line : Space) : Written :=
  let w := w.add ending (if line.ended then line.text ++ [ending] else line.text)
  { w with unended := !line.ended }

/-- The state of an editor. -/
structure State where
  space : Space := {}
  input : List Row
  file : Octets := ['-']
  fileIndex : Nat := 0
  line : Nat := 0
  output : Written := {}
  queue : List Octets := []
  ranges : List (Nat × Progress) := []
  lastExpression : Option Regex := none

/-- How an editor works. -/
structure Settings where
  program : List Step
  quiet : Bool
  ending : Char := '\n'

/-- Whether lines go on. -/
inductive Flow where
  | finished (deleted : Bool)
  | again
  | ended (status : Nat)
  | noExpression

def State.atLast (s : State) : Bool :=
  s.input.isEmpty

def State.write (s : State) (ending : Char) (cs : Octets) : State :=
  { s with output := s.output.add ending cs }

def State.writeLine (s : State) (ending : Char) (line : Space) : State :=
  { s with output := s.output.addLine ending line }

def State.flush (settings : Settings) (s : State) : State :=
  { s.queue.foldl (fun s cs => s.write settings.ending cs) s with queue := [] }

def State.meant? (s : State) (r : Option Regex) : Option (Regex × State) :=
  (r.or s.lastExpression).map fun r => (r, { s with lastExpression := some r })

def State.isAt (s : State) : Address → Option (Bool × State)
  | .line n => some (s.line = n, s)
  | .last => some (s.atLast, s)
  | .matching r fold =>
    (s.meant? r).map fun (r, s) => ((r.findFrom? fold s.space.text 0).isSome, s)
  | .every first step =>
    some (if step = 0 then s.line = first else first ≤ s.line && (s.line - first) % step = 0, s)
  | .count _ => some (false, s)

def State.startRange (s : State) (index : Nat) (second : Address) : State :=
  let start (p : Progress) : State := { s with ranges := (index, p) :: s.ranges }
  let upTo (n : Nat) : State := if n ≤ s.line then s else start (.upTo n)
  match second with
  | .line n => upTo n
  | .count n => upTo (s.line + n)
  | .every first step => upTo (first + (s.line - first + step - 1) / step * step)
  | _ => start .untilFound

def State.takes (s : State) (index : Nat) (step : Step) : Option (Bool × State) := do
  let (hit, s) ← match step.first, step.second with
    | none, _ => some (true, s)
    | some a, none => s.isAt a
    | some a, some b =>
      let without : State := { s with ranges := s.ranges.filter (·.1 ≠ index) }
      let progress := (s.ranges.lookup index).or
        (if a = .line 0 ∧ s.line = 1 then some .untilFound else none)
      let start (s : State) : Option (Bool × State) := do
        let (hit, s) ← s.isAt a
        return (hit, if hit then s.startRange index b else s)
      match progress with
      | some (.upTo n) =>
        if s.line < n then some (true, s)
        else if s.line = n then some (true, without)
        else start without
      | some .untilFound => do
        let (found, s) ← s.isAt b
        let others := s.ranges.filter (·.1 ≠ index)
        some (true, { s with
          ranges := if found then others else (index, .untilFound) :: others })
      | none => start s
  return (hit != step.negated, s)

/-- The text of a replacement; a letter changes the case of what follows. -/
def replacement (space : Octets) (f : Regex.Found) (parts : List Part) : Octets :=
  let inCase (letter : Char) (cs : Octets) : Octets :=
    if letter = 'U' then cs.map Char.toUpper else if letter = 'L' then cs.map Char.toLower else cs
  (parts.foldl (fun ((out, letter) : Octets × Char) part =>
    match part with
    | .text cs => (out ++ inCase letter cs, letter)
    | .group n =>
      let (start, stop) := if n = 0 then (f.start, f.stop) else (f.groups.lookup n).getD (0, 0)
      (out ++ inCase letter ((space.take stop).drop start), letter)
    | .case letter => (out, letter)) ([], 'E')).1

def substituteFrom (sub : Substitution) (r : Regex) (space : Octets) :
    (steps : Nat) → (position count : Nat) → (after : Option Nat) → Octets × Bool
  | 0, position, _, _ => (space.drop position, false)
  | steps + 1, position, count, after =>
    match r.findFrom? sub.fold space position with
    | none => (space.drop position, false)
    | some f =>
      let before := (space.take f.start).drop position
      let isEmpty := f.start = f.stop
      let next (shown : Octets) (hit : Bool) (count : Nat) : Octets × Bool :=
        if isEmpty then
          match space.drop f.stop with
          | [] => (before ++ shown, hit)
          | c :: _ =>
            let (rest, more) := substituteFrom sub r space steps (f.stop + 1) count none
            (before ++ shown ++ c :: rest, hit || more)
        else
          let (rest, more) := substituteFrom sub r space steps f.stop count (some f.stop)
          (before ++ shown ++ rest, hit || more)
      if isEmpty ∧ after = some f.start then next [] false count
      else if count < sub.number then next ((space.take f.stop).drop f.start) false (count + 1)
      else if sub.all then next (replacement space f sub.parts) true (count + 1)
      else (before ++ replacement space f sub.parts ++ space.drop f.stop, true)

def listed (ending : Char) (width : Nat) (cs : Octets) : Octets :=
  let shown (c : Char) : Octets := match c with
    | '\\' => "\\\\"
    | _ => if isShown c then [c] else shownEscape c
  let (out, _) := cs.foldl (fun ((out, column) : Octets × Nat) c =>
    let next := shown c
    if width ≠ 0 ∧ width - 1 < column + next.length then
      (out ++ '\\' :: ending :: next, next.length)
    else (out ++ next, column + next.length)) ([], 0)
  out ++ ['$']

def State.advance (s : State) : State :=
  match s.input with
  | row :: rest =>
    { s with
      space := { text := row.text, ended := row.ended }, input := rest
      file := row.file, fileIndex := row.fileIndex
      line := s.line + 1 }
  | [] => s

def Space.first (space : Space) (ending : Char) : Space :=
  let text := space.text.takeWhile (· != ending)
  { text := text, ended := space.ended || text.length < space.text.length }

def Space.append (a b : Space) (ending : Char) : Space :=
  { text := a.text ++ ending :: b.text, ended := b.ended }

def runSteps (settings : Settings) : (steps : Nat) → (index : Nat) → State → State × Flow
  | 0, _, s => (s, .finished false)
  | steps + 1, index, s =>
    let ending := settings.ending
    match settings.program[index]? with
    | none => (s, .finished false)
    | some step =>
      match s.takes index step with
      | none => (s, .noExpression)
      | some (taken, s) =>
      let go (s : State) : State × Flow := runSteps settings steps (index + 1) s
      if !taken then
        match step.action with
        | .opening stop => runSteps settings steps stop s
        | _ => go s
      else
        match step.action with
        | .opening _ | .closing | .nothing => go s
        | .substitute sub =>
          match s.meant? sub.expression with
          | none => (s, .noExpression)
          | some (r, s) =>
            let text := s.space.text
            let (text, hit) := substituteFrom sub r text (text.length + 2) 0 1 none
            if hit then
              let s := { s with space := { s.space with text := text } }
              go (if sub.shown then s.writeLine ending s.space else s)
            else go s
        | .translate source goal =>
          let change (c : Char) : Char := match source.idxOf? c with
            | some i => (goal[i]?).getD c
            | none => c
          go { s with space := { s.space with text := s.space.text.map change } }
        | .delete => (s, .finished true)
        | .deleteFirst =>
          match Text.cutFirst? [ending] s.space.text with
          | some (_, rest) => ({ s with space := { s.space with text := rest } }, .again)
          | none => (s, .finished true)
        | .print => go (s.writeLine ending s.space)
        | .printFirst => go (s.writeLine ending (s.space.first ending))
        | .next =>
          if s.atLast then (s, .finished false)
          else
            let s := if settings.quiet then s else s.writeLine ending s.space
            go (s.flush settings).advance
        | .appendNext =>
          if s.atLast then (s, .finished false)
          else
            let before := s.space
            let s := (s.flush settings).advance
            go { s with space := before.append s.space ending }
        | .quit status => (s, .ended status)
        | .number => go (s.write ending (Octets.ofNat s.line ++ [ending]))
        | .append text => go { s with queue := s.queue ++ [text] }
        | .insert text =>
          go (if text.isEmpty then s else s.write ending (text.dropLast ++ [ending]))
        | .replace text =>
          let inRange := step.second.isSome && (s.ranges.lookup index).isSome && !step.negated
          (if inRange ∨ text.isEmpty then s else s.write ending text, .finished true)
        | .list width =>
          let shown := listed ending (width.getD 70) s.space.text
          go (s.write ending (shown ++ [ending]))
        | .fileName => go (s.write ending (s.file ++ [ending]))

/-- How the run of a script has ended. -/
inductive Ending where
  | finished
  | quit (status : Nat)
  | noExpression

def runRounds (settings : Settings) :
    (rounds : Nat) → (fresh : Bool) → State → State × Ending
  | 0, _, s => (s, .finished)
  | rounds + 1, fresh, s =>
    if fresh ∧ s.atLast then (s, .finished)
    else
      let s := if fresh then s.advance else s
      let shown (s : State) : State :=
        if settings.quiet then s else s.writeLine settings.ending s.space
      match runSteps settings (settings.program.length + 1) 0 s with
      | (s, .finished deleted) =>
        let s := if deleted then s else shown s
        runRounds settings rounds true (s.flush settings)
      | (s, .again) => runRounds settings rounds false (s.flush settings)
      | (s, .ended status) =>
        let s := (shown s).flush settings
        (if s.output.unended then s.write settings.ending [] else s, .quit status)
      | (s, .noExpression) => (s, .noExpression)

def rowsOf (ending : Char) (fileIndex : Nat) (file content : Octets) : List Row :=
  let complete : Bool := content.getLast? = some ending
  let texts := Octets.linesBy ending content
  let count := texts.length
  texts.zipIdx.map fun (text, i) =>
    { text := text, file := file, fileIndex := fileIndex, ended := complete || i + 1 < count }

def splitInPlace (w : Octets) : List Octets :=
  match w with
  | '-' :: 'i' :: ending => [['-', '!'], ending]
  | _ => [w]

def optionTable : OptionTable :=
  { flags := ['n', 'E', 'r', 's', 'z'], valued := ['e', 'f', '!'] }

def scriptsOf (call : Call) (options : Options) (operands : List Octets) :
    Work (List Octets × List Octets) := do
  let given ← (options.filter fun (c, _) => c = ['e'] ∨ c = ['f']).mapM fun (c, w) => do
    if c = ['e'] then return w
    match ← inputAt w with
    | .ok content => return if content.getLast? = some '\n' then content.dropLast else content
    | .error fault => call.fail 1 ("couldn't open file " ++ w ++ ": " ++ reason fault)
  if !given.isEmpty then return (given, operands)
  match operands with
  | script :: rest => return ([script], rest)
  | [] => call.failUsage 1 "no script specified"

def readScripts (call : Call) (m : Manner) (scripts : List Octets) : Work (List Step) := do
  match parse m (['\n'].intercalate scripts) with
  | .ok program => return program
  | .error (fault, position) =>
    let (number, before) := scripts.dropLast.foldl (fun ((n, start) : Nat × Nat) w =>
      if start + w.length < position then (n + 1, start + w.length + 1) else (n, start)) (1, 0)
    call.fail 1 (s!"-e expression #{number}, char {position - before}: {fault}".toList)

/-- A file of the input: its path, and what it holds unless it cannot be read. -/
structure InputFile where
  path : Octets
  content : Except DiskFault Octets

def InputFile.complaint? (s : InputFile) : Option (Octets × Nat) :=
  match s.content with
  | .ok _ => none
  | .error .isFolder => some ("read error on " ++ s.path ++ ": " ++ reason .isFolder, 4)
  | .error fault => some ("can't read " ++ s.path ++ ": " ++ reason fault, 2)

def sed : Program := fun call => do
  let (options, operands) ← optionTable.read
    { call with args := call.args.flatMap splitInPlace } 1
  let (scripts, paths) ← scriptsOf call options operands
  let ending := if options.has 'z' then '\x00' else '\n'
  let manner : Manner :=
    { extended := options.has 'E' || options.has 'r', ending := ending }
  let program ← readScripts call manner scripts
  let settings : Settings :=
    { program := program, ending := ending
      quiet := options.has 'n' }
  let inPlace := options.value? '!'
  let sources ← (if inPlace.isSome then paths else orInput paths).mapM fun path => do
    let content ← if inPlace.isSome then contentAt path else inputAt path
    return ({ path := path, content := content } : InputFile)
  let isBad (s : InputFile) : Bool := s.content matches .error .isFolder
  let readable := if inPlace.isSome then sources else sources.takeWhile fun s => !isBad s
  let rows := readable.zipIdx.filterMap fun (source, i) =>
    match source.content with
    | .ok content => some (i, source.path, content, rowsOf ending i source.path content)
    | .error _ => none
  let groups := if options.has 's' ∨ inPlace.isSome then rows
    else [(0, [], [], rows.flatMap fun (_, _, _, rows) => rows)]
  let (s, ended) ← groups.foldlM (fun ((s, ended) : State × Option Nat) group => do
    if ended.isSome then return (s, ended)
    let (_, path, content, rows) := group
    let start : State :=
      { input := rows, lastExpression := s.lastExpression
        output := if inPlace.isSome then {} else s.output }
    let limit := 2 * (rows.map fun r => r.text.length).foldl (· + ·) 0 + 2 * rows.length + 10
    let (s, outcome) := runRounds settings limit true start
    if let some suffix := inPlace then
      if !suffix.isEmpty then discard (writeFile (path ++ suffix) content)
      discard (writeFile path s.output.content)
    match outcome with
    | .finished => return (s, none)
    | .quit status => return (s, some status)
    | .noExpression =>
      call.complain "-e expression #1, char 0: no previous regular expression"
      return (s, some 1)) (({ input := [] } : State), none)
  let reached := if ended.isSome then sources.take s.fileIndex else sources
  let complaints := reached.filterMap InputFile.complaint?
  complaints.forM fun (message, _) => call.complain message
  if inPlace.isNone then put s.output.content
  let status := (complaints.map Prod.snd).foldl max 0
  return match ended with
    | some code => if code = 0 then status else code
    | none => status

end Mutagenesis.Shell.Editor
