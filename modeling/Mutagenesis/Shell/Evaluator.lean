import Mutagenesis.Shell.Assignment
import Mutagenesis.Shell.Caller
import Mutagenesis.Shell.Script.Reader

/-!
# Running commands

Runs the commands of scripts, and the programs that they call.
-/

namespace Mutagenesis.Shell

open Act

def functionDepth : Nat := 1000

def leaveOnFailure (tested : Bool) : Act Unit := do
  if !tested && (← shell).status ≠ 0 && (← hasOption 'e') then throw .exited

def failRedirection (message : Octets) : Act Unit := do
  warn message
  setStatus 2

def shellOptions : (steps : Nat) → List Octets → Act (Bool × Bool × List Octets)
  | 0, words => return (false, false, words)
  | steps + 1, words => do
    match words with
    | ['-', '-'] :: rest => return (false, false, rest)
    | ['-'] :: rest => return (false, false, rest)
    | (sign :: c :: letters) :: rest =>
      if sign = '-' ∨ sign = '+' then
        let letters := c :: letters
        let own := letters.filter (· ∉ ['c', 's'])
        let rest ← applyLetters (sign = '-') own rest
        let (command, input, words) ← shellOptions steps rest
        return (letters.contains 'c' || command, letters.contains 's' || input, words)
      else return (false, false, words)
    | _ => return (false, false, words)

def scriptAt (path : Octets) : Act Octets := do
  match (← get).disk.entry true (Octets.toText path) with
  | .ok (.file content) => return Octets.ofContent content
  | .ok _ => return []
  | .error fault =>
    die ("cannot open " ++ path ++ ": " ++ openReason false fault)

def describeAll (programs : Programs) (brief : Bool) (words : List Octets) : Act Nat := do
  let statuses ← words.mapM (describeWord programs brief)
  return statuses.foldl max 0

def namingCommand (name : Octets) (act : Act Nat) : Act Unit := do
  let outer := (← shell).command
  change fun s => { s with command := some name }
  setStatus (← finishing (change fun s => { s with command := outer }) act)

def looping (act : Act Unit) : Act Unit := do
  change fun s => { s with loops := s.loops + 1 }
  finishing (change fun s => { s with loops := s.loops - 1 }) act

mutual

def run (programs : Programs) (tested : Bool) : (steps : Nat) → Command → Act Unit
  | 0, _ => throw .stopped
  | steps + 1, c => do
    let substitute : Substitute := outputOf programs steps
    let leave : Act Unit := leaveOnFailure tested
    count
    match c with
    | .nothing => return ()
    | .simple line assignments words redirections =>
      runSimple programs tested line assignments words redirections steps
      leave
    | .pipeline stages =>
      let start := (← get).clock
      runStages programs tested start none steps stages
      leave
    | .background line body =>
      let process ← freshProcess
      let m ← get
      let nothing ← openStream { channel := .nowhere }
      let streams := (0, nothing) :: m.shell.streams.filter (·.1 ≠ 0)
      let job : Job :=
        { process := process, body := body, start := m.clock, folder := m.disk.workingFolder
          shell := { m.shell with streams := streams, own := process, line := line } }
      modify fun m => { m with jobs := m.jobs ++ [job] }
      change fun s => { s with lastJob := some process, status := 0 }
    | .redirected line body redirections =>
      keepingStreams do
        change fun s => { s with line := line }
        match ← redirectAll substitute redirections with
        | some message =>
          failRedirection message
          leave
        | none => run programs tested steps body
    | .subshell line body redirections =>
      let status ← runApart (fun cs => runText programs steps cs) do
        change fun s => { s with line := line }
        match ← redirectAll substitute redirections with
        | some message => die message
        | none => run programs tested steps body
      setStatus status
      leave
    | .sequence first second =>
      run programs tested steps first
      run programs tested steps second
    | .both first second =>
      run programs true steps first
      if (← shell).status = 0 then run programs tested steps second
    | .either first second =>
      run programs true steps first
      if (← shell).status ≠ 0 then run programs tested steps second
    | .negate body =>
      run programs true steps body
      change fun s => { s with status := if s.status = 0 then 1 else 0 }
    | .choose condition yes no =>
      run programs true steps condition
      if (← shell).status = 0 then run programs tested steps yes
      else
        match no with
        | some no => run programs tested steps no
        | none => setStatus 0
    | .repeatWhile wanted condition body =>
      looping (runWhile programs tested wanted condition body 0 steps)
    | .forEach line name words body =>
      change fun s => { s with line := line }
      let items ← expandWords substitute [] words
      setStatus 0
      looping (runFor programs tested name body steps items)
    | .select line w branches =>
      change fun s => { s with line := line }
      let cs ← expandText substitute .atStart w
      let chosen ← branches.findM? fun (patterns, _) => patterns.anyM fun pattern => do
        return (← expandPattern substitute pattern).isMatch cs
      match chosen with
      | some (_, some body) => run programs tested steps body
      | _ => setStatus 0
    | .define name body =>
      change fun s =>
        { s with functions := (name, body) :: s.functions.filter (·.1 ≠ name), status := 0 }
  termination_by structural steps => steps

def outputOf (programs : Programs) : (steps : Nat) → Command → Act Octets
  | 0, _ => throw .stopped
  | steps + 1, c => do
    let (status, cs) ← captured
      (runApart (fun cs => runText programs steps cs) (run programs false steps c))
    change fun s => { s with outputStatus := status }
    return cs
  termination_by structural steps => steps

def runStages (programs : Programs) (tested : Bool) (start : Nat)
    (input : Option Nat) : (steps : Nat) → List Command → Act Unit
  | 0, _ => throw .stopped
  | _ + 1, [] => return ()
  | steps + 1, c :: rest => do
    let output ← if rest.isEmpty then pure none
      else do pure (some (← openStream { channel := .pipe }))
    let m ← get
    let before := m.clock
    let spared := if rest.isEmpty then 0 else m.budget / 4
    modify fun m => { m with clock := start, budget := m.budget - spared }
    let outcome ← attempt (runApart (fun cs => runText programs steps cs) do
      if let some n := input then attach 0 n
      if let some n := output then attach 1 n
      run programs tested steps c)
    -- A command that writes without an end is stopped once nobody reads what it writes.
    let m ← get
    let writes : Bool := output.any fun n =>
      (m.streams.lookup n).any fun stream => stream.waiting.any (!·.isEmpty)
    let outcome := if outcome.toOption.isNone ∧ m.budget = 0 ∧ m.clock ≤ m.limit ∧ writes then
        .ok 141
      else outcome
    modify fun m => { m with clock := max m.clock before, budget := m.budget + spared }
    if let .ok status := outcome then setStatus status
    if !rest.isEmpty then runStages programs tested start output steps rest
    match outcome with
    | .ok _ => return ()
    | .error flow => throw flow
  termination_by structural steps => steps

def runWhile (programs : Programs) (tested wanted : Bool) (condition body : Command)
    (status : Nat) : (steps : Nat) → Act Unit
  | 0 => throw .stopped
  | steps + 1 => do
    let again (status : Nat) : Act Unit :=
      runWhile programs tested wanted condition body status steps
    let round : Act Bool := do
      run programs true steps condition
      if ((← shell).status = 0) = wanted then
        run programs tested steps body
        return true
      else return false
    match ← attempt round with
    | .ok true => again (← shell).status
    | .ok false => setStatus status
    | .error (.leave (n + 2)) => throw (.leave (n + 1))
    | .error (.leave _) => return ()
    | .error (.resume (n + 2)) => throw (.resume (n + 1))
    | .error (.resume _) => again (← shell).status
    | .error flow => throw flow
  termination_by structural steps => steps

def runFor (programs : Programs) (tested : Bool) (name : Octets) (body : Command) :
    (steps : Nat) → List Octets → Act Unit
  | 0, _ => throw .stopped
  | _ + 1, [] => return ()
  | steps + 1, item :: rest => do
    assign name item
    match ← attempt (run programs tested steps body) with
    | .ok _ => runFor programs tested name body steps rest
    | .error (.leave (n + 2)) => throw (.leave (n + 1))
    | .error (.leave _) => return ()
    | .error (.resume (n + 2)) => throw (.resume (n + 1))
    | .error (.resume _) => runFor programs tested name body steps rest
    | .error flow => throw flow
  termination_by structural steps => steps

def runSimple (programs : Programs) (tested : Bool) (line : Nat) 
    (assignments : List (Octets × Word))
    (words : List Word) (redirections : List Redirection) : (steps : Nat) → Act Unit
  | 0 => throw .stopped
  | steps + 1 => do
    let substitute : Substitute := outputOf programs steps
    change fun s => { s with line := line, outputStatus := 0 }
    let fields ← expandWords substitute [] words
    let persists := fields.head? = some "exec" && fields.length = 1
    let meaning? ← match fields.head? with
      | some name => do pure (some (← meaning name))
      | none => pure none
    let special : Bool := match meaning? with
      | some .special => true
      | _ => false
    let streams := (← shell).streams
    let act : Act Unit := do
      match ← redirectAll substitute redirections with
      | some message =>
        failRedirection message
        if special then throw .exited
      | none =>
        match fields, meaning? with
        | name :: args, some meaning =>
          let command : Act Unit := runMeaning programs tested name args meaning steps
          if special then
            let assigned ← assignments.mapM (assignWord substitute)
            trace assigned fields
            command
          else
            restoring do
              let assigned ← assignments.mapM (assignForCommand substitute)
              trace assigned fields
              command
        | _, _ =>
          let assigned ← assignments.mapM (assignWord substitute)
          if !assigned.isEmpty then trace assigned []
          change fun s => { s with status := s.outputStatus }
    finishing (if persists then pure () else change fun s => { s with streams := streams }) act
  termination_by structural steps => steps

def runMeaning (programs : Programs) (tested : Bool) (name : Octets) (args : List Octets)
    (meaning : Meaning) : (steps : Nat) → Act Unit
  | 0 => throw .stopped
  | steps + 1 => do
    match meaning with
    | .special | .regular => runBuiltin programs tested name args steps
    | .function body => callFunction programs tested body args steps
    | .outside =>
      discard (findOwnProgram programs name)
      match ← runProgram programs (← searchFolders) (← environment) name args steps with
      | .ended status => setStatus status
      | .signalled signal => setStatus (← reap (.error signal))
      | .denied =>
        warn (name ++ ": Permission denied")
        setStatus (if name.isEmpty then 127 else 126)
      | .missing =>
        let isNamed := (← shell).dialect = .extended ∧ !name.contains '/'
        warn (name ++ (if isNamed then ": command not found" else ": not found").toList)
        setStatus 127
  termination_by structural steps => steps

def callFunction (programs : Programs) (tested : Bool) (body : Command) (args : List Octets) :
    (steps : Nat) → Act Unit
  | 0 => throw .stopped
  | steps + 1 => do
    let outer ← shell
    if functionDepth ≤ outer.depth then
      die s!"Maximum function recursion depth ({functionDepth}) reached".toList
    change fun s =>
      { s with
        arguments := args, depth := s.depth + 1, loops := 0, optionPlace := 0 }
    let outcome ← attempt (restoring (run programs tested steps body))
    change fun s =>
      { s with
        arguments := outer.arguments, depth := outer.depth, loops := outer.loops
        optionPlace := outer.optionPlace, line := outer.line }
    match outcome with
    | .ok _ | .error .returned => return ()
    | .error flow => throw flow
  termination_by structural steps => steps

def runBuiltin (programs : Programs) (tested : Bool) (name : Octets) (args : List Octets) :
    (steps : Nat) → Act Unit
  | 0 => throw .stopped
  | steps + 1 => do
    namingCommand name (match builtin? (String.ofList name) with
      | some builtin => builtin args
      | none => runRunning programs tested (String.ofList name) args steps)
  termination_by structural steps => steps

def runRunning (programs : Programs) (tested : Bool) (name : String) (args : List Octets) :
    (steps : Nat) → Act Nat
  | 0 => throw .stopped
  | steps + 1 => do
    match name with
    | "eval" =>
      let text := [' '].intercalate args
      let ranSome ← runLines programs tested steps { rest := text }
      let status := (← shell).status
      return if ranSome then status else 0
    | "." =>
      match args with
      | [] => misused "arg count"
      | path :: _ =>
        if !path.contains '/' then die (path ++ ": not found")
        let text ← scriptAt path
        match ← attempt (runLines programs false steps { rest := text, fromFile := true }) with
        | .ok ranSome =>
          let status := (← shell).status
          return if ranSome then status else 0
        | .error .returned => return (← shell).status
        | .error flow => throw flow
    | "exec" =>
      match args with
      | [] => return 0
      | program :: args =>
        change fun s => { s with traps := s.traps.filter (·.2.isEmpty) }
        match ← runProgram programs (← searchFolders) (← environment) program args steps with
        | .ended status => setStatus status
        | .signalled signal => throw (.killed (← shell).own signal)
        | .denied =>
          warn (program ++ ": Permission denied")
          setStatus 126
        | .missing =>
          warn (program ++ ": not found")
          setStatus 127
        throw .exited
    | "exit" =>
      setStatus ((← statusOf args) % 256)
      throw .exited
    | "return" =>
      setStatus ((← statusOf args) % 256)
      throw .returned
    | "break" | "continue" =>
      let count := min (← loopCount args) (← shell).loops
      setStatus 0
      if count = 0 then return 0
      else if name = "break" then throw (.leave count)
      else throw (.resume count)
    | "command" =>
      match args with
      | [] => return 0
      | ['-', 'v'] :: words => describeAll programs true words
      | ['-', 'V'] :: words => describeAll programs false words
      | word :: rest => runPlainly programs tested word rest steps
    | "type" => describeAll programs false args
    | "wait" =>
      match args with
      | [] =>
        runJobs programs (fun _ => true) steps
        return 0
      | _ =>
        if let some w := args.find? fun w => (Octets.nat? w).isNone then
          return ← misused ("Illegal number: " ++ String.ofList w)
        let statuses ← args.mapM fun w => do
          let process := (Octets.nat? w).getD 0
          runJobs programs (fun job => job.process = process) steps
          match (← get).ended.lookup process with
          | some status =>
            if 128 < status then reap (.error (status - 128)) else pure status
          | none => pure 127
        return statuses.getLast?.getD 0
    | "kill" => builtinKill (fun cs => runText programs steps cs) args
    | _ => return 0
  termination_by structural steps => steps

def runPlainly (programs : Programs) (tested : Bool) (name : Octets) (args : List Octets) :
    (steps : Nat) → Act Nat
  | 0 => throw .stopped
  | steps + 1 => do
    change fun s => { s with command := none }
    if isBuiltin name then
      runBuiltin programs tested name args steps
    else runMeaning programs tested name args .outside steps
    return (← shell).status
  termination_by structural steps => steps

def runJobs (programs : Programs) (wanted : Job → Bool) : (steps : Nat) → Act Unit
  | 0 => throw .stopped
  | steps + 1 => do
    let m ← get
    match m.jobs.find? wanted with
    | none => return ()
    | some job =>
      set { m with
        jobs := m.jobs.filter (·.process ≠ job.process)
        shell := job.shell
        clock := job.start
        disk := { m.disk with workingFolder := job.folder } }
      let outcome ← attempt (runApart (fun cs => runText programs steps cs)
        (run programs false steps job.body))
      modify fun after =>
        { after with
          shell := m.shell
          clock := max after.clock m.clock
          disk := { after.disk with workingFolder := m.disk.workingFolder } }
      match outcome with
      | .ok status =>
        modify fun m => { m with ended := (job.process, status) :: m.ended }
        runJobs programs wanted steps
      | .error flow => throw flow
  termination_by structural steps => steps

def runText (programs : Programs) : (steps : Nat) → Octets → Act Unit
  | 0, _ => throw .stopped
  | steps + 1, cs => do
    discard (runLines programs false steps { rest := cs })
  termination_by structural steps => steps

def runLines (programs : Programs) (tested : Bool) : (steps : Nat) → Reader → Act Bool
  | 0, _ => throw .stopped
  | steps + 1, reader => do
    let s ← shell
    let reader :=
      { reader with
        dialect := s.dialect, nextDocument := s.nextDocument, documents := []
        aliases := s.aliases }
    let echoLines (after : Reader) : Act Unit := do
      if reader.fromFile ∧ (← hasOption 'v') then
        let taken := reader.rest.length - after.rest.length
        let ending := if (reader.rest.take taken).getLast? = some '\n' then []
          else (reader.rest.drop taken).takeWhile (· != '\n') ++ ['\n']
        if !reader.rest.isEmpty then write 2 (reader.rest.take taken ++ ending)
    match nextCommand reader with
    | .error fault after =>
      echoLines after
      change fun s => { s with line := fault.line }
      die fault.message.toList
    | .ok none _ => return false
    | .ok (some c) after =>
      echoLines after
      change fun s =>
        { s with
          documents := after.documents ++ s.documents
          nextDocument := after.nextDocument }
      if !(← hasOption 'n') then run programs tested steps c
      let more ← runLines programs tested steps after
      return match c with
        | .nothing => more
        | _ => true
  termination_by structural steps => steps

def runProgram (programs : Programs) (folders : List Octets)
    (environment : List (Octets × Octets)) (name : Octets) (args : List Octets) :
    (steps : Nat) → Act Ran
  | 0 => throw .stopped
  | steps + 1 => do
    match ← findProgram programs folders name with
    | .missing => return .missing
    | .denied => return .denied
    | .script path place =>
      let text := match (← get).disk.top.at? place with
        | some (.file content) => Octets.ofContent content
        | _ => []
      match text with
      | '#' :: '!' :: rest =>
        let line := rest.takeWhile (· != '\n')
        let words := (Text.pieces ' ' line).filter (· ≠ [])
        match words with
        | [] => runShell programs (← shell).dialect environment name (path :: args) steps
        | interpreter :: options =>
          let options := if options.isEmpty then [] else [[' '].intercalate options]
          runProgram programs [] environment interpreter (options ++ path :: args) steps
      | _ => runShell programs (← shell).dialect environment name (path :: args) steps
    | .program known =>
      match shells.lookup known, programs known with
      | some dialect, _ => runShell programs dialect environment name args steps
      | none, some program =>
        let task ← startTask
        let status ← runTask programs task.input.length steps
          (program ⟨name, args, environment⟩ task)
        modify fun m =>
          { m with disk := { m.disk with workingFolder := task.disk.workingFolder } }
        return .ended status
      | none, none => runCaller programs environment args steps
  termination_by structural steps => steps

def runTask (programs : Programs) (available : Nat) : (steps : Nat) → Progress Nat → Act Nat
  | 0, _ => throw .stopped
  | steps + 1, progress => do
    match progress with
    | .done status task | .ended status task =>
      settleTask available task
      return status
    | .asks request task resume =>
      settleTask available task
      let answer ← answerTo programs request steps
      let task ← startTask
      runTask programs task.input.length steps (resume answer task)
  termination_by structural steps => steps

def answerTo (programs : Programs) (request : Request) : (steps : Nat) → Act Answer
  | 0 => throw .stopped
  | steps + 1 => do
    let ran ← keepingStreams (runProgram programs (pathFolders request.environment)
      request.environment (request.words.headD []) (request.words.drop 1) steps)
    return { ending := match ran with
      | .ended status => .ok status
      | .signalled signal => .error signal
      | .denied => .ok 126
      | .missing => .ok 127 }
  termination_by structural steps => steps

def runShell (programs : Programs) (dialect : Dialect) (environment : List (Octets × Octets))
    (name : Octets) (args : List Octets) : (steps : Nat) → Act Ran
  | 0 => throw .stopped
  | steps + 1 => do
    return .ofProcess (← apart do
      let m ← get
      let inner := newShell dialect environment name m.shell m.disk.workingFolder m.shell.own
      modify fun m => { m with shell := inner }
      withExitTrap (fun cs => runText programs steps cs) do
        let (command, input, words) ← shellOptions (args.length + 1) args
        match command, words with
        | true, [] => die "-c requires an argument"
        | true, script :: rest =>
          change fun s => { s with name := rest.headD name, arguments := rest.drop 1 }
          discard (runLines programs false steps { rest := script })
        | false, path :: rest =>
          if input then
            change fun s => { s with arguments := path :: rest }
            runInput programs steps
          else
            let text ← scriptAt path
            change fun s => { s with name := path, arguments := rest }
            discard (runLines programs false steps { rest := text, fromFile := true })
        | false, [] => runInput programs steps
      runJobs programs (fun _ => false) steps)
  termination_by structural steps => steps

def runInput (programs : Programs) : (steps : Nat) → Act Unit
  | 0 => throw .stopped
  | steps + 1 => do
    match ← streamOf? 0 with
    | none => return ()
    | some number =>
      let cs ← unread number
      consume number cs.length
      discard (runLines programs false steps { rest := cs, fromFile := true })
  termination_by structural steps => steps

def runCaller (programs : Programs) (environment : List (Octets × Octets)) (args : List Octets) :
    (steps : Nat) → Act Ran
  | 0 => throw .stopped
  | steps + 1 => do
    let start (environment : List (Octets × Octets)) (words : List Octets) : Act Ran :=
      runProgram programs (pathFolders environment) environment
        (words.headD []) (words.drop 1) steps
    Caller.env start environment args
  termination_by structural steps => steps

end

end Mutagenesis.Shell
