import Mutagenesis.Disk
import Mutagenesis.Shell.Attributes
import Mutagenesis.Shell.Script

/-!
# The machine that scripts run on

A machine has a disk, a log, a clock, streams that are open, and the state of the shell that runs.
-/

namespace Mutagenesis.Shell

/-- Where an open stream leads. -/
inductive Channel where
  | log
  | nowhere
  | file (place : List String)
  | pipe
  deriving DecidableEq

/-- A stream that is open. -/
structure OpenStream where
  channel : Channel
  position : Nat := 0
  append : Bool := false
  waiting : List Octets := []
  ahead : Option (Content × Octets) := none
  deriving DecidableEq

def OpenStream.piped (stream : OpenStream) : Octets :=
  match stream.waiting with
  | [cs] => cs
  | parts => parts.reverse.flatten

def OpenStream.rest (stream : OpenStream) (content : Content) : Octets :=
  let fresh (_ : Unit) : Octets := (Octets.ofContent content).drop stream.position
  match stream.ahead with
  | some (before, left) => if before = content then left else fresh ()
  | none => fresh ()

/-- A variable. One without a value is only marked, and one that holds a list has the first item as
its value. -/
structure Setting where
  value : Option Octets := none
  items : List Octets := []
  exported : Bool := false
  readOnly : Bool := false
  deriving DecidableEq

def Setting.list (setting : Setting) : List Octets :=
  if setting.items.isEmpty then setting.value.toList else setting.items

/-- The state of a shell. -/
structure ShellState where
  name : Octets
  dialect : Dialect := .plain
  arguments : List Octets := []
  settings : List (Octets × Setting) := []
  functions : List (Octets × Command) := []
  aliases : List (Octets × Octets) := []
  found : List Octets := []
  mask : Nat := 18
  documents : List (Nat × Word) := []
  nextDocument : Nat := 0
  streams : List (Nat × Nat) := []
  options : List Char := []
  folder : Octets := []
  process : Nat := 0
  own : Nat := 0
  lastJob : Option Nat := none
  traps : List (String × Octets) := []
  frames : List (List (Octets × Option Setting)) := []
  status : Nat := 0
  line : Nat := 0
  command : Option Octets := none
  outputStatus : Nat := 0
  depth : Nat := 0
  loops : Nat := 0
  optionPlace : Nat := 0

/-- A command in the background that was not run yet. -/
structure Job where
  process : Nat
  body : Command
  shell : ShellState
  folder : List String
  start : Nat

/-- What scripts run on. -/
structure Machine where
  disk : Disk
  log : List Octets := []
  logLength : Nat := 0
  streams : List (Nat × OpenStream) := []
  nextStream : Nat := 0
  clock : Nat := 0
  limit : Nat
  budget : Nat := 300000
  nextProcess : Nat := 2
  started : Nat := 0
  attributes : AttributeTable := []
  jobs : List Job := []
  ended : List (Nat × Nat) := []
  shell : ShellState

def Machine.now (m : Machine) : Int :=
  firstMoment + 1000 * m.clock + m.started + 1

def Machine.noteChange (m : Machine) (place : List String) : Machine :=
  { m with attributes := m.attributes.changed m.now place }

/-- Why commands do not go on. -/
inductive Flow where
  | leave (loops : Nat)
  | resume (loops : Nat)
  | returned
  | exited
  | killed (process signal : Nat)
  | stopped
  deriving DecidableEq

abbrev Act := EStateM Flow Machine

namespace Act

def shell : Act ShellState := do
  return (← get).shell

def change (f : ShellState → ShellState) : Act Unit :=
  modify fun m => { m with shell := f m.shell }

def setStatus (status : Nat) : Act Unit :=
  change fun s => { s with status := status }

def attempt {α : Type} (act : Act α) : Act (Except Flow α) := fun m =>
  match act m with
  | .ok a m => .ok (.ok a) m
  | .error flow m => .ok (.error flow) m

/-- Does something, and then something else, also if the first was left. -/
def finishing {α : Type} (after : Act Unit) (act : Act α) : Act α := do
  let outcome ← attempt act
  after
  match outcome with
  | .ok a => return a
  | .error flow => throw flow

def hasOption (letter : Char) : Act Bool := do
  return (← shell).options.contains letter

def overwrite (before : Octets) (position : Nat) (cs : Octets) : Octets :=
  let start := before.take position
  start ++ List.replicate (position - start.length) '\x00' ++ cs ++
    before.drop (position + cs.length)

def pipeLimit : Nat := 1000000

def writeTo (number : Nat) (cs : Octets) : Act Unit := do
  let m ← get
  match m.streams.lookup number with
  | none => return ()
  | some stream =>
    let put (stream : OpenStream) (m : Machine) : Machine :=
      { m with streams := (number, stream) :: m.streams.filter (·.1 ≠ number) }
    match stream.channel with
    | .nowhere => return ()
    | .pipe =>
      let position := stream.position + cs.length
      set (put { stream with waiting := cs :: stream.waiting, position := position } m)
      if pipeLimit < position then throw (.killed m.shell.own 13)
    | .log =>
      let position := stream.position + cs.length
      let m := if stream.position = m.logLength then
          { m with log := cs :: m.log, logLength := position }
        else
          { m with
            log := [overwrite m.log.reverse.flatten stream.position cs]
            logLength := max position m.logLength }
      set (put { stream with position := position } m)
    | .file place =>
      match m.disk.top.at? place with
      | some (.file content) =>
        let size := Octets.sizeOf content
        let position := if stream.append then size else stream.position
        let content := if position = size then Octets.appendTo content cs
          else Octets.toContent (overwrite (Octets.ofContent content) position cs)
        let disk := { m.disk with top := m.disk.top.putAt place (.file content) }
        let m := { m with disk := disk }.noteChange place
        set (put { stream with position := position + cs.length, ahead := none } m)
      | _ => return ()

def streamOf? (fd : Nat) : Act (Option Nat) := do
  return (← shell).streams.lookup fd

def write (fd : Nat) (cs : Octets) : Act Unit := do
  match ← streamOf? fd with
  | some number => if cs.isEmpty then return () else writeTo number cs
  | none => return ()

def say (cs : Octets) : Act Unit :=
  write 1 cs

def unread (number : Nat) : Act Octets := do
  let m ← get
  match m.streams.lookup number with
  | none => return []
  | some stream =>
    match stream.channel with
    | .nowhere => return []
    | .pipe => return stream.piped
    | .log => return m.log.reverse.flatten.drop stream.position
    | .file place =>
      match m.disk.top.at? place with
      | some (.file content) => return stream.rest content
      | _ => return []

def consume (number count : Nat) : Act Unit :=
  modify fun m =>
    match m.streams.lookup number with
    | none => m
    | some stream =>
      let further : OpenStream := { stream with position := stream.position + count }
      let stream := match stream.channel with
        | .pipe => { stream with waiting := [stream.piped.drop count] }
        | .file place =>
          match m.disk.top.at? place with
          | some (.file content) =>
            { further with ahead := some (content, (stream.rest content).drop count) }
          | _ => further
        | _ => further
      { m with streams := (number, stream) :: m.streams.filter (·.1 ≠ number) }

def openStream (stream : OpenStream) : Act Nat :=
  modifyGet fun m =>
    (m.nextStream,
      { m with streams := (m.nextStream, stream) :: m.streams, nextStream := m.nextStream + 1 })

def attach (fd number : Nat) : Act Unit :=
  change fun s => { s with streams := (fd, number) :: s.streams.filter (·.1 ≠ fd) }

def detach (fd : Nat) : Act Unit :=
  change fun s => { s with streams := s.streams.filter (·.1 ≠ fd) }

def complaintStart : Act Octets := do
  let s ← shell
  let command := match s.command with
    | some name => name ++ ": "
    | none => []
  let line := (if s.dialect = .extended then "line ".toList else []) ++ Octets.ofNat s.line
  return s.name ++ ": " ++ line ++ ": " ++ command

def warn (message : Octets) : Act Unit := do
  write 2 ((← complaintStart) ++ message ++ ['\n'])

def die {α : Type} (message : Octets) : Act α := do
  warn message
  setStatus 2
  throw .exited

def setting? (name : Octets) : Act (Option Setting) := do
  return (← shell).settings.lookup name

def putSetting (name : Octets) (setting : Option Setting) : Act Unit :=
  change fun s =>
    let others := s.settings.filter (·.1 ≠ name)
    { s with settings := match setting with
      | some x => (name, x) :: others
      | none => others }

def assign (name value : Octets) : Act Unit := do
  let before := (← setting? name).getD {}
  if before.readOnly then die (name ++ ": is read only")
  let all ← hasOption 'a'
  if name = "OPTIND" then change fun s => { s with optionPlace := 0 }
  putSetting name (some
    { before with
      value := some value, items := before.items.set 0 value, exported := before.exported || all })

def valueOf (name : Octets) : Act Octets := do
  return ((← setting? name).bind Setting.value).getD []

def remember (name : Octets) : Act Unit := do
  let s ← shell
  match s.frames with
  | [] => return ()
  | frame :: frames =>
    if (frame.lookup name).isSome then return ()
    let frame := frame ++ [(name, s.settings.lookup name)]
    change fun s => { s with frames := frame :: frames }

def rememberOptions : Act Unit := do
  let s ← shell
  match s.frames with
  | [] => return ()
  | frame :: frames =>
    if (frame.lookup ['-']).isSome then return ()
    change fun s => { s with frames := (frame ++ [(['-'], some { value := some s.options })])
        :: frames }

def restore (name : Octets) (setting : Option Setting) : Act Unit :=
  if name = ['-'] then
    change fun s => { s with options := (setting.bind Setting.value).getD [] }
  else putSetting name setting

def restoring {α : Type} (act : Act α) : Act α := do
  change fun s => { s with frames := [] :: s.frames }
  let undo : Act Unit := do
    ((← shell).frames.headD []).forM fun (name, setting) => restore name setting
    change fun s => { s with frames := s.frames.tail }
  finishing undo act

def environment : Act (List (Octets × Octets)) := do
  return (← shell).settings.filterMap fun (name, setting) =>
    match setting.exported && setting.items.isEmpty, setting.value with
    | true, some value => some (name, value)
    | _, _ => none

def pass (milliseconds : Nat) : Act Unit := do
  modify fun m => { m with clock := m.clock + milliseconds }
  let m ← get
  if m.limit < m.clock then throw .stopped

def count : Act Unit := do
  let m ← get
  if m.budget = 0 then throw .stopped
  set { m with budget := m.budget - 1 }

def freshProcess : Act Nat :=
  modifyGet fun m => (m.nextProcess, { m with nextProcess := m.nextProcess + 1 })

def apart (act : Act Unit) : Act (Except Nat Nat) := do
  let outer ← shell
  let folder := (← get).disk.workingFolder
  let own ← freshProcess
  change fun s => { s with own := own }
  let outcome ← attempt act
  let status := (← shell).status
  modify fun m =>
    { m with
      shell := { outer with nextDocument := m.shell.nextDocument }
      disk := { m.disk with workingFolder := folder } }
  match outcome with
  | .error .stopped => throw .stopped
  | .error (.killed process signal) =>
    if process = own then return .error signal else throw (.killed process signal)
  | _ => return .ok status

def keepingStreams {α : Type} (act : Act α) : Act α := do
  let streams := (← shell).streams
  finishing (change fun s => { s with streams := streams }) act

def captured {α : Type} (act : Act α) : Act (α × Octets) := do
  let number ← openStream { channel := .pipe }
  let a ← keepingStreams do
    attach 1 number
    act
  let cs ← unread number
  modify fun m => { m with streams := m.streams.filter (·.1 ≠ number) }
  return (a, cs)

end Act

end Mutagenesis.Shell
