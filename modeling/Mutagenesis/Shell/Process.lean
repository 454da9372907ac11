import Mutagenesis.Shell.Lookup
import Mutagenesis.Shell.Redirect

/-!
# Processes

Programs and parts of a shell that run as processes of their own, with an environment that they
inherit, and with streams that they share.
-/

namespace Mutagenesis.Shell

open Act

def startTask : Act Task := do
  let number ← streamOf? 0
  let input ← match number with
    | some n => unread n
    | none => pure []
  let m ← get
  let place (number : Option Nat) : Option (List String) :=
    match number.bind fun n => m.streams.lookup n with
    | some { channel := .file place, .. } => some place
    | _ => none
  set { m with started := m.started + 1 }
  return { disk := m.disk, input := input, inputIsFile := (place number).isSome
           outputPlace := place (← streamOf? 1), attributes := m.attributes
           mask := m.shell.mask, now := m.now }

def settleTask (available : Nat) (task : Task) : Act Unit := do
  modify fun m =>
    { m with disk := task.disk, attributes := task.attributes.onDisk task.disk }
  if let some n ← streamOf? 0 then consume n (available - task.input.length)
  task.written.reverse.forM fun (errors, cs) => write (if errors then 2 else 1) cs
  pass task.time

def withExitTrap (run : Octets → Act Unit) (act : Act Unit) : Act Unit := do
  match ← attempt act with
  | .error .stopped => throw .stopped
  | .error (.killed process signal) => throw (.killed process signal)
  | _ =>
    let s ← shell
    match s.traps.lookup "EXIT" with
    | none => return ()
    | some action =>
      change fun s => { s with traps := s.traps.filter (·.1 ≠ "EXIT"), command := none }
      match ← attempt (run action) with
      | .ok _ => setStatus s.status
      | .error .exited => return ()
      | .error .stopped => throw .stopped
      | .error (.killed process signal) => throw (.killed process signal)
      | .error _ => setStatus s.status

def reap (outcome : Except Nat Nat) : Act Nat := do
  match outcome with
  | .ok status => return status
  | .error signal =>
    let text := signalText signal
    if !text.isEmpty then write 2 (text.toList ++ ['\n'])
    return 128 + signal

def runApart (run : Octets → Act Unit) (act : Act Unit) : Act Nat := do
  reap (← apart do
    change fun s => { s with traps := s.traps.filter (·.2.isEmpty) }
    withExitTrap run act)

def usualPath : String :=
  "/usr/local/sbin:/usr/local/bin:/usr/sbin:/usr/bin:/sbin:/bin"

def newShell (dialect : Dialect) (environment : List (Octets × Octets)) (name : Octets)
    (outer : ShellState) (folder : List String) (process : Nat) : ShellState :=
  let path := '/' :: ['/'].intercalate (folder.map Octets.ofText)
  let imported := environment.filter fun (n, _) => isName n && n ≠ "PWD"
  let settings : List (Octets × Setting) :=
    imported.map fun (n, v) => (n, { value := some v, exported := true })
  let own : List (Octets × Setting) :=
    [("PWD", { value := some path, exported := true }),
     ("OPTIND", { value := some ['1'] }),
     ("PS4", { value := some "+ " }),
     ("PATH", { value := some usualPath.toList }),
     ("PPID", { value := some (Octets.ofNat outer.own) })]
  let own := own.filter fun (n, _) => (settings.lookup n).isNone
  { name := name, dialect := dialect, settings := settings ++ own, streams := outer.streams
    folder := path, process := process, own := process, nextDocument := outer.nextDocument
    mask := outer.mask }

def leadingAssignments : List Octets → List (Octets × Octets) × List Octets
  | [] => ([], [])
  | w :: rest =>
    match splitAssignment w with
    | (name, some value) =>
      let (assignments, words) := leadingAssignments rest
      ((name, value) :: assignments, words)
    | (_, none) => ([], w :: rest)

def withVariable (environment : List (Octets × Octets)) (name value : Octets) :
    List (Octets × Octets) :=
  if (environment.lookup name).isSome then
    environment.map fun (n, v) => if n = name then (n, value) else (n, v)
  else environment ++ [(name, value)]

def trace (assignments : List (Octets × Octets)) (words : List Octets) : Act Unit := do
  if ← hasOption 'x' then
    let shown := assignments.map fun (n, v) => n ++ '=' :: v
    write 2 ((← valueOf "PS4") ++ [' '].intercalate (shown ++ words) ++ ['\n'])

end Mutagenesis.Shell
