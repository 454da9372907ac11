import Mutagenesis.Shell.Expansion
import Mutagenesis.Shell.Program

/-!
# Redirections

Opening files for the streams of a command, and passing streams on under other numbers.
-/

namespace Mutagenesis.Shell

open Act

def openReason (creating : Bool) (fault : DiskFault) : Octets :=
  match fault with
  | .noEntry | .notFolder => if creating then "Directory nonexistent" else "No such file"
  | fault => reason fault

def openFailure (mode : FileMode) (path : Octets) (fault : DiskFault) : Octets :=
  let doing := if mode = .read then "cannot open " else "cannot create "
  doing.toList ++ path ++ ": " ++ openReason (mode ≠ .read) fault

def deviceStream? (path : Octets) : Option Nat :=
  match String.ofList path with
  | "/dev/stdin" => some 0
  | "/dev/stdout" => some 1
  | "/dev/stderr" => some 2
  | _ => none

def openPath (mode : FileMode) (path : Octets) : Act (Except DiskFault OpenStream) := do
  let m ← get
  let text := Octets.toText path
  let creating := mode ≠ .read ∧ path.getLast? = some '/'
  match m.disk.resolve true text with
  | .error fault => return .error (if creating ∧ fault = .notFolder then .isFolder else fault)
  | .ok place =>
    if creating then return .error .isFolder
    let create (content : Content) : Act Unit :=
      modify fun m =>
        let there := (m.disk.top.at? place).isSome
        let disk := { m.disk with top := m.disk.top.putAt place (.file content) }
        let attributes := if there then m.attributes.changed m.now place
          else m.attributes.made m.shell.mask m.now place 0o666
        { m with disk := disk, attributes := attributes }
    let stream : OpenStream := { channel := .file place, append := mode = .append }
    match m.disk.top.at? place, mode with
    | some (.folder _), .read => return .ok stream
    | some (.folder _), _ => return .error .isFolder
    | some _, .write =>
      if m.shell.options.contains 'C' then return .error .alreadyThere
      create (.text "")
      return .ok stream
    | some _, .overwrite =>
      create (.text "")
      return .ok stream
    | some _, _ => return .ok stream
    | none, .read => return .error .noEntry
    | none, _ =>
      create (.text "")
      return .ok stream

def redirectFile (fd : Nat) (mode : FileMode) (path : Octets) : Act (Option Octets) := do
  if let some content := Host.deviceContent? path then
    let giving : OpenStream := { channel := .pipe, waiting := [content] }
    attach fd (← openStream
      (if mode = .read ∧ !content.isEmpty then giving else { channel := .nowhere }))
    return none
  let device ← match deviceStream? path with
    | some n => streamOf? n
    | none => pure none
  match device with
  | some number =>
    attach fd number
    return none
  | none =>
    match ← openPath mode path with
    | .ok stream =>
      attach fd (← openStream stream)
      return none
    | .error fault => return some (openFailure mode path fault)

def redirectCopy (fd : Nat) (source : Octets) : Act (Option Octets) := do
  if source = ['-'] then
    detach fd
    return none
  match Octets.nat? source with
  | some n =>
    match ← streamOf? n with
    | some number =>
      attach fd number
      return none
    | none => return some (source ++ ": Bad file descriptor")
  | none => return some "Syntax error: Bad fd number"

def redirectAll (substitute : Substitute) : List Redirection → Act (Option Octets)
  | [] => return none
  | r :: rest => do
    let failure ← match r with
      | .file fd mode w => do redirectFile fd mode (← expandText substitute .atStart w)
      | .copy fd w => do redirectCopy fd (← expandText substitute .atStart w)
      | .document fd number => do
        let w := ((← shell).documents.lookup number).getD []
        let cs ← expandText substitute .nowhere w
        attach fd (← openStream { channel := .pipe, waiting := [cs] })
        pure none
    match failure with
    | some message => return some message
    | none => redirectAll substitute rest

end Mutagenesis.Shell
