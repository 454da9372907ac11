import Mutagenesis.Shell.Builtin
import Mutagenesis.Shell.Program
import Mutagenesis.Shell.Script.Token

/-!
# Finding commands

What the name of a command stands for: a built-in command, a function, or a program, which is looked
for in the folders that the environment names.
-/

namespace Mutagenesis.Shell

open Act

abbrev Programs := String → Option Program

/-- What a name of a program leads to. -/
inductive Found where
  | program (name : String)
  | script (path : Octets) (place : List String)
  | denied
  | missing
  deriving DecidableEq

def programFolders : List String :=
  ["/bin", "/usr/bin", "/usr/local/bin"]

def shells : List (String × Dialect) :=
  [("sh", .plain), ("dash", .plain), ("bash", .extended)]

def callers : List String :=
  shells.map Prod.fst ++ ["env"]

def fileToRun (path : Octets) : Act Found := do
  let m ← get
  match m.disk.resolve true (Octets.toText path) with
  | .error _ => return .missing
  | .ok place =>
    match m.disk.top.at? place with
    | some (.file _) =>
      if m.attributes.mayRun place then return .script path place else return .denied
    | some _ => return .denied
    | none => return .missing

def findIn (programs : Programs) (folder name : Octets) : Act Found := do
  let known := String.ofList name
  if String.ofList folder ∈ programFolders ∧ (known ∈ callers ∨ (programs known).isSome) then
    return .program known
  else
    let found ← fileToRun (if folder.isEmpty then name else folder ++ '/' :: name)
    if let .script _ place := found then
      if let some (.file content) := (← get).disk.top.at? place then
        if let some known := Host.programIn? content then return .program known
    return found

def findProgram (programs : Programs) (folders : List Octets) (name : Octets) : Act Found := do
  if name.getLast? = some '/' then fileToRun name
  else if name.contains '/' then
    let last := name.reverse.takeWhile (· != '/')
    let folder := (name.take (name.length - last.length)).dropLast
    findIn programs folder last.reverse
  else if name.isEmpty then return .denied
  else search folders .missing
where
  search : List Octets → Found → Act Found
    | [], found => return found
    | folder :: rest, worst => do
      match ← findIn programs folder name with
      | .missing => search rest worst
      | .denied => search rest .denied
      | found => return found

def pathFolders (environment : List (Octets × Octets)) : List Octets :=
  match environment.lookup "PATH".toList with
  | some path => Text.pieces ':' path
  | none => programFolders.map String.toList

def searchFolders : Act (List Octets) := do
  match (← setting? "PATH").bind Setting.value with
  | some path => return Text.pieces ':' path
  | none => return []

def findOwnProgram (programs : Programs) (name : Octets) : Act Found := do
  let found ← findProgram programs (← searchFolders) name
  match found with
  | .missing | .denied => pure ()
  | _ =>
    if !name.contains '/' then
      change fun s => { s with found := name :: s.found.filter (· ≠ name) }
  return found

/-- What a name stands for to the shell. -/
inductive Meaning where
  | special
  | regular
  | function (body : Command)
  | outside

def runningBuiltins : List String :=
  [".", "eval", "exec", "exit", "return", "break", "continue", "command", "type", "wait", "kill"]

def isBuiltin (name : Octets) : Bool :=
  let name := String.ofList name
  name ∈ runningBuiltins || (builtin? name).isSome

def meaning (name : Octets) : Act Meaning := do
  let s ← shell
  if String.ofList name ∈ specialBuiltins then return .special
  match s.functions.lookup name with
  | some body => return .function body
  | none => return if isBuiltin name then .regular else .outside

def shownPath (found : Found) (folders : List Octets) : Octets :=
  match found with
  | .program name =>
    let folder := (folders.find? fun f => String.ofList f ∈ programFolders).getD "/usr/bin"
    folder ++ '/' :: name.toList
  | .script path _ => path
  | _ => []

def describeWord (programs : Programs) (brief : Bool) (w : Octets) : Act Nat := do
  let tell (long path : Octets) : Act Nat := do
    if brief then say (path ++ ['\n']) else say (w ++ long ++ ['\n'])
    return 0
  let other := (← shell).aliases.lookup w
  if String.ofList w ∈ reservedWords then tell " is a shell keyword" w
  else if let some meaning := other then
    tell (" is an alias for " ++ meaning)
      ("alias " ++ w ++ '=' :: singleQuote meaning)
  else
    match ← meaning w with
    | .special => tell " is a special shell builtin" w
    | .function _ => tell " is a shell function" w
    | .regular => tell " is a shell builtin" w
    | .outside =>
      let known := (← shell).found.contains w
      let lead := (if known then " is a tracked alias for " else " is ").toList
      match ← findOwnProgram programs w with
      | .program name =>
        let folders ← searchFolders
        let path := if w.contains '/' then w else shownPath (.program name) folders
        tell (lead ++ path) path
      | .script path _ => tell (lead ++ path) path
      | .denied | .missing =>
        if !brief then say (w ++ ": not found\n")
        return 127

end Mutagenesis.Shell
