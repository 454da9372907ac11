import Mutagenesis.CommandLine
import Mutagenesis.Disk.Changes

/-!
# The program

Runs the command line on the disk of the machine: what the run may look at is loaded first, and what
it has changed is written afterwards. Requests are served one line after the other.
-/

set_option autoImplicit false

namespace Mutagenesis.Program

def depthLimit : Nat := 64

/-- The names of a path, without single dots and without going up. -/
def plainNames (names : List String) : List String :=
  names.foldl (fun sofar name =>
    if name = "." then sofar else if name = ".." then sofar.dropLast else sofar ++ [name]) []

def written (names : List String) : String :=
  "/" ++ "/".intercalate names

def loadFile (path : String) : IO Content := do
  return .ofBytes (← IO.FS.readBinFile path).toList

/-- What a folder holds; what cannot be read is left out. -/
def loadFolder : (depth : Nat) → String → IO Folder
  | 0, _ => return .empty
  | depth + 1, path => do
    let entries ← (← IO.FS.realPath path).readDir
    let mut folder := Folder.empty
    for entry in entries do
      let inner := path ++ "/" ++ entry.fileName
      try
        match (← entry.path.symlinkMetadata).type with
        | .dir => folder := .sub entry.fileName (← loadFolder depth inner) folder
        | .file => folder := .file entry.fileName (← loadFile inner) folder
        | .symlink =>
          folder := .link entry.fileName (← IO.FS.realPath entry.path).toString folder
        | .other => pure ()
      catch _ => pure ()
    return folder

def loadAt (d : Disk) (names : List String) : IO Disk := do
  let path := written names
  try
    let entry : Entry ← match (← (← IO.FS.realPath path).metadata).type with
      | .dir => do pure (.folder (← loadFolder depthLimit path))
      | _ => do pure (.file (← loadFile path))
    let act : DiskAction Unit := do
      Disk.makeFolders (written names.dropLast)
      Disk.putAt names entry
    match act d with
    | .ok _ d => return d
    | .error _ d => return d
  catch _ => return d

def carryOut : Folder.Change → IO Unit
  | .removeFile path => IO.FS.removeFile (written path)
  | .removeFolder path => IO.FS.removeDirAll (written path)
  | .makeFolder path => IO.FS.createDirAll (written path)
  | .write path content => IO.FS.writeBinFile (written path) ⟨content.toBytes.toArray⟩

def store (before after : Disk) : IO Unit :=
  (before.top.changes after.top).forM carryOut

def showsColours : IO Bool := do
  return (← (← IO.getStdout).isTty) && (← IO.getEnv "NO_COLOR").isNone

def variableNames : List String :=
  ["MUTORCH_ROOT", "MUTORCH_USER_CONFIG", "HOME", "PATH", "CLICOLOR", "CLICOLOR_FORCE"]

def surroundings : IO CommandLine.Surroundings := do
  let environment ← variableNames.filterMapM fun name => do
    return (← IO.getEnv name).map fun value => (name, value)
  return { environment := environment, terminal := ← showsColours }

/-- A number drawn by lot, from which ids of mutants come. -/
def drawNumber : IO Nat := do
  return (← IO.getRandomBytes 15).toList.foldl (fun n b => n * 256 + b.toNat) 0

/-- The paths that a run looks at, besides the working folder. -/
def pathsOf (s : CommandLine.Surroundings) (options : CommandLine.Options)
    (task : CommandLine.Task) : List String :=
  let given := match task with
    | .importProgram _ folder _ _ _ => [folder]
    | .replacements _ path | .diff _ path | .mutate _ path _ => [path]
    | _ => []
  options.root :: options.config.toList ++ s.userConfig.toList ++
    (s.home.map (Path.join · CommandLine.homeConfig)).toList ++ given

def readsInput : CommandLine.Task → Bool
  | .replacements _ path | .diff _ path | .mutate _ path _ => CommandLine.isStandardInput path
  | _ => false

def loadDisk (paths : List String) : IO Disk := do
  let here := plainNames (Path.names (← IO.currentDir).toString)
  let places := paths.map fun path =>
    plainNames ((if Path.isAbsolute path then [] else here) ++ Path.names path)
  let outside := places.filter fun place => !here.isPrefixOf place
  let disk ← loadAt ⟨.empty, here⟩ here
  outside.foldlM loadAt disk

/-- Serves lines of the standard input until a request to shut down or the end of the input. -/
partial def serveLines (i : Installation LocalStore) (session : Session LocalStore) :
    IO (Session LocalStore) := do
  let line ← (← IO.getStdin).getLine
  if line.isEmpty then return session
  let step := Server.step i session (Text.withoutLineEnd line.toList)
  store session.store.disk step.session.store.disk
  match step.answer with
  | some answer =>
    IO.println answer.compact
    (← IO.getStdout).flush
  | none => pure ()
  if step.done then return step.session else serveLines i step.session

/-- Serves requests, and deletes the mutants that are left. -/
def serve (s : CommandLine.Surroundings) (options : CommandLine.Options) (disk : Disk) :
    IO UInt32 := do
  match CommandLine.prepare s options (← drawNumber) disk with
  | .error (fault, changed) =>
    store disk changed
    IO.eprint (Report.joined (Report.fault s.colour fault))
    return UInt32.ofNat (CommandLine.exitCode fault)
  | .ok (installation, session) =>
    store disk session.store.disk
    let session ← serveLines installation session
    store session.store.disk (Server.close installation session).store.disk
    return 0

def finish (disk : Disk) (outcome : CommandLine.Outcome) : IO UInt32 := do
  store disk outcome.disk
  IO.print outcome.output
  IO.eprint outcome.errors
  return UInt32.ofNat outcome.code

def run (args : List String) : IO UInt32 := do
  let s ← surroundings
  match CommandLine.parse s.root args with
  | .error stop => finish ⟨.empty, []⟩ (CommandLine.stopped stop ⟨.empty, []⟩)
  | .ok (options, task) =>
    let disk ← loadDisk (pathsOf s options task)
    if task = .serve then serve s options disk
    else
      let input ← if readsInput task then (← IO.getStdin).readToEnd else pure ""
      finish disk (CommandLine.run { s with input := input } args (← drawNumber) disk)

end Mutagenesis.Program

def main (args : List String) : IO UInt32 :=
  Mutagenesis.Program.run args
