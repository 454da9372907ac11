import Mutagenesis.Backend
import Mutagenesis.Disk.Copy
import Mutagenesis.Document
import Mutagenesis.Json.Printer
import Mutagenesis.Patch.Reader
import Mutagenesis.Roster
import Mutagenesis.Shell

/-!
# A backend on the disk

Below its root folder, the backend keeps the records of snapshots in `snapshots.json`, images in the
folder `images`, and containers in the folder `containers`. The records are held in memory too, and
written whenever they change.
-/

set_option autoImplicit false

namespace Mutagenesis

/-- A container that is in use. -/
structure LiveContainer where
  id : String
  folder : String
  snapshot : Snapshot
  deriving DecidableEq, Repr

/-- The state of a backend on the disk. -/
structure LocalStore where
  disk : Disk
  root : String
  snapshots : List Snapshot := []
  containers : List LiveContainer := []
  nextContainer : Nat := 0
  /-- How long a build may take, in milliseconds. -/
  buildLimit : Nat := 300000
  environment : List (String × String) := [("PATH", "/usr/bin:/bin")]
  deriving DecidableEq, Repr

namespace LocalStore

/-- Runs an operation on the disk; a fault of it is one that arose while doing something. -/
def onDisk {α : Type} (doing : String) (act : DiskAction α) : Action LocalStore α := fun s =>
  match act s.disk with
  | .ok a d => .ok a { s with disk := d }
  | .error fault d => .error (.during doing fault.message) { s with disk := d }

def relative (path : String) : Except Fault String :=
  if Path.isRelative path then .ok path else .error (.badFormat (.notRelative path))

def imageFolder (root image : String) : Except Fault String := do
  return Path.join (Path.join root "images") (← relative image)

def stateFile : String := "snapshots.json"

def statePath (root : String) : String :=
  Path.join root stateFile

def stateShape : Json.Shape :=
  ⟨"StateFile", [.optionalWith "snapshots" (Json.decodeList Snapshot.decode)]⟩

def stateWant : Json.Want :=
  .record [("snapshots", .list Snapshot.shape.want)]

/-- Reads the records of snapshots. Of two records with one name the later one counts, in the place
of the earlier one. -/
def decodeState (j : Json) : Except Json.DecodeFault (List Snapshot) := do
  let record ← stateShape.read j
  let snapshots ← record.getD "snapshots" (Json.decodeList Snapshot.decode) []
  return Roster.ofList Snapshot.name snapshots

def stateJson (snapshots : List Snapshot) : Json :=
  .object [("snapshots", .array (snapshots.map Snapshot.toJson))]

/-- Loads the records of snapshots; if there is no file with them, there are none. -/
def loadSnapshots (d : Disk) (root : String) : Except Fault (List Snapshot) :=
  let path := statePath root
  match d.text path with
  | .ok text => decodeDocument path text stateWant decodeState
  | .error .noEntry => .ok []
  | .error fault => .error (.during s!"failed to read {path}" fault.message)

/-- Writes the records of snapshots to a new file, which then takes the place of the old one. -/
def saveSnapshots : Action LocalStore Unit := fun s =>
  let doing := s!"failed to write {statePath s.root}"
  match Disk.replaceFile s.root stateFile (stateJson s.snapshots).pretty s.disk with
  | .ok _ d => .ok () { s with disk := d }
  | .error fault d =>
    let step := match s.disk.draftPlace s.root with
      | .ok _ => s!"{doing}: failed to persist temporary file"
      | .error _ => doing
    .error (.during step fault.message) { s with disk := d }

def makeFolderAt (path : String) : Action LocalStore Unit :=
  onDisk s!"failed to create {path}" (Disk.makeFolders path)

def prepare : Action LocalStore Unit := do
  let root := (← get).root
  makeFolderAt (Path.join root "images")
  makeFolderAt (Path.join root "containers")
  let snapshots ← Action.ofExcept (loadSnapshots (← get).disk root)
  modify fun s => { s with snapshots := snapshots }

def dropContainers (s : LocalStore) : LocalStore :=
  let disk := s.containers.foldl (fun d c =>
    match Disk.removeFolder c.folder d with
    | .ok _ d => d
    | .error _ d => d) s.disk
  { s with disk := disk, containers := [] }

def lookup (name : String) : Action LocalStore Snapshot := do
  match Roster.find? Snapshot.name name (← get).snapshots with
  | some s => return s
  | none => throw (.snapshotNotFound name)

/-- The text of the file at a path; `shown` is the path that a missing file is named by. -/
def readText (path shown : String) : Action LocalStore String := do
  match (← get).disk.text path with
  | .ok text => return text
  | .error .noEntry => throw (.fileNotFound shown)
  | .error fault => throw (.during s!"failed to read {path}" fault.message)

def fileText (s : Snapshot) (path : String) : Action LocalStore String := do
  let folder ← Action.ofExcept (imageFolder (← get).root s.image)
  let inside ← Action.ofExcept (relative path)
  readText (Path.join (Path.join folder s.sourceDir) inside) path

def hex16 (n : Nat) : String :=
  String.ofList ((List.range 16).reverse.map fun i => Nat.digitChar (n / Nat.pow 16 i % 16))

/-- The id of the container with a number. Ids look as if drawn by lot, and the first 2^64 numbers
have different ones. -/
def containerId (n : Nat) : String :=
  hex16 ((n + 1) * 0x9E3779B97F4A7C15 % Nat.pow 2 64)

/-- The number of the first container from a number on whose folder is not there. -/
def freeNumber (d : Disk) (parent : String) : (tries : Nat) → Nat → Nat
  | 0, n => n
  | tries + 1, n =>
    if d.has (Path.join parent ("container-" ++ containerId n)) then
      freeNumber d parent tries (n + 1)
    else n

def provision (s : Snapshot) : Action LocalStore Container := do
  let state ← get
  let image ← Action.ofExcept (imageFolder state.root s.image)
  if !state.disk.hasFolder image then throw (.snapshotNotFound s.name)
  let parent := state.disk.absolutePath (Path.join state.root "containers")
  let number := freeNumber state.disk parent 1000 state.nextContainer
  let id := containerId number
  let folder := Path.join parent ("container-" ++ id)
  onDisk "failed to create container" (Disk.makeFolder folder)
  let doing := s!"failed to provision container for {s.name}"
  match ← (onDisk doing (Disk.copyAll image folder)).attempt with
  | .ok _ =>
    modify fun state =>
      { state with
        containers := state.containers ++ [LiveContainer.mk id folder s]
        nextContainer := number + 1 }
    return ⟨id, s.name⟩
  | .error fault =>
    (onDisk doing (Disk.removeFolder folder)).ignoring
    throw fault

def container (c : Container) : Action LocalStore LiveContainer := do
  match Roster.find? LiveContainer.id c.id (← get).containers with
  | some live => return live
  | none => throw (.unexpected s!"no such container: {c.id}")

def patchFile (base : String) (p : FilePatch) : Action LocalStore Unit := do
  let path := Path.join base (← Action.ofExcept (relative p.path))
  let text ← readText path p.path
  let changed ← Action.ofExcept (formatted .patch (p.apply text.toList))
  onDisk s!"failed to write {path}" (Disk.writeText path (String.ofList changed))

/-- Applies a diff to the files of a container, one after the other. -/
def applyPatch (c : Container) (diff : String) : Action LocalStore Unit := do
  let live ← container c
  let patches ← Action.ofExcept (formatted .patch (Diff.parse diff.toList))
  patches.forM (patchFile (Path.join live.folder live.snapshot.sourceDir))

def splitCommand (command : String) : String × List String :=
  match (Text.words command.toList).map String.ofList with
  | program :: args => (program, args)
  | [] => ("", [])

def runBuild (command folder : String) : Action LocalStore BuildOutcome := do
  let (program, args) := splitCommand command
  if program.isEmpty then throw (.illegalConfig .emptyBuildCommand)
  let state ← get
  let order : Shell.Order :=
    { program, args, folder, environment := state.environment, limit := state.buildLimit }
  match Shell.execute order state.disk with
  | .error fault => throw (.during s!"failed to run build command '{command}'" fault.message)
  | .ok outcome =>
    set { state with disk := outcome.disk }
    let output := String.ofList (Text.ofBytesLossy outcome.log)
    match outcome.exit with
    | .status 0 => return .success
    | .status _ | .signal _ => return .failure output
    | .timedOut =>
      return .failure (output ++ s!"\nbuild timed out after {state.buildLimit}ms\n")

/-- Builds what is in a container; without a build command there is nothing to do. -/
def build (c : Container) : Action LocalStore BuildOutcome := do
  let live ← container c
  match live.snapshot.buildCommand with
  | some command => runBuild command (Path.join live.folder live.snapshot.sourceDir)
  | none => return .success

def clearImage (folder : String) : Action LocalStore Unit := do
  if (← get).disk.has folder then
    onDisk s!"failed to replace {folder}" (Disk.removeFolder folder)

def persist (c : Container) (image : String) : Action LocalStore Unit := do
  let live ← container c
  let folder ← Action.ofExcept (imageFolder (← get).root image)
  clearImage folder
  onDisk s!"failed to persist image {image}" (Disk.copyAll live.folder folder)

def destroy (c : Container) : Action LocalStore Unit := do
  let live ← container c
  modify fun s => { s with containers := Roster.erase LiveContainer.id c.id s.containers }
  onDisk s!"failed to remove container {c.id}" (Disk.removeFolder live.folder)

/-- Adds a record of a snapshot, or replaces the one of the same name. The record in memory changes
even if the records cannot be written. -/
def register (s : Snapshot) : Action LocalStore Unit := do
  modify fun state => { state with snapshots := Roster.put Snapshot.name s state.snapshots }
  saveSnapshots

def deregister (name : String) : Action LocalStore Unit := do
  if !Roster.has Snapshot.name name (← get).snapshots then throw (.snapshotNotFound name)
  modify fun s => { s with snapshots := Roster.erase Snapshot.name name s.snapshots }
  saveSnapshots

def deleteImage (image : String) : Action LocalStore Unit := do
  let folder ← Action.ofExcept (imageFolder (← get).root image)
  onDisk s!"failed to delete image {image}" (Disk.removeFolder folder)

/-- Takes a program from a folder: its files become the image of a snapshot, which has the name of
the snapshot, and a record of the snapshot is added. -/
def importProgram (s : Snapshot) (source : String) : Action LocalStore Snapshot := do
  let s := { s with image := s.name }
  let folder ← Action.ofExcept (imageFolder (← get).root s.image)
  clearImage folder
  onDisk s!"failed to import {source}" (Disk.copyProgram source folder)
  register s
  return s

def backend : Backend LocalStore :=
  { lookup, fileText, provision, applyPatch, build, persist, destroy, register, deregister,
    deleteImage }

end LocalStore

end Mutagenesis
