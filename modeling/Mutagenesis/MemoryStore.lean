import Mutagenesis.Backend
import Mutagenesis.Patch.Reader
import Mutagenesis.Roster

/-!
# A backend in memory

Images and containers are maps from paths to texts. Every call is noted in a log before it does
anything, and calls can be made to fail.
-/

set_option autoImplicit false

namespace Mutagenesis

/-- The texts of files by path. -/
abbrev Files := List (String × String)

/-- Files under a name: an image or a container. -/
structure FileSet where
  name : String
  files : Files
  deriving DecidableEq, Repr

/-- The state of a backend in memory. -/
structure MemoryStore where
  snapshots : List Snapshot
  images : List FileSet
  containers : List FileSet := []
  nextContainer : Nat := 0
  /-- The calls that fail; `compile` makes builds end in failure. -/
  failing : List String := []
  buildOutput : String := ""
  /-- The calls so far, the latest last. -/
  log : List String := []
  deriving DecidableEq, Repr

namespace MemoryStore

/-- Notes a call; if it is one of those that fail, it fails. -/
def enter (call : String) (about : List String) : Action MemoryStore Unit := fun s =>
  let s := { s with log := s.log ++ [" ".intercalate (call :: about)] }
  if call ∈ s.failing then .error (.unexpected s!"{call} failed") s else .ok () s

/-- The files of an image; an image that is not there has none. -/
def imageFiles (s : MemoryStore) (image : String) : Files :=
  ((Roster.find? FileSet.name image s.images).map (·.files)).getD []

/-- The files of a container; a container that is not there has none. -/
def containerFiles (s : MemoryStore) (id : String) : Files :=
  ((Roster.find? FileSet.name id s.containers).map (·.files)).getD []

def patchFiles (files : Files) (p : FilePatch) : Except Fault Files :=
  match files.lookup p.path with
  | none => .error (.fileNotFound p.path)
  | some text => do
    let changed ← formatted .patch (p.apply text.toList)
    return Roster.put Prod.fst (p.path, String.ofList changed) files

def lookup (name : String) : Action MemoryStore Snapshot := do
  enter "lookup" [name]
  match Roster.find? Snapshot.name name (← get).snapshots with
  | some s => return s
  | none => throw (.snapshotNotFound name)

def fileText (s : Snapshot) (path : String) : Action MemoryStore String := do
  enter "read" [s.name, path]
  match ((← get).imageFiles s.image).lookup path with
  | some text => return text
  | none => throw (.fileNotFound path)

def provision (s : Snapshot) : Action MemoryStore Container := do
  enter "provision" [s.name]
  let state ← get
  let id := s!"c{state.nextContainer}"
  set { state with
    nextContainer := state.nextContainer + 1
    containers := state.containers ++ [FileSet.mk id (state.imageFiles s.image)] }
  return ⟨id, s.name⟩

def applyPatch (c : Container) (diff : String) : Action MemoryStore Unit := do
  enter "patch" [c.id]
  let patches ← Action.ofExcept (formatted .patch (Diff.parse diff.toList))
  let files ← Action.ofExcept (patches.foldlM patchFiles ((← get).containerFiles c.id))
  modify fun s => { s with containers := Roster.put FileSet.name ⟨c.id, files⟩ s.containers }

/-- Builds what is in a container, which changes no file. -/
def build (c : Container) : Action MemoryStore BuildOutcome := do
  enter "build" [c.id]
  let s ← get
  return if "compile" ∈ s.failing then .failure s.buildOutput else .success

def persist (c : Container) (image : String) : Action MemoryStore Unit := do
  enter "persist" [c.id, image]
  modify fun s =>
    { s with images := Roster.put FileSet.name ⟨image, s.containerFiles c.id⟩ s.images }

def destroy (c : Container) : Action MemoryStore Unit := do
  enter "destroy" [c.id]
  modify fun s => { s with containers := Roster.erase FileSet.name c.id s.containers }

/-- Adds a record of a snapshot, or replaces the one of the same name. -/
def register (s : Snapshot) : Action MemoryStore Unit := do
  enter "register" [s.name]
  modify fun state => { state with snapshots := Roster.put Snapshot.name s state.snapshots }

def deregister (name : String) : Action MemoryStore Unit := do
  enter "deregister" [name]
  if Roster.has Snapshot.name name (← get).snapshots then
    modify fun s => { s with snapshots := Roster.erase Snapshot.name name s.snapshots }
  else throw (.snapshotNotFound name)

def deleteImage (image : String) : Action MemoryStore Unit := do
  enter "delete-image" [image]
  if Roster.has FileSet.name image (← get).images then
    modify fun s => { s with images := Roster.erase FileSet.name image s.images }
  else throw (.unexpected s!"no such image: {image}")

def backend : Backend MemoryStore :=
  { lookup, fileText, provision, applyPatch, build, persist, destroy, register, deregister,
    deleteImage }

end MemoryStore

end Mutagenesis
