import Mutagenesis.FileEdits
import Mutagenesis.Finder
import Mutagenesis.Session

/-!
# Installations

An installation joins a catalogue, a matcher and a backend. Its operations find the mutations of a
file, show what they change, and make, list and delete mutants. How lines are compared, and which
ids are drawn, are parts of it too: ids come by lot, so nothing may depend on which ones they are.

A mutant is made in a container that is destroyed again, whatever happens in it: the diff is applied
there, the result is built and kept as an image. Only then a record of the mutant's snapshot is
added, and last the mutant is registered.
-/

set_option autoImplicit false

namespace Mutagenesis

open Session (onStore)

/-- What an installation works with, apart from its backend. -/
structure Toolkit where
  catalogue : Catalogue
  matcher : Matcher
  compare : LineDiff.Comparison := LineDiff.script
  /-- The ids that are drawn, one after the other. -/
  ids : Nat → MutantId := MutantId.ofNumber

/-- A catalogue, a matcher and what else is needed, with a backend. -/
structure Installation (σ : Type) extends Toolkit where
  backend : Backend σ

namespace Installation

variable {σ : Type}

def snapshot (i : Installation σ) (name : String) : Action (Session σ) Snapshot :=
  onStore (i.backend.lookup name)

/-- All operators, or those that apply to a language. -/
def operators (i : Installation σ) (language : Option String) : Except Fault (List Operator) :=
  match language with
  | some name => do
    let language ← i.catalogue.languages.get name
    return i.catalogue.operators.forLanguage language.name
  | none => .ok i.catalogue.operators

/-- A search for the mutations of a file of a snapshot. Faults of the catalogue and of reading the
file come before it starts. -/
def search (i : Installation σ) (s : Snapshot) (path : String) (filter : SearchFilter) :
    Action (Session σ) Finder.Search := do
  let operators ← Action.ofExcept (Finder.operators i.catalogue path filter)
  let text ← Session.readSource i.backend s path
  return .start i.matcher path text.toList filter.lines operators

/-- The mutations of a file of a snapshot, with faults where they arise. -/
def findMutations (i : Installation σ) (s : Snapshot) (path : String) (filter : SearchFilter) :
    Action (Session σ) (List (Except Fault Mutation)) := do
  return (← i.search s path filter).items

/-- The mutations of a file of a snapshot; the first fault ends the search. -/
def mutations (i : Installation σ) (name path : String) (filter : SearchFilter) :
    Action (Session σ) (List Mutation) := do
  let s ← i.snapshot name
  let items ← i.findMutations s path filter
  Action.ofExcept (items.mapM id)

/-- The replacements of mutations of a snapshot, which has to be there. -/
def replacements (i : Installation σ) (name : String) (ms : List Mutation) :
    Action (Session σ) (List FileEdits) := do
  discard (i.snapshot name)
  Action.ofExcept (FileEdits.ofMutations i.catalogue ms)

def applyReplacements (i : Installation σ) (s : Snapshot) (file : String)
    (rs : List Replacement) : Action (Session σ) (List Char) := do
  let text ← Session.readSource i.backend s file
  Action.ofExcept (SourceText.splice text.toList rs)

/-- The diff of all files that mutations change. All files are read before the first is changed. -/
def diffOf (i : Installation σ) (s : Snapshot) (ms : List Mutation) :
    Action (Session σ) (List Char) := do
  let edits ← Action.ofExcept (FileEdits.ofMutations i.catalogue ms)
  Session.prefetch i.backend s (edits.map (·.file))
  let parts ← edits.mapM fun e => do
    let text ← Session.readSource i.backend s e.file
    Action.ofExcept (e.diff i.compare text.toList)
  return parts.flatten

def diff (i : Installation σ) (name : String) (ms : List Mutation) :
    Action (Session σ) (List Char) := do
  i.diffOf (← i.snapshot name) ms

/-- Applies a diff in a container, builds the result, and keeps it as an image. -/
def buildIn (i : Installation σ) (c : Container) (diff : String) (image : String) :
    Action σ Unit := do
  i.backend.applyPatch c diff
  match ← i.backend.build c with
  | .success => i.backend.persist c image
  | .failure output => throw (.buildFailure output)

/-- Builds a changed copy of a snapshot as an image. The container it takes is destroyed. -/
def buildImage (i : Installation σ) (s : Snapshot) (diff : String) (image : String) :
    Action σ Unit := do
  let c ← i.backend.provision s
  let outcome ← (i.buildIn c diff image).attempt
  (i.backend.destroy c).ignoring
  Action.ofExcept outcome

/-- Adds the record of a mutant's snapshot; if that fails, its image is deleted. -/
def addRecord (i : Installation σ) (record : Snapshot) : Action σ Unit := do
  match ← (i.backend.register record).attempt with
  | .ok _ => pure ()
  | .error fault =>
    (i.backend.deleteImage record.image).ignoring
    throw fault

/-- Makes and registers a mutant with at most one mutation. -/
def generate (i : Installation σ) (s : Snapshot) (ms : List Mutation) :
    Action (Session σ) Mutant := do
  if 1 < ms.length then throw (.higherOrder ms.length)
  let id ← Session.takeId i.ids
  if (← get).registry.has id then throw (.unexpected s!"UUID collision: {id.hyphenated}")
  let diff ← i.diffOf s ms
  onStore (i.buildImage s (String.ofList diff) id.imageName)
  onStore (i.addRecord (s.derive id.snapshotName id.imageName))
  let mutant : Mutant := ⟨id, s.name, ms⟩
  Session.register mutant
  return mutant

def mutate (i : Installation σ) (name : String) (ms : List Mutation) :
    Action (Session σ) Mutant := do
  i.generate (← i.snapshot name) ms

/-- Deletes the record and the image of a mutant, as far as that succeeds. -/
def release (i : Installation σ) (m : Mutant) : Action σ Unit := do
  (i.backend.deregister m.id.snapshotName).ignoring
  (i.backend.deleteImage m.id.imageName).ignoring

def mutant (_i : Installation σ) (id : MutantId) : Action (Session σ) Mutant := do
  Action.ofExcept ((← get).registry.get id)

def remove (i : Installation σ) (id : MutantId) : Action (Session σ) Mutant := do
  let (mutant, rest) ← Action.ofExcept ((← get).registry.remove id)
  Session.updateRegistry fun _ => rest
  onStore (i.release mutant)
  return mutant

def deleteMutant (i : Installation σ) (id : MutantId) : Action (Session σ) Mutant := do
  let mutant ← i.remove id
  Session.updateSources (·.forgetSnapshot id.snapshotName)
  return mutant

/-- Deletes what the backend holds of a mutant that is not registered. -/
def discardKept (i : Installation σ) (id : MutantId) : Action σ Unit := do
  let record ← match ← (i.backend.lookup id.snapshotName).attempt with
    | .ok record => pure record
    | .error (.snapshotNotFound _) => throw (.mutantNotFound id.text)
    | .error fault => throw fault
  i.backend.deregister id.snapshotName
  i.backend.deleteImage record.image

/-- Deletes a mutant, whether it is registered or was left by an earlier installation. -/
def discardMutant (i : Installation σ) (id : MutantId) : Action (Session σ) Unit := do
  if (← get).registry.has id then discard (i.remove id) else onStore (i.discardKept id)
  Session.updateSources (·.forgetSnapshot id.snapshotName)

def clearMutants (i : Installation σ) : Action (Session σ) Unit := do
  let mutants := (← get).registry
  mutants.forM fun m => Session.updateSources (·.forgetSnapshot m.id.snapshotName)
  Session.updateRegistry fun _ => []
  onStore (mutants.forM i.release)

end Installation

end Mutagenesis
