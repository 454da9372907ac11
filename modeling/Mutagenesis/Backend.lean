import Mutagenesis.Fault
import Mutagenesis.Snapshot

/-!
# Backends

A backend keeps images of programs, records of snapshots, and containers in which a changed copy of
an image is built. Its operations act on a state of the backend's own type and may fail; what a
failed operation has changed stays changed.
-/

set_option autoImplicit false

namespace Mutagenesis

/-- A place where a changed copy of an image is built. -/
structure Container where
  id : String
  snapshot : String
  deriving DecidableEq, Repr

/-- How a build ended. -/
inductive BuildOutcome where
  | success
  | failure (output : String)
  deriving DecidableEq, Repr

/-- An action on a state that may fail. -/
abbrev Action (σ α : Type) := EStateM Fault σ α

namespace Action

variable {σ τ α : Type}

/-- An outcome that does not depend on the state. -/
def ofExcept : Except Fault α → Action σ α
  | .ok a => fun s => .ok a s
  | .error fault => fun s => .error fault s

/-- Runs an action; its fault becomes part of the outcome. -/
def attempt (act : Action σ α) : Action σ (Except Fault α) := fun s =>
  match act s with
  | .ok a s => .ok (.ok a) s
  | .error fault s => .ok (.error fault) s

/-- Runs an action, whether it fails or not. -/
def ignoring (act : Action σ α) : Action σ Unit := do
  discard (attempt act)

def on (view : τ → σ) (update : τ → σ → τ) (act : Action σ α) : Action τ α := fun t =>
  match act (view t) with
  | .ok a s => .ok a (update t s)
  | .error fault s => .error fault (update t s)

end Action

/-- The operations of a backend with states of type `σ`. -/
structure Backend (σ : Type) where
  /-- The record of a snapshot. -/
  lookup : (name : String) → Action σ Snapshot
  /-- The text of a file of a snapshot. -/
  fileText : Snapshot → (path : String) → Action σ String
  /-- A new container with a copy of a snapshot's image. -/
  provision : Snapshot → Action σ Container
  /-- Applies a diff to the files of a container. -/
  applyPatch : Container → (diff : String) → Action σ Unit
  /-- Builds what is in a container. -/
  build : Container → Action σ BuildOutcome
  /-- Keeps what is in a container as an image. -/
  persist : Container → (image : String) → Action σ Unit
  /-- Removes a container. -/
  destroy : Container → Action σ Unit
  /-- Adds a record of a snapshot, or replaces the one of the same name. -/
  register : Snapshot → Action σ Unit
  /-- Removes the record of a snapshot. -/
  deregister : (name : String) → Action σ Unit
  /-- Removes an image. -/
  deleteImage : (image : String) → Action σ Unit

end Mutagenesis
