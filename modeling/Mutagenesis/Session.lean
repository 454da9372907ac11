import Mutagenesis.Backend
import Mutagenesis.Registry
import Mutagenesis.SourceCache
import Mutagenesis.SourceQuestion

/-!
# Sessions

The state of an installation at work: what its backend holds, the sources read so far, the mutants
registered, and the number of the next id.
-/

set_option autoImplicit false

namespace Mutagenesis

/-- The state of an installation. -/
structure Session (σ : Type) where
  store : σ
  sources : SourceCache := []
  registry : Registry := []
  nextId : Nat := 0

namespace Session

variable {σ α : Type}

def onStore (act : Action σ α) : Action (Session σ) α :=
  act.on store fun s store => { s with store := store }

def updateSources (f : SourceCache → SourceCache) : Action (Session σ) Unit :=
  modify fun s => { s with sources := f s.sources }

def updateRegistry (f : Registry → Registry) : Action (Session σ) Unit :=
  modify fun s => { s with registry := f s.registry }

/-- Draws the next one of some ids. -/
def takeId (ids : Nat → MutantId) : Action (Session σ) MutantId := fun s =>
  .ok (ids s.nextId) { s with nextId := s.nextId + 1 }

/-- Registers a mutant, whose id must not be in use. -/
def register (m : Mutant) : Action (Session σ) Unit := do
  match (← get).registry.insert? m with
  | some registry => updateRegistry fun _ => registry
  | none => throw (.unexpected (Registry.collision m.id))

/-- The text of a file of a snapshot. It is read from the backend once and kept. -/
def readSource (backend : Backend σ) (snapshot : Snapshot) (path : String) :
    Action (Session σ) String := do
  match (← get).sources.text? snapshot.name path with
  | some text => return text
  | none =>
    let text ← onStore (backend.fileText snapshot path)
    updateSources (·.add snapshot.name path text)
    return text

/-- Answers a question about a file of a snapshot. -/
def ask (backend : Backend σ) (snapshot : Snapshot) (q : SourceQuestion) :
    Action (Session σ) q.Answer := do
  let text ← readSource backend snapshot q.path
  Action.ofExcept (formatted .position (q.answer text.toList))

/-- Reads files of a snapshot, so that they are kept. -/
def prefetch (backend : Backend σ) (snapshot : Snapshot) (paths : List String) :
    Action (Session σ) Unit :=
  paths.forM fun path => discard (readSource backend snapshot path)

end Session

end Mutagenesis
