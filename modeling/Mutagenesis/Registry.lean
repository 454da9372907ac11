import Mutagenesis.Mutation

/-!
# The registry of mutants

The mutants that an installation has made and not yet deleted, in the order of their creation. No
two have the same id.
-/

set_option autoImplicit false

namespace Mutagenesis

/-- The registered mutants, the oldest first. -/
abbrev Registry := List Mutant

namespace Registry

def has (r : Registry) (id : MutantId) : Bool :=
  r.any (·.id = id)

def get (r : Registry) (id : MutantId) : Except Fault Mutant :=
  match r.find? (·.id = id) with
  | some m => .ok m
  | none => .error (.mutantNotFound id.text)

def collision (id : MutantId) : String :=
  s!"UUID collision: mutant {id.hyphenated} already registered"

/-- Registers a mutant; none if its id is in use. -/
def insert? (r : Registry) (m : Mutant) : Option Registry :=
  if r.has m.id then none else some (r ++ [m])

def remove (r : Registry) (id : MutantId) : Except Fault (Mutant × Registry) := do
  let m ← r.get id
  return (m, r.filter (·.id ≠ id))

end Registry

end Mutagenesis
