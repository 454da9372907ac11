import Mutagenesis.Fault
import Mutagenesis.NameSet
import Mutagenesis.Template.Occurrence

/-!
# Constraints

A constraint narrows down the matches of a transformation: what a hole captured has to be a single
term, or something has to stand before the match.
-/

set_option autoImplicit false

namespace Mutagenesis

/-- A condition on a match. -/
inductive Constraint where
  /-- The hole has captured a text without blanks inside. -/
  | isSingleTerm (hole : String)
  /-- One of the options stands before the match, perhaps with blanks between. -/
  | precededBy (options : NameSet)
  deriving DecidableEq, Repr

namespace Constraint

/-- A constraint has to name a hole, or list an option. -/
def validate : Constraint → Except Fault Unit
  | isSingleTerm hole => if hole.isEmpty then .error (.badConfigFile .noHole) else .ok ()
  | precededBy options => if options.isEmpty then .error (.badConfigFile .noOptions) else .ok ()

/-- The text before an offset, if the offset is a character boundary of it. -/
def textBefore (text : List Char) (offset : Nat) : List Char :=
  match Text.splitAtByte? offset text with
  | some (before, _) => before
  | none => []

def holds (bindings : Bindings) (text : List Char) (start : Nat) : Constraint → Bool
  | isSingleTerm hole =>
    match bindings.get? hole with
    | none => false
    | some captured =>
      let term := Text.trim captured.toList
      !term.isEmpty && !term.any Text.isBlank
  | precededBy options =>
    let before := Text.trimEnd (textBefore text start)
    options.names.any fun option => Text.endsWith before option.toList

def allHold (constraints : List Constraint) (bindings : Bindings) (text : List Char)
    (start : Nat) : Bool :=
  constraints.all (holds bindings text start)

end Constraint

end Mutagenesis
