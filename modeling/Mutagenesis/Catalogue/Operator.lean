import Mutagenesis.Catalogue.Constraint
import Mutagenesis.Catalogue.Language

/-!
# Mutation operators

A transformation puts something else in the place of what its match template matches. An operator
is a named list of transformations for some languages.
-/

set_option autoImplicit false

namespace Mutagenesis

/-- A pair of templates, and the constraints on its matches. -/
structure Transformation where
  matchTemplate : String
  resultTemplate : String
  constraints : List Constraint
  deriving DecidableEq, Repr

/-- Adds a constraint, unless it is there. -/
def Transformation.withConstraint (t : Transformation) (c : Constraint) : Transformation :=
  if c ∈ t.constraints then t else { t with constraints := t.constraints ++ [c] }

/-- A named list of transformations for a set of languages. -/
structure Operator where
  name : String
  languages : NameSet
  transformations : List Transformation
  deriving DecidableEq, Repr

namespace Operator

/-- Checks what an operator has to have: a name, a language, a transformation, and valid
constraints. -/
def validate (o : Operator) : Except Fault Operator :=
  if o.name.isEmpty then .error (.badConfigFile .unnamedOperator)
  else if o.languages.isEmpty then .error (.badConfigFile (.noLanguages o.name))
  else if o.transformations.isEmpty then .error (.badConfigFile (.noTransformations o.name))
  else do
    (o.transformations.flatMap (·.constraints)).forM Constraint.validate
    return o

def supports (o : Operator) (language : String) : Bool :=
  o.languages.contains language

def transformation (o : Operator) (index : Nat) : Except Fault Transformation :=
  match o.transformations[index]? with
  | some t => .ok t
  | none => .error (.transformationNotFound o.name index)

end Operator

/-- The operators of a catalogue, in the order in which they came. -/
abbrev Operators := List Operator

namespace Operators

/-- Adds an operator; one of the same name is replaced in its place. Its languages have to be
known. -/
def add (os : Operators) (o : Operator) (ls : Languages) : Except Fault Operators :=
  match o.languages.names.find? fun name => !ls.has name with
  | some name => .error (.languageNotFound name)
  | none => .ok (Roster.put Operator.name o os)

def get (os : Operators) (name : String) : Except Fault Operator :=
  match Roster.find? Operator.name name os with
  | some o => .ok o
  | none => .error (.operatorNotFound name)

def has (os : Operators) (name : String) : Bool :=
  Roster.has Operator.name name os

def forLanguage (os : Operators) (language : String) : List Operator :=
  os.filter (·.supports language)

end Operators

end Mutagenesis
