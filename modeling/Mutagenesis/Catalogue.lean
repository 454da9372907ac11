import Mutagenesis.Catalogue.Operator

/-!
# Catalogues

A catalogue holds the languages and the operators that an installation knows. It is built from
layers: each layer adds languages and operators to those of the layers below, and replaces those
of the same name.
-/

set_option autoImplicit false

namespace Mutagenesis

/-- The known languages and operators. -/
structure Catalogue where
  languages : Languages
  operators : Operators
  deriving DecidableEq, Repr

/-- What a layer states as its version. -/
inductive LayerVersion where
  /-- A text. -/
  | text (stated : String)
  /-- A number, of which it matters whether it equals one. -/
  | number (isOne : Bool)
  /-- Anything else. -/
  | other
  deriving DecidableEq, Repr

/-- The version is the supported one: the text `1.0`, or the number one. -/
def LayerVersion.supported : LayerVersion → Bool
  | text stated => stated = "1.0"
  | number isOne => isOne
  | other => false

/-- A layer as it is written down: its version, its languages, and its operators, which are not
checked yet. -/
structure Layer where
  version : Option LayerVersion
  languages : List Language
  operators : List Operator
  deriving DecidableEq, Repr

namespace Catalogue

/-- The catalogue without entries. -/
def empty : Catalogue := ⟨[], []⟩

def checkVersion (layer : Layer) : Except Fault Unit :=
  match layer.version with
  | none => .error (.badConfigFile .noVersion)
  | some v => if v.supported then .ok () else .error (.badConfigFile .badVersion)

/-- Adds operators in turn; `seen` lists the names of the layer's earlier operators, of which none
may come again. -/
def addOperators (ls : Languages) (seen : List String) :
    Operators → List Operator → Except Fault Operators
  | os, [] => .ok os
  | os, o :: rest =>
    if o.name ∈ seen then .error (.operatorNameTaken o.name)
    else do
      let o ← o.validate
      let os ← os.add o ls
      addOperators ls (seen ++ [o.name]) os rest

/-- Puts a layer on top of a catalogue: first its languages, then its operators. -/
def extend (c : Catalogue) (layer : Layer) : Except Fault Catalogue := do
  checkVersion layer
  let languages ← layer.languages.foldlM Languages.add c.languages
  let operators ← addOperators languages [] c.operators layer.operators
  return ⟨languages, operators⟩

end Catalogue

end Mutagenesis
