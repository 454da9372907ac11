import Mutagenesis.Catalogue.BuiltIn
import Mutagenesis.Yaml.Value

/-!
# Layers as YAML documents

A layer of a catalogue is written as a YAML mapping with the fields `version`, `languages` and
`operators`. A text may be written as any scalar and is what stands there; only inside a constraint
a scalar that stands for something else is no text. Fields that are not known are passed over, and a
known field may come only once.
-/

set_option autoImplicit false

namespace Mutagenesis.Catalogue

open Yaml (Reading Value)

def misshapen {α : Type} (reason : String) : Reading α :=
  throw (.shape reason)

/-- The known fields among the entries of a mapping, by name. -/
def knownFields (known : List String) (seen : List (String × Yaml)) :
    List (Yaml × Yaml) → Reading (List (String × Yaml))
  | [] => return seen
  | (key, value) :: rest => do
    let name ← Reading.scalarText key
    if name ∉ known then knownFields known seen rest
    else if (seen.lookup name).isSome then misshapen s!"duplicate field: {name}"
    else knownFields known (seen ++ [(name, value)]) rest

def mappingFields (known : List String) (node : Yaml) : Reading (List (String × Yaml)) := do
  knownFields known [] (← Reading.entries node)

def requiredField {α : Type} (fields : List (String × Yaml)) (name : String)
    (read : Yaml → Reading α) : Reading α :=
  match fields.lookup name with
  | some value => read value
  | none => misshapen s!"missing field: {name}"

/-- A field that may be left out, with a list. -/
def optionalList {α : Type} (fields : List (String × Yaml)) (name : String)
    (read : Yaml → Reading α) : Reading (List α) := do
  match fields.lookup name with
  | some value => (← Reading.items value).mapM read
  | none => return []

/-- The texts of a sequence, as a set. -/
def textSet (node : Yaml) : Reading NameSet := do
  return .ofList (← (← Reading.items node).mapM Reading.scalarText)

def readLanguage (node : Yaml) : Reading Language := do
  let fields ← mappingFields ["name", "file-endings"] node
  return ⟨← requiredField fields "name" Reading.scalarText,
    ← requiredField fields "file-endings" textSet⟩

/-- The depth to which collections may be nested in a constraint. Around it are the mappings of the
layer, the operator and the transformation, with a sequence in each. -/
def constraintDepth : Nat := Reading.depthLimit - 6

/-- A part of a constraint, in which no tag of the document's own may stand. -/
def readContent (node : Yaml) : Reading Value := do
  let value ← Reading.value (constraintDepth - 1) node
  if value.hasTag then misshapen "tags are not supported in a constraint" else return value

def valueText : Value → Reading String
  | .text s => return s
  | _ => misshapen "expected a string"

/-- The constraint of a kind with the value of its only field. -/
def constraintOf (kind : String) (value : Value) : Reading Constraint :=
  if kind = "is-single-term" then return .isSingleTerm (← valueText value)
  else
    match value with
    | .sequence items => return .precededBy (.ofList (← items.mapM valueText))
    | _ => misshapen "expected a sequence"

/-- The name of the only field that a constraint of a kind has. -/
def constraintField? (kind : String) : Option String :=
  if kind = "is-single-term" then some "hole"
  else if kind = "preceded-by" then some "any-of"
  else none

/-- The name of the only field that a constraint of a kind has; there has to be such a kind. -/
def constraintField (kind : String) : Reading String :=
  match constraintField? kind with
  | some field => return field
  | none => misshapen s!"unknown variant: {kind}"

/-- A key stands for the only field of a constraint: by its name, or by the number zero. -/
def isFieldKey (field : String) : Value → Reading Bool
  | .text s => return s = field
  | .integer n false => return n = 0
  | _ => misshapen "expected the name of a field"

/-- The entries of a constraint: its kind, and what it holds besides. -/
def constraintParts (kind : Option String) (seen : List (Value × Value)) :
    List (Yaml × Yaml) → Reading (String × List (Value × Value))
  | [] =>
    match kind with
    | some kind => return (kind, seen)
    | none => misshapen "missing field: type"
  | (key, value) :: rest => do
    match ← readContent key with
    | .text "type" =>
      if kind.isSome then misshapen "duplicate field: type"
      constraintParts (some (← Reading.scalarText value)) seen rest
    | key => constraintParts kind (seen ++ [(key, ← readContent value)]) rest

/-- A constraint: a mapping with its kind under `type`, or a sequence that starts with its kind. -/
def readConstraint (node : Yaml) : Reading Constraint := do
  match ← Reading.follow node with
  | .mapping tag entries =>
    if (Value.ownTag? tag).isSome then misshapen "tags are not supported in a constraint"
    let (kind, parts) ← constraintParts none [] entries
    let field ← constraintField kind
    match ← parts.filterM fun part => isFieldKey field part.1 with
    | [part] => constraintOf kind part.2
    | [] => misshapen s!"missing field: {field}"
    | _ => misshapen s!"duplicate field: {field}"
  | .sequence tag (first :: items) =>
    if (Value.ownTag? tag).isSome then misshapen "tags are not supported in a constraint"
    let kind ← Reading.scalarText first
    let values ← items.mapM readContent
    discard (constraintField kind)
    match values with
    | [value] => constraintOf kind value
    | _ => misshapen "expected a kind and a field"
  | _ => misshapen "expected a constraint"

def readTransformation (node : Yaml) : Reading Transformation := do
  let fields ← mappingFields ["match", "rewrite", "constraints"] node
  return ⟨← requiredField fields "match" Reading.scalarText,
    ← requiredField fields "rewrite" Reading.scalarText,
    ← optionalList fields "constraints" readConstraint⟩

def readOperator (node : Yaml) : Reading Operator := do
  let fields ← mappingFields ["name", "languages", "transformations"] node
  return ⟨← requiredField fields "name" Reading.scalarText,
    ← requiredField fields "languages" textSet,
    ← requiredField fields "transformations" fun list => do
      (← Reading.items list).mapM readTransformation⟩

def versionOf : Value → LayerVersion
  | .text s => .text s
  | .integer n minus => .number (Value.isOne (.integer n minus))
  | .real x => .number (Value.isOne (.real x))
  | .special _ => .number false
  | _ => .other

/-- A scalar states no version: it stands for a null. -/
def isNoVersion (tag : Option Yaml.Tag) (plain : Bool) (s : String) : Except Yaml.Fault Bool :=
  if !plain then .ok false
  else
    match tag with
    | none => .ok (s.isEmpty || Value.isNull s)
    | some tag =>
      if tag = Value.commonTag "null" then
        if Value.isNull s then .ok true else .error .badTaggedScalar
      else .ok false

/-- The version that a node states, which holds no key twice; a null states none. -/
def readVersion (node : Yaml) : Reading (Option LayerVersion) := do
  let node ← Reading.follow node
  if let .scalar tag plain s := node then
    if ← liftM (isNoVersion tag plain s) then return none
  let value ← Reading.value (Reading.depthLimit - 1) node
  if value.repeatsKey then throw .duplicateKey
  return some (versionOf value)

def readLayer (node : Yaml) : Reading Layer := do
  let fields ← mappingFields ["version", "languages", "operators"] node
  let version ← match fields.lookup "version" with
    | some value => readVersion value
    | none => pure none
  return ⟨version, ← optionalList fields "languages" readLanguage,
    ← optionalList fields "operators" readOperator⟩

def parseLayer (text : List Char) : Except Fault Layer :=
  match Yaml.parse text >>= (Reading.run · readLayer) with
  | .ok layer => .ok layer
  | .error fault => .error (.badConfigFile (.malformed fault.message))

def extendText (c : Catalogue) (text : List Char) : Except Fault Catalogue := do
  c.extend (← parseLayer text)

end Mutagenesis.Catalogue
