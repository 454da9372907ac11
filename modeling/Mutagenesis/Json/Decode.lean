import Mutagenesis.Json.Want
import Mutagenesis.Text.Quoted

/-!
# Decoding JSON values

Decoders turn a JSON value into a value of another type, or say why it is none. A record is
written as an object, or as an array of its fields in their order. `Shape` lists the fields of a
record; `Shape.read` checks an object or an array against it and gives the fields that are there.
-/

set_option autoImplicit false

namespace Mutagenesis.Json

/-- Why a JSON value cannot be decoded. -/
inductive DecodeFault where
  /-- A field that a record must have is not there. -/
  | missingField (name : String)
  /-- A field of a record is there twice. -/
  | duplicateField (name : String)
  /-- A value of another kind is expected. -/
  | invalidType (found expected : String)
  /-- Another value of that kind is expected. -/
  | invalidValue (found expected : String)
  /-- An array has too few or too many items. -/
  | invalidLength (length : Nat) (expected : String)
  /-- A tag names no known alternative. -/
  | unknownVariant (name : String) (known : List String)
  /-- The value has the right shape, but its type does not admit it. -/
  | rejected (reason : String)
  deriving DecidableEq, Repr

def ticked (name : String) : String :=
  "`" ++ name ++ "`"

def alternatives (known : List String) : String :=
  match known with
  | [a, b] => ticked a ++ " or " ++ ticked b
  | _ => "one of " ++ ", ".intercalate (known.map ticked)

def DecodeFault.message : DecodeFault → String
  | missingField name => "missing field " ++ ticked name
  | duplicateField name => "duplicate field " ++ ticked name
  | invalidType found expected => s!"invalid type: {found}, expected {expected}"
  | invalidValue found expected => s!"invalid value: {found}, expected {expected}"
  | invalidLength length expected => s!"invalid length {length}, expected {expected}"
  | unknownVariant name known =>
    "unknown variant " ++ ticked name ++ ", expected " ++ alternatives known
  | rejected reason => reason

/-- Decodes a value of a type from JSON. -/
abbrev Decoder (α : Type) := Json → Except DecodeFault α

def describe : Json → String
  | .null => "null"
  | .bool true => "boolean `true`"
  | .bool false => "boolean `false`"
  | .number (.integer n) => "integer " ++ ticked (toString n)
  | .number (.real x) => "floating point " ++ ticked x.text
  | .string s => "string " ++ Text.quoted s
  | .array _ => "sequence"
  | .object _ => "map"

/-- The value is of another kind than the expected one. -/
def wrongType {α : Type} (j : Json) (expected : String) : Except DecodeFault α :=
  .error (.invalidType j.describe expected)

def decodeString : Decoder String
  | .string s => .ok s
  | j => wrongType j "a string"

def decodeNat : Decoder Nat
  | .number (.integer n) =>
    if n < 0 then .error (.invalidValue ("integer " ++ ticked (toString n)) "usize")
    else .ok n.toNat
  | j => wrongType j "usize"

/-- Decodes an array, item by item. -/
def decodeList {α : Type} (item : Decoder α) : Decoder (List α)
  | .array items => items.mapM item
  | j => wrongType j "a sequence"

/-- Decodes an object as entries, field by field. -/
def decodeEntries {α : Type} (value : Decoder α) : Decoder (List (String × α))
  | .object fields => fields.mapM fun (name, j) => do return (name, ← value j)
  | j => wrongType j "a map"

def decodeOption {α : Type} (inner : Decoder α) : Decoder (Option α)
  | .null => .ok none
  | j => some <$> inner j

/-- A field of a record: its name, whether it may be missing, and a check of its value. -/
structure Field where
  name : String
  optional : Bool
  check : Json → Except DecodeFault Unit

namespace Field

def required {α : Type} (name : String) (decode : Decoder α) : Field :=
  ⟨name, false, fun j => do discard (decode j)⟩

def optionalWith {α : Type} (name : String) (decode : Decoder α) : Field :=
  ⟨name, true, fun j => do discard (decode j)⟩

end Field

/-- The fields of a record in their order, and how messages call the record. -/
structure Shape where
  name : String
  fields : List Field

/-- The fields of a record that are there, by name. -/
abbrev Record := List (String × Json)

namespace Record

def get {α : Type} (r : Record) (name : String) (decode : Decoder α) : Except DecodeFault α :=
  match r.lookup name with
  | none => .error (.missingField name)
  | some j => decode j

/-- Decodes a field if it is there. -/
def getD {α : Type} (r : Record) (name : String) (decode : Decoder α) (default : α) :
    Except DecodeFault α :=
  match r.lookup name with
  | none => .ok default
  | some j => decode j

end Record

namespace Shape

/-- Checks the fields of an object in their order; fields that the shape does not know are passed
over. -/
def checkFields (shape : Shape) (seen : Record) : Record → Except DecodeFault Record
  | [] => .ok seen
  | (name, j) :: rest =>
    match shape.fields.find? (·.name = name) with
    | none => checkFields shape seen rest
    | some field =>
      if (seen.lookup name).isSome then .error (.duplicateField name)
      else do
        field.check j
        checkFields shape (seen ++ [(name, j)]) rest

def checkPresent (seen : Record) : List Field → Except DecodeFault Unit
  | [] => .ok ()
  | field :: rest =>
    if !field.optional && (seen.lookup field.name).isNone then .error (.missingField field.name)
    else checkPresent seen rest

def countOf (n : Nat) (thing : String) : String :=
  if n = 1 then s!"1 {thing}" else s!"{n} {thing}s"

/-- Checks the items of an array against the fields; `index` items are behind. What is wrong with
the length is said with `expected`. -/
def checkItems (expected : String) (index : Nat) :
    List Field → List Json → Except DecodeFault Record
  | [], _ => .ok []
  | field :: fields, [] =>
    if field.optional then checkItems expected index fields []
    else .error (.invalidLength index expected)
  | field :: fields, j :: rest => do
    field.check j
    return (field.name, j) :: (← checkItems expected (index + 1) fields rest)

def itemsOf (n : Nat) : String :=
  countOf n "element" ++ " in sequence"

/-- Reads the fields of a record from an object or an array of them. If the array is too long, the
fault says how many items there should be only if the record is a part of a tagged value. -/
def readIn (shape : Shape) (inTagged : Bool) : Json → Except DecodeFault Record
  | .object fields => do
    let seen ← shape.checkFields [] fields
    checkPresent seen shape.fields
    return seen
  | .array items => do
    let expected := "struct " ++ shape.name ++ " with " ++ countOf shape.fields.length "element"
    let seen ← checkItems expected 0 shape.fields items
    if shape.fields.length < items.length then
      .error (.invalidLength items.length
        (if inTagged then itemsOf shape.fields.length else "fewer elements in array"))
    else return seen
  | j => wrongType j ("struct " ++ shape.name)

def read (shape : Shape) : Json → Except DecodeFault Record :=
  shape.readIn false

def want (shape : Shape) : Want :=
  .record (shape.fields.map fun field => (field.name, .everything))

end Shape

/-- An alternative of a tagged type: its tag and the shape of its fields. -/
structure Variant where
  tag : String
  name : String
  fields : List Field

/-- The alternatives of a tagged type, the field that holds the tag, and how messages call the
type. -/
structure Tagged where
  name : String
  tagField : String
  variants : List Variant

namespace Tagged

def variant (t : Tagged) : Decoder Variant
  | .string tag =>
    match t.variants.find? (·.tag = tag) with
    | some v => .ok v
    | none => .error (.unknownVariant tag (t.variants.map (·.tag)))
  | j => wrongType j "variant identifier"

/-- Reads a tagged value: the tag decides which fields follow. It is an object with the tag as a
field, or an array with the tag as its first item. -/
def read (t : Tagged) : Json → Except DecodeFault (String × Record)
  | .object fields =>
    match fields.filter (·.1 = t.tagField) with
    | [] => .error (.missingField t.tagField)
    | _ :: _ :: _ => .error (.duplicateField t.tagField)
    | [(_, tag)] => do
      let v ← t.variant tag
      let shape : Shape := ⟨v.name, v.fields⟩
      let seen ← shape.checkFields [] (fields.filter (·.1 ≠ t.tagField))
      Shape.checkPresent seen v.fields
      return (v.tag, seen)
  | .array [] => .error (.missingField t.tagField)
  | .array (tag :: items) => do
    let v ← t.variant tag
    let expected := "struct variant " ++ t.name ++ "::" ++ v.name ++ " with " ++
      Shape.countOf v.fields.length "element"
    let seen ← Shape.checkItems expected 0 v.fields items
    if v.fields.length < items.length then
      .error (.invalidLength items.length (Shape.itemsOf v.fields.length))
    else return (v.tag, seen)
  | j => wrongType j ("internally tagged enum " ++ t.name)

end Tagged

end Mutagenesis.Json
