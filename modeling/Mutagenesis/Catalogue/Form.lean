import Mutagenesis.Catalogue
import Mutagenesis.Json.Decode

/-!
# JSON forms of a catalogue's entries

The JSON forms of constraints, transformations, operators and languages, and their decoders.
-/

set_option autoImplicit false

namespace Mutagenesis

open Json (Decoder Field Shape Tagged)

def NameSet.decode : Decoder NameSet := fun j => do
  return .ofList (← Json.decodeList Json.decodeString j)

namespace Constraint

def alternatives : Tagged :=
  ⟨"Constraint", "type",
    [⟨"is-single-term", "IsSingleTerm", [.required "hole" Json.decodeString]⟩,
     ⟨"preceded-by", "PrecededBy", [.required "any-of" NameSet.decode]⟩]⟩

def decode : Decoder Constraint := fun j => do
  let (tag, record) ← alternatives.read j
  if tag = "is-single-term" then return isSingleTerm (← record.get "hole" Json.decodeString)
  else return precededBy (← record.get "any-of" NameSet.decode)

def toJson : Constraint → Json
  | isSingleTerm hole => .object [("type", .string "is-single-term"), ("hole", .string hole)]
  | precededBy options =>
    .object [("type", .string "preceded-by"), ("any-of", .strings options.names)]

end Constraint

namespace Transformation

def shape : Shape :=
  ⟨"Transformation",
    [.required "match" Json.decodeString, .required "rewrite" Json.decodeString,
     .optionalWith "constraints" (Json.decodeList Constraint.decode)]⟩

def decode : Decoder Transformation := fun j => do
  let record ← shape.read j
  return ⟨← record.get "match" Json.decodeString, ← record.get "rewrite" Json.decodeString,
    ← record.getD "constraints" (Json.decodeList Constraint.decode) []⟩

def toJson (t : Transformation) : Json :=
  .object [("match", .string t.matchTemplate), ("rewrite", .string t.resultTemplate),
    ("constraints", .array (t.constraints.map Constraint.toJson))]

end Transformation

namespace Operator

def shape : Shape :=
  ⟨"OperatorDef",
    [.required "name" Json.decodeString, .required "languages" NameSet.decode,
     .required "transformations" (Json.decodeList Transformation.decode)]⟩

/-- Decodes an operator, which has to be valid. -/
def decode : Decoder Operator := fun j => do
  let record ← shape.read j
  let operator : Operator :=
    ⟨← record.get "name" Json.decodeString, ← record.get "languages" NameSet.decode,
      ← record.get "transformations" (Json.decodeList Transformation.decode)⟩
  match operator.validate with
  | .ok operator => return operator
  | .error fault => .error (.rejected fault.message)

def toJson (o : Operator) : Json :=
  .object [("name", .string o.name), ("languages", .strings o.languages.names),
    ("transformations", .array (o.transformations.map Transformation.toJson))]

end Operator

namespace Language

def shape : Shape :=
  ⟨"Language", [.required "name" Json.decodeString, .required "file-endings" NameSet.decode]⟩

def decode : Decoder Language := fun j => do
  let record ← shape.read j
  return ⟨← record.get "name" Json.decodeString, ← record.get "file-endings" NameSet.decode⟩

def toJson (l : Language) : Json :=
  .object [("name", .string l.name), ("file-endings", .strings l.endings.names)]

end Language

end Mutagenesis
