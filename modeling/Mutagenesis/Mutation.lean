import Mutagenesis.Bindings
import Mutagenesis.Fault

/-!
# Mutations, replacements and mutants

A mutation names a transformation, the place where it applies, and the texts of its holes. A
replacement is the text that shall stand at a place. A mutant is a built version of a snapshot with
mutations in it.
-/

set_option autoImplicit false

namespace Mutagenesis

open Json (Decoder Field Shape)

def decodeWritten {α : Type} (read : List Char → Except LocationFault α) : Decoder α := fun j => do
  let s ← Json.decodeString j
  match formatted .location (read s.toList) with
  | .ok a => return a
  | .error fault => .error (.rejected fault.message)

def Location.decode : Decoder Location := decodeWritten Location.read

def Span.decode : Decoder Span := decodeWritten Span.read

def FileSpan.decode : Decoder FileSpan := decodeWritten FileSpan.read

def Bindings.decode : Decoder Bindings := fun j => do
  return .ofList (← Json.decodeEntries Json.decodeString j)

def Bindings.toJson (b : Bindings) : Json :=
  .object (b.entries.map fun (name, text) => (name, .string text))

/-- A transformation of an operator at a place, with the texts of its holes. -/
structure Mutation where
  operator : String
  index : Nat
  location : FileSpan
  arguments : Bindings
  deriving DecidableEq, Repr

namespace Mutation

def shape : Shape :=
  ⟨"Mutation",
    [.required "operator" Json.decodeString,
     .required "transformation-index" Json.decodeNat,
     .required "location" FileSpan.decode,
     .optionalWith "arguments" Bindings.decode]⟩

def decodeIn (inTagged : Bool) : Decoder Mutation := fun j => do
  let record ← shape.readIn inTagged j
  return ⟨← record.get "operator" Json.decodeString,
    ← record.get "transformation-index" Json.decodeNat,
    ← record.get "location" FileSpan.decode,
    ← record.getD "arguments" Bindings.decode Bindings.empty⟩

def decode : Decoder Mutation :=
  decodeIn false

def toJson (m : Mutation) : Json :=
  .object [("operator", .string m.operator), ("transformation-index", .nat m.index),
    ("location", .string m.location.text), ("arguments", m.arguments.toJson)]

end Mutation

/-- The text that shall stand at a place. -/
structure Replacement where
  location : FileSpan
  text : String
  deriving DecidableEq, Repr

namespace Replacement

def shape : Shape :=
  ⟨"Replacement",
    [.required "location" FileSpan.decode, .required "text" Json.decodeString]⟩

def decode : Decoder Replacement := fun j => do
  let record ← shape.read j
  return ⟨← record.get "location" FileSpan.decode, ← record.get "text" Json.decodeString⟩

def toJson (r : Replacement) : Json :=
  .object [("location", .string r.location.text), ("text", .string r.text)]

end Replacement

namespace MutantId

def snapshotName (id : MutantId) : String :=
  "mutorch:" ++ id.text

def imageName (id : MutantId) : String :=
  "mutorch/" ++ id.text

end MutantId

/-- A built version of a snapshot with mutations in it. -/
structure Mutant where
  id : MutantId
  base : String
  mutations : List Mutation
  deriving DecidableEq, Repr

namespace Mutant

def shape : Shape :=
  ⟨"Mutant",
    [.required "uuid" MutantId.decode, .required "base" Json.decodeString,
     .required "mutations" (Json.decodeList Mutation.decode)]⟩

def decode : Decoder Mutant := fun j => do
  let record ← shape.read j
  return ⟨← record.get "uuid" MutantId.decode, ← record.get "base" Json.decodeString,
    ← record.get "mutations" (Json.decodeList Mutation.decode)⟩

def toJson (m : Mutant) : Json :=
  .object [("uuid", .string m.id.text), ("base", .string m.base),
    ("mutations", .array (m.mutations.map Mutation.toJson))]

end Mutant

end Mutagenesis
