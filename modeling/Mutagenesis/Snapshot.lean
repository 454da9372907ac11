import Mutagenesis.Json.Decode

/-!
# Snapshots

A snapshot is a named version of a program that can be built: the image that holds its files, and
how to build it.
-/

set_option autoImplicit false

namespace Mutagenesis

open Json (Decoder Field Shape)

/-- A named version of a program. -/
structure Snapshot where
  name : String
  image : String
  program : Option String := none
  sourceDir : String := ""
  languages : List String := []
  buildCommand : Option String := none
  harness : Option String := none
  compiler : Option String := none
  filesToInstrument : List String := []
  deriving DecidableEq, Repr

namespace Snapshot

def derive (s : Snapshot) (name image : String) : Snapshot :=
  { s with name := name, image := image }

def optionalString : Decoder (Option String) :=
  Json.decodeOption Json.decodeString

def stringList : Decoder (List String) :=
  Json.decodeList Json.decodeString

def shape : Shape :=
  ⟨"Snapshot",
    [.required "name" Json.decodeString,
     .required "image" Json.decodeString,
     .optionalWith "program" optionalString,
     .optionalWith "source-dir" Json.decodeString,
     .optionalWith "languages" stringList,
     .optionalWith "build-command" optionalString,
     .optionalWith "harness" optionalString,
     .optionalWith "compiler" optionalString,
     .optionalWith "files-to-instrument" stringList]⟩

def decode : Decoder Snapshot := fun j => do
  let record ← shape.read j
  return {
    name := ← record.get "name" Json.decodeString
    image := ← record.get "image" Json.decodeString
    program := ← record.getD "program" optionalString none
    sourceDir := ← record.getD "source-dir" Json.decodeString ""
    languages := ← record.getD "languages" stringList []
    buildCommand := ← record.getD "build-command" optionalString none
    harness := ← record.getD "harness" optionalString none
    compiler := ← record.getD "compiler" optionalString none
    filesToInstrument := ← record.getD "files-to-instrument" stringList [] }

/-- A field that is left out if it has no value. -/
def optionalField (name : String) (value : Option String) : List (String × Json) :=
  match value with
  | some s => [(name, .string s)]
  | none => []

/-- A field that is left out if its list is empty. -/
def listField (name : String) (values : List String) : List (String × Json) :=
  if values.isEmpty then [] else [(name, .strings values)]

def toJson (s : Snapshot) : Json :=
  .object ([("name", .string s.name), ("image", .string s.image)] ++
    optionalField "program" s.program ++
    [("source-dir", .string s.sourceDir)] ++
    listField "languages" s.languages ++
    optionalField "build-command" s.buildCommand ++
    optionalField "harness" s.harness ++
    optionalField "compiler" s.compiler ++
    listField "files-to-instrument" s.filesToInstrument)

end Snapshot

end Mutagenesis
