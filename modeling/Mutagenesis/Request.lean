import Mutagenesis.Catalogue.Form
import Mutagenesis.Installation

/-!
# Requests

The requests that clients make of an installation, their JSON form, and their results.
-/

set_option autoImplicit false

namespace Mutagenesis

open Json (Decoder Field Tagged)

/-- What a client asks for. -/
inductive Request where
  | health
  | languages
  | language (name : String)
  | operators (language : Option String)
  | operator (name : String)
  | mutations (snapshot path : String) (filter : SearchFilter)
  | replacements (snapshot : String) (mutations : List Mutation)
  | diff (snapshot : String) (mutations : List Mutation)
  | mutate (snapshot : String) (mutations : List Mutation)
  | mutants
  | mutant (id : String)
  | deleteMutant (id : String)
  | clearMutants
  | shutdown
  deriving DecidableEq, Repr

namespace Request

def decodeMutations : Decoder (List Mutation) :=
  Json.decodeList (Mutation.decodeIn true)

def decodeName : Decoder (Option String) :=
  Json.decodeOption Json.decodeString

def decodeNames : Decoder (Option (List String)) :=
  Json.decodeOption (Json.decodeList Json.decodeString)

def decodeLines : Decoder (Option (List Nat)) :=
  Json.decodeOption (Json.decodeList Json.decodeNat)

def mutationFields : List Field :=
  [.required "snapshot" Json.decodeString, .required "mutations" decodeMutations]

def alternatives : Tagged :=
  ⟨"Request", "op",
    [⟨"health", "Health", []⟩,
     ⟨"languages", "Languages", []⟩,
     ⟨"language", "Language", [.required "name" Json.decodeString]⟩,
     ⟨"operators", "Operators", [.optionalWith "language" decodeName]⟩,
     ⟨"operator", "Operator", [.required "name" Json.decodeString]⟩,
     ⟨"mutations", "Mutations",
      [.required "snapshot" Json.decodeString, .required "filepath" Json.decodeString,
       .optionalWith "language" decodeName, .optionalWith "operators" decodeNames,
       .optionalWith "lines" decodeLines]⟩,
     ⟨"replacements", "Replacements", mutationFields⟩,
     ⟨"diff", "Diff", mutationFields⟩,
     ⟨"mutate", "Mutate", mutationFields⟩,
     ⟨"mutants", "Mutants", []⟩,
     ⟨"mutant", "Mutant", [.required "uuid" Json.decodeString]⟩,
     ⟨"delete-mutant", "DeleteMutant", [.required "uuid" Json.decodeString]⟩,
     ⟨"clear-mutants", "ClearMutants", []⟩,
     ⟨"shutdown", "Shutdown", []⟩]⟩

def ofRecord (tag : String) (record : Json.Record) : Except Json.DecodeFault Request := do
  match tag with
  | "health" => return health
  | "languages" => return languages
  | "language" => return language (← record.get "name" Json.decodeString)
  | "operators" => return operators (← record.getD "language" decodeName none)
  | "operator" => return operator (← record.get "name" Json.decodeString)
  | "mutations" =>
    let filter : SearchFilter :=
      ⟨← record.getD "language" decodeName none, ← record.getD "operators" decodeNames none,
        ← record.getD "lines" decodeLines none⟩
    return mutations (← record.get "snapshot" Json.decodeString)
      (← record.get "filepath" Json.decodeString) filter
  | "replacements" =>
    return replacements (← record.get "snapshot" Json.decodeString)
      (← record.get "mutations" decodeMutations)
  | "diff" =>
    return diff (← record.get "snapshot" Json.decodeString)
      (← record.get "mutations" decodeMutations)
  | "mutate" =>
    return mutate (← record.get "snapshot" Json.decodeString)
      (← record.get "mutations" decodeMutations)
  | "mutants" => return mutants
  | "mutant" => return mutant (← record.get "uuid" Json.decodeString)
  | "delete-mutant" => return deleteMutant (← record.get "uuid" Json.decodeString)
  | "clear-mutants" => return clearMutants
  | _ => return shutdown

def decode : Decoder Request := fun j => do
  let (tag, record) ← alternatives.read j
  ofRecord tag record

end Request

namespace FileEdits

def toJson (edits : List FileEdits) : Json :=
  .object (edits.map fun e => (e.file, .array (e.replacements.map Replacement.toJson)))

end FileEdits

namespace Installation

variable {σ : Type}

def health (i : Installation σ) (s : Session σ) : Json :=
  .object [("status", .string "ok"), ("languages", .nat i.catalogue.languages.length),
    ("operators", .nat i.catalogue.operators.length), ("mutants", .nat s.registry.length)]

def handle (i : Installation σ) : Request → Action (Session σ) Json
  | .health => do return i.health (← get)
  | .languages => return .array (i.catalogue.languages.map Language.toJson)
  | .language name => do
    return (← Action.ofExcept (i.catalogue.languages.get name)).toJson
  | .operators language => do
    return .array ((← Action.ofExcept (i.operators language)).map Operator.toJson)
  | .operator name => do
    return (← Action.ofExcept (i.catalogue.operators.get name)).toJson
  | .mutations snapshot path filter => do
    return .array ((← i.mutations snapshot path filter).map Mutation.toJson)
  | .replacements snapshot ms => do
    return FileEdits.toJson (← i.replacements snapshot ms)
  | .diff snapshot ms => do return .string (String.ofList (← i.diff snapshot ms))
  | .mutate snapshot ms => do return (← i.mutate snapshot ms).toJson
  | .mutants => do return .array ((← get).registry.map Mutant.toJson)
  | .mutant id => do
    return (← i.mutant (← Action.ofExcept (MutantId.parse id))).toJson
  | .deleteMutant id => do
    return (← i.deleteMutant (← Action.ofExcept (MutantId.parse id))).toJson
  | .clearMutants => do
    i.clearMutants
    return .null
  | .shutdown => return .string "shutting down"

end Installation

end Mutagenesis
