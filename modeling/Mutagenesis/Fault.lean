import Mutagenesis.Location
import Mutagenesis.MutantId
import Mutagenesis.SourceText
import Mutagenesis.Template.Token
import Mutagenesis.Patch
import Mutagenesis.Json.Reader
import Mutagenesis.Json.Decode

/-!
# Faults

Everything that can go wrong in an operation, as one type. A fault has a kind, a message and a
status, and some carry data about their cause; `toJson` gives all of it for clients.
-/

set_option autoImplicit false

namespace Mutagenesis

/-- Why a text or a value is not in the expected format. -/
inductive FormatFault where
  /-- A written location, span or file span. -/
  | location (cause : LocationFault)
  /-- A position that a text does not have. -/
  | position (cause : PositionFault)
  /-- A template. -/
  | template (cause : TemplateFault)
  /-- A diff, or a file it does not apply to. -/
  | patch (cause : PatchFault)
  /-- A replacement that starts inside an earlier one or stops before it starts. -/
  | replacement (span : FileSpan)
  /-- A path that could leave its directory. -/
  | notRelative (path : String)
  /-- The written form of a mutant's id. -/
  | mutantId (given : String) (flaw : MutantId.Flaw)
  /-- A text that is not JSON. -/
  | json (cause : Json.SyntaxFault)
  /-- A JSON value of the wrong shape. -/
  | value (cause : Json.DecodeFault)
  /-- A document, named by its path, and what is wrong with it. -/
  | document (path reason : String)
  /-- Another reason. -/
  | other (reason : String)
  deriving DecidableEq, Repr

def FormatFault.message : FormatFault → String
  | location cause => cause.message
  | position cause => cause.message
  | template cause => cause.message
  | patch cause => cause.message
  | replacement span => "invalid replacement range " ++ span.text
  | notRelative path => s!"expected a relative path: {path}"
  | mutantId given flaw => s!"bad mutant id '{given}': {flaw.message}"
  | json cause => cause.message
  | value cause => cause.message
  | document path reason => s!"{path}: {reason}"
  | other reason => reason

/-- Why a configuration cannot be used. -/
inductive ConfigFault where
  /-- Two languages share a file ending. -/
  | sharedEnding (ending : String)
  /-- A snapshot's build command has no words. -/
  | emptyBuildCommand
  /-- Another reason. -/
  | other (reason : String)
  deriving DecidableEq, Repr

def ConfigFault.message : ConfigFault → String
  | sharedEnding ending => s!"file ending ambiguity: '{ending}' is used by two or more languages"
  | emptyBuildCommand => "empty build command"
  | other reason => reason

/-- Why a configuration file cannot be read. -/
inductive ConfigFileFault where
  /-- The document is not well formed, or a part of it has the wrong shape. -/
  | malformed (reason : String)
  /-- The document does not state a version. -/
  | noVersion
  /-- The version is not the supported one. -/
  | badVersion
  /-- An operator has no name. -/
  | unnamedOperator
  /-- An operator applies to no language. -/
  | noLanguages (operator : String)
  /-- An operator has no transformation. -/
  | noTransformations (operator : String)
  /-- A constraint on a single term names no hole. -/
  | noHole
  /-- A constraint on what stands before a match lists nothing. -/
  | noOptions
  /-- The file cannot be read. -/
  | unreadable (path reason : String)
  /-- Another reason. -/
  | other (reason : String)
  deriving DecidableEq, Repr

def ConfigFileFault.message : ConfigFileFault → String
  | malformed reason => reason
  | noVersion => "expected 'version' property"
  | badVersion => "unexpected 'version' property; only '1.0' is currently supported."
  | unnamedOperator => "operator must have a non-empty name"
  | noLanguages operator => s!"operator {operator} must support at least one language"
  | noTransformations operator =>
    s!"operator {operator} must implement at least one transformation"
  | noHole => "is-single-term constraint requires a hole name"
  | noOptions => "preceded-by constraint requires at least one option"
  | unreadable path reason => s!"failed to read {path}: {reason}"
  | other reason => reason

/-- Why an operation failed. -/
inductive Fault where
  | languageNotFound (name : String)
  | languageNotDetected (file : String)
  | operatorNotFound (name : String)
  | operatorNameTaken (name : String)
  | transformationNotFound (operator : String) (index : Nat)
  | illegalConfig (cause : ConfigFault)
  | badConfigFile (cause : ConfigFileFault)
  | fileNotFound (path : String)
  | snapshotNotFound (name : String)
  | mutantNotFound (id : String)
  | buildFailure (output : String)
  | badFormat (cause : FormatFault)
  | higherOrder (count : Nat)
  | unexpected (what : String)
  deriving DecidableEq, Repr

namespace Fault

/-- A failure of something outside, in the course of doing something. -/
def during (doing reason : String) : Fault :=
  .unexpected s!"{doing}: {reason}"

def kind : Fault → String
  | languageNotFound _ => "LanguageNotFound"
  | languageNotDetected _ => "LanguageNotDetected"
  | operatorNotFound _ => "OperatorNotFound"
  | operatorNameTaken _ => "OperatorNameAlreadyExists"
  | transformationNotFound _ _ => "TransformationNotFound"
  | illegalConfig _ => "IllegalConfig"
  | badConfigFile _ => "BadConfigFile"
  | fileNotFound _ => "FileNotFound"
  | snapshotNotFound _ => "SnapshotNotFound"
  | mutantNotFound _ => "MutantNotFound"
  | buildFailure _ => "BuildFailure"
  | badFormat _ => "BadFormat"
  | higherOrder _ => "HigherOrderMutation"
  | unexpected _ => "UnexpectedServerError"

def message : Fault → String
  | languageNotFound name => s!"no language registered with name: {name}"
  | languageNotDetected file => s!"unable to automatically detect language used by file: {file}"
  | operatorNotFound name => s!"no operator registered with name: {name}"
  | operatorNameTaken name => s!"operator name is already in use: {name}"
  | transformationNotFound operator index =>
    s!"operator {operator} has no transformation at index {index}"
  | illegalConfig cause => s!"illegal configuration: {cause.message}"
  | badConfigFile cause => s!"bad configuration file: {cause.message}"
  | fileNotFound path => s!"file not found: {path}"
  | snapshotNotFound name => s!"no snapshot registered with name: {name}"
  | mutantNotFound id => s!"mutant not found: {id}"
  | buildFailure _ => "failed to build mutant."
  | badFormat cause => s!"unexpected format: {cause.message}"
  | higherOrder count =>
    s!"higher-order mutation is currently unsupported ({count} mutations given)"
  | unexpected what => s!"unexpected error: {what}"

/-- The status of a fault: 404 for what does not exist, 409 for a name in use, 400 for a bad
request, 500 for the rest. -/
def status : Fault → Nat
  | languageNotFound _ | operatorNotFound _ | transformationNotFound _ _ | fileNotFound _
  | snapshotNotFound _ | mutantNotFound _ => 404
  | operatorNameTaken _ => 409
  | languageNotDetected _ | buildFailure _ | badFormat _ | higherOrder _ => 400
  | illegalConfig _ | badConfigFile _ | unexpected _ => 500

def data? : Fault → Option Json
  | languageNotFound name | operatorNotFound name | operatorNameTaken name | fileNotFound name
  | snapshotNotFound name => some (.object [("name", .string name)])
  | languageNotDetected file => some (.object [("filename", .string file)])
  | mutantNotFound id => some (.object [("uuid", .string id)])
  | transformationNotFound operator index =>
    some (.object [("operator", .string operator), ("index", .nat index)])
  | badFormat cause => some (.object [("reason", .string cause.message)])
  | buildFailure output =>
    if output.isEmpty then none else some (.object [("output", .string output)])
  | unexpected what => some (.object [("message", .string what)])
  | illegalConfig _ | badConfigFile _ | higherOrder _ => none

def toJson (f : Fault) : Json :=
  .object [("error", .object ([("kind", .string f.kind), ("message", .string f.message)] ++
    (f.data?.map fun data => ("data", data)).toList))]

end Fault

/-- The outcome of a part of an operation as an outcome of the operation: a fault in a format is
wrapped as one. -/
def formatted {ε α : Type} (wrap : ε → FormatFault) : Except ε α → Except Fault α
  | .ok a => .ok a
  | .error e => .error (.badFormat (wrap e))

def MutantId.parse (given : String) : Except Fault MutantId :=
  formatted (.mutantId given) (read given.toList)

end Mutagenesis
