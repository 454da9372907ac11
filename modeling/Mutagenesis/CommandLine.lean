import Mutagenesis.Catalogue.Document
import Mutagenesis.CommandLine.Arguments
import Mutagenesis.CommandLine.Report
import Mutagenesis.Local
import Mutagenesis.Server

/-!
# The command line

A run of the command line reads its arguments, loads the catalogue, prepares the backend on the
disk, and carries out a task. It gives what is printed, the exit code, and the disk after it.
-/

set_option autoImplicit false

namespace Mutagenesis.CommandLine

/-- What a run finds around it. -/
structure Surroundings where
  environment : List (String × String) := []
  input : String := ""
  terminal : Bool := false
  deriving Repr

namespace Surroundings

def setting? (s : Surroundings) (name : String) : Option String :=
  s.environment.lookup name

def root (s : Surroundings) : Option String :=
  s.setting? "MUTORCH_ROOT"

def userConfig (s : Surroundings) : Option String :=
  s.setting? "MUTORCH_USER_CONFIG"

def home (s : Surroundings) : Option String :=
  s.setting? "HOME"

/-- Output is painted: on a terminal unless the environment forbids it, and elsewhere if the
environment asks for it. -/
def colour (s : Surroundings) : Bool :=
  (s.terminal && (s.setting? "CLICOLOR").getD "1" != "0") ||
    (s.setting? "CLICOLOR_FORCE").getD "0" != "0"

end Surroundings

/-- What a run leaves. -/
structure Outcome where
  code : Nat
  output : String
  errors : String
  disk : Disk

def homeConfig : String := ".mutorch.yml"

/-- The path of the configuration file to read. One that is given has to be there; the one that the
environment or the home folder offers is read only if it is a file. -/
def configPath? (d : Disk) (s : Surroundings) (given : Option String) : Option String :=
  match given with
  | some path => some path
  | none => (s.userConfig.or (s.home.map (Path.join · homeConfig))).filter d.hasFile

/-- The built-in catalogue, with the layer of the configuration file on top if there is one. -/
def loadCatalogue (d : Disk) (s : Surroundings) (given : Option String) :
    Except Fault Catalogue := do
  let base ← Catalogue.builtIn
  match configPath? d s given with
  | none => return base
  | some path =>
    match d.text path with
    | .ok text => base.extendText text.toList
    | .error fault => .error (.badConfigFile (.unreadable path fault.message))

def isStandardInput (path : String) : Bool :=
  match Path.names path with
  | name :: rest => name = "-" && !Path.isAbsolute path && rest.all (· = ".")
  | [] => false

/-- The mutations that a document holds. A document that cannot be read for any reason counts as
not found. -/
def readMutations (d : Disk) (s : Surroundings) (path : String) : Except Fault (List Mutation) := do
  let text ←
    if isStandardInput path then pure s.input
    else
      match d.text path with
      | .ok text => pure text
      | .error _ => .error (.fileNotFound path)
  decodeDocument path text (.list Mutation.shape.want) (Json.decodeList Mutation.decode)

def givenMutations (s : Surroundings) (path : String) :
    Action (Session LocalStore) (List Mutation) := do
  Action.ofExcept (readMutations (← get).store.disk s path)

/-- Prints a value as JSON, or lines. -/
def shown (json : Bool) (value : Json) (lines : List String) : String :=
  if json then value.pretty ++ "\n" else Report.joined lines

def serveInput (i : Installation LocalStore) (input : String) :
    Action (Session LocalStore) String := fun session =>
  let served := Server.serve i session (Text.bareLines input.toList)
  .ok (Report.joined (served.answers.map Json.compact)) served.session

def perform (i : Installation LocalStore) (s : Surroundings) (json : Bool) :
    Task → Action (Session LocalStore) String
  | .languages =>
    let ls := i.catalogue.languages
    return shown json (.array (ls.map Language.toJson)) (Report.languages s.colour ls)
  | .operators language => do
    let os ← Action.ofExcept (i.operators language)
    return shown json (.array (os.map Operator.toJson)) (Report.operators s.colour os)
  | .importProgram name folder buildCommand sourceDir languages => do
    let given : Snapshot := { name, image := "", buildCommand, sourceDir, languages }
    let snapshot ← Session.onStore (LocalStore.importProgram given folder)
    return shown json snapshot.toJson
      (Report.success s.colour ("imported snapshot " ++ snapshot.name))
  | .snapshots => do
    let snapshots := (← get).store.snapshots
    return shown json (.array (snapshots.map Snapshot.toJson)) (snapshots.map Report.snapshot)
  | .mutations snapshot file filter => do
    let ms ← i.mutations snapshot file filter
    return shown json (.array (ms.map Mutation.toJson)) (Report.mutations s.colour ms)
  | .replacements snapshot mutations => do
    let edits ← i.replacements snapshot (← givenMutations s mutations)
    return shown json (FileEdits.toJson edits) (Report.replacements s.colour edits)
  | .diff snapshot mutations => do
    let diff ← i.diff snapshot (← givenMutations s mutations)
    return shown json (.string (String.ofList diff)) (Report.diff s.colour diff)
  | .mutate snapshot mutations keep => do
    let mutant ← i.mutate snapshot (← givenMutations s mutations)
    if !keep then i.clearMutants
    return shown json mutant.toJson (Report.mutant s.colour mutant)
  | .deleteMutant id => do
    i.discardMutant (← Action.ofExcept (MutantId.parse id))
    return shown json (.object [("deleted", .string id)])
      (Report.success s.colour ("deleted mutant " ++ id))
  | .serve => serveInput i s.input

def exitCode (f : Fault) : Nat :=
  match f with
  | .buildFailure _ => 1
  | _ => if 500 ≤ f.status then 3 else 2

def failed (s : Surroundings) (f : Fault) (d : Disk) : Outcome :=
  ⟨exitCode f, "", Report.joined (Report.fault s.colour f), d⟩

def versionText : String := "mutorch 0.1.0\n"

def usageText : String :=
  "Usage: mutorch [OPTIONS] <COMMAND>\n\nCommands:\n" ++
    String.join (taskSpecs.map fun spec => "  " ++ spec.name ++ "\n") ++
    "\nOptions:\n" ++
    String.join ((versionSpec :: commonSpecs).map fun spec => "  --" ++ spec.name ++ "\n")

def stopped (stop : Stop) (d : Disk) : Outcome :=
  match stop with
  | .usage => ⟨2, "", usageText, d⟩
  | .version => ⟨0, versionText, "", d⟩
  | .help => ⟨0, usageText, "", d⟩

/-- Loads the catalogue and prepares the backend; `firstId` is the number that the first id of a
mutant comes from. -/
def prepare (s : Surroundings) (options : Options) (firstId : Nat) (d : Disk) :
    Except (Fault × Disk) (Installation LocalStore × Session LocalStore) :=
  match loadCatalogue d s options.config with
  | .error fault => .error (fault, d)
  | .ok catalogue =>
    let store : LocalStore :=
      { disk := d, root := options.root, buildLimit := options.buildTimeout * 1000
        environment := s.environment }
    match LocalStore.prepare store with
    | .error fault store => .error (fault, store.disk)
    | .ok _ store =>
      .ok ({ catalogue, matcher := Template.matcher, backend := LocalStore.backend },
        { store, nextId := firstId })

def run (s : Surroundings) (args : List String) (firstId : Nat) (d : Disk) : Outcome :=
  match parse s.root args with
  | .error stop => stopped stop d
  | .ok (options, task) =>
    match prepare s options firstId d with
    | .error (fault, d) => failed s fault d
    | .ok (installation, session) =>
      match perform installation s options.json task session with
      | .ok output session => ⟨0, output, "", session.store.disk⟩
      | .error fault session => failed s fault session.store.disk

end Mutagenesis.CommandLine
