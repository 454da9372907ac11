import Mutagenesis.Finder
import Mutagenesis.Numeral

/-!
# Arguments of the command line

Options that hold for every task, and the task with its own options and operands. Options may stand
before and after the name of the task; `--` ends them.
-/

set_option autoImplicit false

namespace Mutagenesis.CommandLine

/-- What an option does. -/
inductive OptionKind where
  /-- It takes a value and may come once. -/
  | value
  /-- It takes a value and may come again. -/
  | values
  /-- It takes no value and may come once. -/
  | switch
  /-- It takes no value and may come again. -/
  | count
  /-- It asks for the version. -/
  | version
  /-- It asks for help. -/
  | help
  deriving DecidableEq, Repr

/-- What a value may be. -/
inductive ValueKind where
  | text
  /-- A path, which may not be empty. -/
  | path
  | number
  | numbers
  deriving DecidableEq, Repr

namespace ValueKind

def admits (kind : ValueKind) (value : String) : Bool :=
  match kind with
  | text => true
  | path => !value.isEmpty
  | number => (Numeral.read? value.toList).isSome
  | numbers => (Text.pieces ';' value.toList).all fun part => (Numeral.read? part).isSome

end ValueKind

/-- An option: its name, its letter, what it does, and what its value may be. -/
structure OptionSpec where
  name : String
  letter : Option Char := none
  kind : OptionKind
  admits : ValueKind := .text
  deriving DecidableEq, Repr

/-- Why reading the arguments ends early. -/
inductive Stop where
  /-- The arguments are not as they should be. -/
  | usage
  | version
  | help
  deriving DecidableEq, Repr

/-- Arguments that were read: options with their values, and operands. -/
structure Given where
  options : List (String × String) := []
  operands : List String := []
  /-- An option whose value was read, but not looked at. -/
  pending : Option (OptionSpec × String) := none
  deriving DecidableEq, Repr

namespace Given

def value? (g : Given) (name : String) : Option String :=
  g.options.lookup name

/-- All values of an option, in order. -/
def values (g : Given) (name : String) : List String :=
  (g.options.filter (·.1 = name)).map (·.2)

def has (g : Given) (name : String) : Bool :=
  (g.value? name).isSome

/-- Looks at an option and its value. One that may come once may not come again. -/
def enter (g : Given) (spec : OptionSpec) (value : String) : Except Stop Given :=
  let entered := { g with options := g.options ++ [(spec.name, value)] }
  match spec.kind with
  | .version => .error .version
  | .help => .error .help
  | .switch => if g.has spec.name then .error .usage else .ok entered
  | .count => .ok entered
  | .value =>
    if g.has spec.name ∨ !spec.admits.admits value then .error .usage else .ok entered
  | .values => if spec.admits.admits value then .ok entered else .error .usage

def settle (g : Given) : Except Stop Given :=
  match g.pending with
  | none => .ok g
  | some (spec, value) => { g with pending := none }.enter spec value

/-- Adds an option, after the one that is pending. -/
def add (g : Given) (spec : OptionSpec) (value : String) : Except Stop Given := do
  (← g.settle).enter spec value

end Given

def OptionSpec.takesValue (spec : OptionSpec) : Bool :=
  spec.kind = .value || spec.kind = .values

/-- The argument looks like an option, so it cannot be a value. -/
def looksLikeOption (arg : String) : Bool :=
  match arg.toList with
  | '-' :: _ :: _ => true
  | _ => false

/-- An argument as it is read. -/
inductive Argument where
  /-- Two dashes alone. -/
  | endOfOptions
  /-- A name after two dashes, and a value after an equals sign. -/
  | long (name : String) (value : Option String)
  /-- Letters after a dash. -/
  | short (letters : List Char)
  | operand (text : String)

def Argument.read (arg : String) : Argument :=
  match arg.toList with
  | ['-', '-'] => .endOfOptions
  | '-' :: '-' :: rest =>
    match Text.cutFirst? ['='] rest with
    | some (name, value) => .long (String.ofList name) (some (String.ofList value))
    | none => .long (String.ofList rest) none
  | '-' :: c :: rest => .short (c :: rest)
  | _ => .operand arg

/-- Reads letters after a dash: the options so far, and an option that waits for its value. -/
def readLetters (specs : List OptionSpec) (g : Given) :
    List Char → Except Stop (Given × Option OptionSpec)
  | [] => .ok (g, none)
  | c :: rest =>
    match specs.find? (·.letter = some c) with
    | none => .error .usage
    | some spec =>
      if spec.takesValue then
        match rest with
        | [] => do return (← g.settle, some spec)
        | '=' :: value => do return (← g.add spec (String.ofList value), none)
        | value => do return (← g.add spec (String.ofList value), none)
      else do
        let g ← g.add spec ""
        readLetters specs g rest

/-- Adds operands, each of which has to be of its kind. -/
def addOperands (kinds : List ValueKind) (g : Given) (texts : List String) : Except Stop Given := do
  let g ← g.settle
  let kinds := kinds.drop g.operands.length
  if kinds.length < texts.length then .error .usage
  else if (kinds.zip texts).all fun (kind, text) => kind.admits text then
    return { g with operands := g.operands ++ texts }
  else .error .usage

/-- Reads options and operands. If `names`, the first operand is the name of a task, at which
reading ends; an option right before it stays pending. -/
def readArguments (specs : List OptionSpec) (names : Bool) (operands : List ValueKind)
    (g : Given) : (waiting : Option OptionSpec) → List String → Except Stop (Given × List String)
  | some _, [] => .error .usage
  | none, [] => do return (← g.settle, [])
  | some spec, arg :: rest =>
    if looksLikeOption arg then .error .usage
    else readArguments specs names operands { g with pending := some (spec, arg) } none rest
  | none, arg :: rest =>
    match Argument.read arg with
    | .endOfOptions => do
      if names then .error .usage
      else return (← addOperands operands g rest, [])
    | .long name value =>
      match specs.find? (·.name = name) with
      | none => .error .usage
      | some spec =>
        match spec.takesValue, value with
        | true, some value => do
          let g ← g.add spec value
          readArguments specs names operands g none rest
        | true, none => do
          let g ← g.settle
          readArguments specs names operands g (some spec) rest
        | false, some _ => .error .usage
        | false, none => do
          let g ← g.add spec ""
          readArguments specs names operands g none rest
    | .short letters => do
      let (g, waiting) ← readLetters specs g letters
      readArguments specs names operands g waiting rest
    | .operand text => do
      if names then return (g, text :: rest)
      let g ← addOperands operands g [text]
      readArguments specs names operands g none rest

/-- The options that hold for every task. -/
def commonSpecs : List OptionSpec :=
  [{ name := "root", kind := .value, admits := .path },
   { name := "config", kind := .value, admits := .path },
   { name := "build-timeout", kind := .value, admits := .number },
   { name := "json", kind := .switch },
   { name := "verbose", letter := some 'v', kind := .count },
   { name := "help", letter := some 'h', kind := .help }]

/-- The option that asks for the version, which only stands before the task. -/
def versionSpec : OptionSpec :=
  { name := "version", letter := some 'V', kind := .version }

/-- What the command line is asked to do. -/
inductive Task where
  | languages
  | operators (language : Option String)
  | importProgram (name folder : String) (buildCommand : Option String) (sourceDir : String)
      (languages : List String)
  | snapshots
  | mutations (snapshot file : String) (filter : SearchFilter)
  | replacements (snapshot mutations : String)
  | diff (snapshot mutations : String)
  | mutate (snapshot mutations : String) (keep : Bool)
  | deleteMutant (id : String)
  | serve
  deriving DecidableEq, Repr

/-- The options that hold for every task. -/
structure Options where
  root : String
  config : Option String
  /-- How long a build may take, in seconds. -/
  buildTimeout : Nat
  json : Bool
  deriving DecidableEq, Repr

/-- The name of a task, its options, and the kinds of its operands. -/
structure TaskSpec where
  name : String
  options : List OptionSpec
  operands : List ValueKind

def languageSpec : OptionSpec :=
  { name := "language", letter := some 'l', kind := .value }

def taskSpecs : List TaskSpec :=
  [⟨"languages", [], []⟩,
   ⟨"operators", [languageSpec], []⟩,
   ⟨"import",
    [{ name := "build-command", kind := .value }, { name := "source-dir", kind := .value },
     { name := "languages", kind := .values }], [.text, .path]⟩,
   ⟨"snapshots", [], []⟩,
   ⟨"mutations",
    [languageSpec, { name := "operators", letter := some 'o', kind := .values },
     { name := "lines", kind := .values, admits := .numbers }], [.text, .text]⟩,
   ⟨"replacements", [], [.text, .path]⟩,
   ⟨"diff", [], [.text, .path]⟩,
   ⟨"mutate", [{ name := "keep", kind := .switch }], [.text, .path]⟩,
   ⟨"delete-mutant", [], [.text]⟩,
   ⟨"serve", [], []⟩]

def taskSpec? (name : String) : Option TaskSpec :=
  taskSpecs.find? (·.name = name)

/-- The parts of the values of an option, between semicolons. -/
def listValue (g : Given) (name : String) : List String :=
  (g.values name).flatMap fun value => (Text.pieces ';' value.toList).map String.ofList

/-- The parts of the values of an option, if it was given. -/
def listValue? (g : Given) (name : String) : Option (List String) :=
  if g.has name then some (listValue g name) else none

/-- The numbers between semicolons, if the option was given. -/
def numbersValue? (g : Given) (name : String) : Option (List Nat) :=
  (listValue? g name).map fun parts => parts.filterMap fun part => Numeral.read? part.toList

def numberValue? (g : Given) (name : String) : Option Nat :=
  (g.value? name).bind fun value => Numeral.read? value.toList

/-- The task that a name, options and operands stand for. -/
def taskOf (name : String) (g : Given) : Except Stop Task :=
  match name, g.operands with
  | "languages", [] => .ok .languages
  | "operators", [] => .ok (.operators (g.value? "language"))
  | "import", [snapshot, folder] =>
    .ok (.importProgram snapshot folder (g.value? "build-command")
      ((g.value? "source-dir").getD "") (listValue g "languages"))
  | "snapshots", [] => .ok .snapshots
  | "mutations", [snapshot, file] =>
    .ok (.mutations snapshot file
      ⟨g.value? "language", listValue? g "operators", numbersValue? g "lines"⟩)
  | "replacements", [snapshot, mutations] => .ok (.replacements snapshot mutations)
  | "diff", [snapshot, mutations] => .ok (.diff snapshot mutations)
  | "mutate", [snapshot, mutations] => .ok (.mutate snapshot mutations (g.has "keep"))
  | "delete-mutant", [id] => .ok (.deleteMutant id)
  | "serve", [] => .ok .serve
  | _, _ => .error .usage

/-- The root folder where none is given. -/
def defaultRoot : String := ".mutorch"

/-- How long a build may take where no time is given, in seconds. -/
def defaultBuildTimeout : Nat := 300

/-- The root folder, from the options before the task and those after it, which go first; else from
the environment, or the default. The environment is also looked at if only one of the two places
names a root, and may not name an empty one then. -/
def rootOf (environmentRoot : Option String) (before after : Given) : Except Stop String :=
  let both := before.has "root" && after.has "root"
  if environmentRoot = some "" ∧ !both then .error .usage
  else
    .ok (((after.value? "root").or ((before.value? "root").or environmentRoot)).getD defaultRoot)

/-- The common options, from those before the task and those after it, which go first. -/
def optionsOf (environmentRoot : Option String) (before after : Given) : Except Stop Options := do
  let number (name : String) : Option Nat := (numberValue? after name).or (numberValue? before name)
  return {
    root := ← rootOf environmentRoot before after
    config := (after.value? "config").or (before.value? "config")
    buildTimeout := (number "build-timeout").getD defaultBuildTimeout
    json := before.has "json" || after.has "json" }

/-- Help for a task, if there is one of that name. -/
def helpFor : List String → Stop
  | [] => .help
  | [name] => if name = "help" ∨ (taskSpec? name).isSome then .help else .usage
  | _ => .usage

def parse (environmentRoot : Option String) (args : List String) :
    Except Stop (Options × Task) := do
  let (before, rest) ← readArguments (versionSpec :: commonSpecs) true [] {} none args
  match rest with
  | [] => .error .usage
  | name :: rest =>
    if name = "help" then .error (helpFor rest)
    else
      match taskSpec? name with
      | none => .error .usage
      | some spec =>
        let specs := spec.options ++ commonSpecs
        let (after, _) ← readArguments specs false spec.operands {} none rest
        let options ← optionsOf environmentRoot (← before.settle) after
        return (options, ← taskOf name after)

end Mutagenesis.CommandLine
