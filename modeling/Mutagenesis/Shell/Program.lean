import Mutagenesis.Disk.Copy
import Mutagenesis.Shell.Attributes
import Mutagenesis.Shell.Octets
import Mutagenesis.Shell.Host

/-!
# Programs

A program is called with arguments and an environment.
-/

namespace Mutagenesis.Shell

/-- What a program is called with. -/
structure Call where
  name : Octets
  args : List Octets
  environment : List (Octets × Octets) := []

/-- The state of a program that runs. -/
structure Task where
  disk : Disk
  input : Octets := []
  inputIsFile : Bool := false
  written : List (Bool × Octets) := []
  outputPlace : Option (List String) := none
  time : Nat := 0
  attributes : AttributeTable := []
  mask : Nat := usualMask
  now : Int := firstMoment

/-- A command that a program asks for. -/
structure Request where
  words : List Octets
  environment : List (Octets × Octets)

/-- How a command that was asked for has ended. -/
structure Answer where
  ending : Except Nat Nat

/-- How far a program has come: it has a result, it has ended with a status, or it asks for a
command and goes on with the answer. -/
inductive Progress (α : Type) where
  | done (a : α) (t : Task)
  | ended (status : Nat) (t : Task)
  | asks (r : Request) (t : Task) (resume : Answer → Task → Progress α)

def Progress.andThen {α β : Type} (next : α → Task → Progress β) : Progress α → Progress β
  | done a t => next a t
  | ended status t => .ended status t
  | asks r t resume => .asks r t fun answer t => (resume answer t).andThen next

def Work (α : Type) : Type :=
  Task → Progress α

instance : Monad Work where
  pure a := fun t => .done a t
  bind act next := fun t => (act t).andThen fun a => next a

instance : MonadStateOf Task Work where
  get := fun t => .done t t
  set t := fun _ => .done ⟨⟩ t
  modifyGet f := fun t =>
    let (a, t) := f t
    .done a t

abbrev Program := Call → Work Nat

namespace Work

def put (cs : Octets) : Work Unit :=
  modify fun t => { t with written := (false, cs) :: t.written }

def putLine (cs : Octets) : Work Unit :=
  put (cs ++ ['\n'])

def complain (message : Octets) : Work Unit :=
  modify fun t => { t with written := (true, message ++ ['\n']) :: t.written }

def stop {α : Type} (status : Nat) : Work α := fun t =>
  .ended status t

def ask (r : Request) : Work Answer := fun t =>
  .asks r t fun answer t => .done answer t

def fail {α : Type} (status : Nat) (message : Octets) : Work α := do
  complain message
  stop status

def takeInput : Work Octets :=
  modifyGet fun t => (t.input, { t with input := [] })

def onDisk {α : Type} (act : DiskAction α) : Work (Except DiskFault α) := fun t =>
  match act t.disk with
  | .ok a d => .done (.ok a) { t with disk := d }
  | .error fault d => .done (.error fault) { t with disk := d }

def noteMade (place : List String) (full : Nat) : Work Unit :=
  modify fun t => { t with attributes := t.attributes.made t.mask t.now place full }

def noteChange (place : List String) : Work Unit :=
  modify fun t => { t with attributes := t.attributes.changed t.now place }

def writePlace (place : List String) (content : Content) : Work (Except DiskFault Unit) := do
  let there := ((← get).disk.top.at? place).isSome
  let outcome ← onDisk (Disk.writeAt place content)
  if let .ok _ := outcome then
    if there then noteChange place else noteMade place 0o666
  return outcome

end Work

open Work

def reason (fault : DiskFault) : Octets :=
  match Text.cutFirst? " (os error " fault.message.toList with
  | some (before, _) => before
  | none => fault.message.toList

def isShown (c : Char) : Bool :=
  32 ≤ c.toNat && c.toNat < 127

def shownEscape (c : Char) : Octets :=
  match c with
  | '\n' => "\\n"
  | '\t' => "\\t"
  | '\r' => "\\r"
  | '\x07' => "\\a"
  | '\x08' => "\\b"
  | '\x0b' => "\\v"
  | '\x0c' => "\\f"
  | _ =>
    let digits := Nat.toDigits 8 c.toNat
    '\\' :: (List.replicate (3 - digits.length) '0' ++ digits)

def quotedName (cs : Octets) : Octets :=
  if !cs.contains '\'' then ['\''] ++ cs ++ ['\'']
  else if cs.all (· ∉ ['"', '\\', '\x60', '$']) then ['"'] ++ cs ++ ['"']
  else ['\''] ++ (cs.flatMap fun c => if c = '\'' then "'\\''" else [c]) ++ ['\'']

def needsQuotes (c : Char) : Bool :=
  !isShown c || c ∈ [' ', '!', '"', '$', '&', '(', ')', '*', ';', '<', '=', '>', '?', '[', '^',
    '\x60', '|', '\'', '\\', ':']

def plainName (cs : Octets) : Octets :=
  let special : Bool := match cs with
    | [] | ['\x7b'] | ['\x7d'] | '#' :: _ | '~' :: _ => true
    | _ => false
  if special ∨ cs.any needsQuotes then quotedName cs else cs

def Call.complain (call : Call) (message : Octets) : Work Unit :=
  Work.complain (call.name ++ ": " ++ message)

def Call.refuse (call : Call) (message : Octets) : Work Bool := do
  call.complain message
  return false

/-- The complaint that something cannot be done with a path. -/
def Call.refusePath (call : Call) (doing : String) (path : Octets) (fault : DiskFault) :
    Work Bool :=
  call.refuse (doing.toList ++ ' ' :: quotedName path ++ ": " ++ reason fault)

def Call.fail {α : Type} (call : Call) (status : Nat) (message : Octets) : Work α :=
  Work.fail status (call.name ++ ": " ++ message)

def Call.failUsage {α : Type} (call : Call) (status : Nat) (message : Octets) : Work α := do
  call.complain message
  Work.fail status ("Try '" ++ call.name ++ " --help' for more information.")

def entryAt (follow : Bool) (path : Octets) : Work (Except DiskFault Entry) := do
  return (← get).disk.entry follow (Octets.toText path)

def isFolderAt (path : Octets) : Work Bool := do
  return (← get).disk.hasFolder (Octets.toText path)

def contentAt (path : Octets) : Work (Except DiskFault Octets) := do
  if path = "/dev/stdin" then return .ok (← takeInput)
  match Host.deviceContent? path with
  | some content => return .ok content
  | none =>
    match ← entryAt true path with
    | .ok (.file content) => return .ok (Octets.ofContent content)
    | .ok _ => return .error .isFolder
    | .error fault => return .error fault

def inputAt (path : Octets) : Work (Except DiskFault Octets) := do
  if path = ['-'] then return .ok (← takeInput) else contentAt path

def writeFile (path content : Octets) : Work (Except DiskFault Unit) := do
  if Host.isSink path then return .ok ()
  else if path = "/dev/stdout" then return .ok (← put content)
  else
    match (← get).disk.resolve true (Octets.toText path) with
    | .ok place => writePlace place (Octets.toContent content)
    | .error fault => return .error fault

def lastName (path : Octets) : Octets :=
  match ((Text.pieces '/' path).filter (· ≠ [])).getLast? with
  | some name => name
  | none => if path.isEmpty then [] else ['/']

/-- Options that were given, in their order: each by its letter or its long name, with its value. -/
abbrev Options := List (Octets × Octets)

/-- What options a program has: letters without a value and with one, and long names, each with the
letter that it stands for. -/
structure OptionTable where
  flags : List Char
  valued : List Char := []
  long : List (String × Char) := []
  hint : Octets → List Octets := fun name =>
    ["Try '" ++ name ++ " --help' for more information."]

namespace OptionTable

def misused {α : Type} (table : OptionTable) (call : Call) (status : Nat) (message : Octets) :
    Work α := do
  call.complain message
  (table.hint call.name).forM Work.complain
  stop status

def readLetters (table : OptionTable) (call : Call) (status : Nat) :
    Octets → List Octets → Work (Options × List Octets)
  | [], rest => return ([], rest)
  | c :: letters, rest => do
    if table.valued.contains c then
      match letters, rest with
      | [], value :: rest => return ([([c], value)], rest)
      | [], [] =>
        table.misused call status ("option requires an argument -- '" ++ [c] ++ ['\''])
      | _, _ => return ([([c], letters)], rest)
    else if table.flags.contains c then
      let (options, rest) ← readLetters table call status letters rest
      return (([c], []) :: options, rest)
    else table.misused call status ("invalid option -- '" ++ [c] ++ ['\''])

def readLong (table : OptionTable) (call : Call) (status : Nat) (body : Octets)
    (rest : List Octets) : Work ((Octets × Octets) × List Octets) := do
  let given := body.takeWhile (· != '=')
  match table.long.lookup (String.ofList given) with
  | none => table.misused call status ("unrecognized option '--" ++ body ++ ['\''])
  | some c =>
    match body.drop given.length, rest with
    | _ :: value, rest =>
      if table.valued.contains c then return (([c], value), rest)
      else table.misused call status ("option '--" ++ given ++ "' doesn't allow an argument")
    | [], value :: rest =>
      if table.valued.contains c then return (([c], value), rest)
      else return (([c], []), value :: rest)
    | [], [] =>
      if table.valued.contains c then
        table.misused call status ("option '--" ++ given ++ "' requires an argument")
      else return (([c], []), [])

def readAll (table : OptionTable) (isLast : Octets → Bool) (call : Call) (status : Nat) :
    (steps : Nat) → List Octets → Work (Options × List Octets)
  | 0, words => return ([], words)
  | steps + 1, words => do
    match words with
    | [] => return ([], [])
    | ['-', '-'] :: rest => return ([], rest)
    | w :: rest =>
      if isLast w then return ([], words)
      match w with
      | '-' :: '-' :: body =>
        let (option, rest) ← table.readLong call status body rest
        let (options, operands) ← readAll table isLast call status steps rest
        return (option :: options, operands)
      | '-' :: c :: letters =>
        let (first, rest) ← table.readLetters call status (c :: letters) rest
        let (options, operands) ← readAll table isLast call status steps rest
        return (first ++ options, operands)
      | _ =>
        let (options, operands) ← readAll table isLast call status steps rest
        return (options, w :: operands)

def read (table : OptionTable) (call : Call) (status : Nat) : Work (Options × List Octets) :=
  table.readAll (fun _ => false) call status (call.args.length + 1) call.args

/-- The options in front of the first operand. -/
def readLeading (table : OptionTable) (isOperand : Octets → Bool) (call : Call) (status : Nat) :
    Work (Options × List Octets) :=
  let isLast (w : Octets) := isOperand w || w = ['-'] || w.head? ≠ some '-'
  table.readAll isLast call status (call.args.length + 1) call.args

end OptionTable

def Options.has (o : Options) (letter : Char) : Bool :=
  o.any fun (name, _) => name = [letter]

def Options.value? (o : Options) (letter : Char) : Option Octets :=
  (o.reverse.find? fun (name, _) => name = [letter]).map Prod.snd

def Options.values (o : Options) (letter : Char) : List Octets :=
  (o.filter fun (name, _) => name = [letter]).map Prod.snd

end Mutagenesis.Shell
