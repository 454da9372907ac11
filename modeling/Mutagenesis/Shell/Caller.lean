import Mutagenesis.Shell.Process
import Mutagenesis.Shell.Program.Basics

/-!
# Programs that call others

What the arguments of `env` mean, which runs a command in another environment.
-/

namespace Mutagenesis.Shell

/-- How a program ended, or why it was not run. -/
inductive Ran where
  | ended (status : Nat)
  | signalled (signal : Nat)
  | denied
  | missing
  deriving DecidableEq

def Ran.ofProcess : Except Nat Nat → Ran
  | .ok status => ended status
  | .error signal => signalled signal

/-- What is said instead of running a command, and the status to end with. -/
structure Refusal where
  status : Nat
  text : Octets

def OptionTable.leading (table : OptionTable) (name : Octets) (status : Nat) (args : List Octets) :
    Except Refusal (Options × List Octets) :=
  let isOperand (w : Octets) : Bool := w.head? ≠ some '-' || w = ['-']
  match table.readLeading isOperand { name := name, args := args }
      status { disk := ⟨.empty, []⟩ } with
  | .done result _ => .ok result
  | .ended status t => .error ⟨status, t.written.reverse.flatMap Prod.snd⟩
  | .asks _ _ _ => .ok ([], args)

/-- What `env` is asked for. -/
structure EnvRequest where
  clear : Bool
  removed : List Octets
  assignments : List (Octets × Octets)
  command : List Octets

def envOptions : OptionTable :=
  { flags := ['i'], valued := ['u'] }

def readEnv (args : List Octets) : Except Refusal EnvRequest := do
  let name := "env"
  let (options, words) ← envOptions.leading name 125 args
  let (assignments, command) := leadingAssignments words
  return { clear := options.has 'i', removed := options.values 'u'
           assignments := assignments, command := command }

namespace Caller

open Act

def env (start : List (Octets × Octets) → List Octets → Act Ran)
    (environment : List (Octets × Octets)) (args : List Octets) : Act Ran := do
  match readEnv args with
  | .error r =>
    write 2 r.text
    return .ended r.status
  | .ok request =>
    let base := if request.clear then []
      else environment.filter fun (n, _) => n ∉ request.removed
    let inner := request.assignments.foldl (fun e (n, v) => withVariable e n v) base
    if request.command.isEmpty then
      inner.forM fun (n, v) => say (n ++ '=' :: v ++ ['\n'])
      return .ended 0
    let complain (message : String) : Act Unit :=
      write 2 ("env: " ++ quotedName (request.command.headD []) ++ message.toList ++ ['\n'])
    match ← start inner request.command with
    | .missing =>
      complain ": No such file or directory"
      return .ended 127
    | .denied =>
      complain ": Permission denied"
      return .ended 126
    | ran => return ran

end Caller

end Mutagenesis.Shell
