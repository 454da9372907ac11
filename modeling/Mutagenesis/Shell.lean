import Mutagenesis.Shell.Evaluator
import Mutagenesis.Shell.Program.Catalogue

/-!
# Running build commands

A build command is a program and its arguments. It runs in a folder of a disk, and its output and
error output go to one log. A command that takes longer than its limit is stopped, and what it has
done up to then stays done.
-/

namespace Mutagenesis.Shell

/-- How a command ended. -/
inductive Exit where
  | status (code : Nat)
  | signal (number : Nat)
  | timedOut
  deriving DecidableEq, Repr

/-- Why a command could not be started. -/
inductive StartFault where
  /-- A word of the command, or its folder, holds the character with the code zero. -/
  | nul
  | disk (fault : DiskFault)
  deriving DecidableEq, Repr

/-- The wording of a fault at the start of a command. -/
def StartFault.message : StartFault → String
  | nul => "nul byte found in provided data"
  | disk fault => fault.message

/-- A command that is to be run. -/
structure Order where
  program : String
  args : List String := []
  /-- The path of the folder to run it in. -/
  folder : String
  environment : List (String × String) := []
  /-- The time that it may take, in milliseconds. -/
  limit : Nat

/-- What a command leaves. -/
structure Outcome where
  exit : Exit
  log : List UInt8
  disk : Disk

/-- The number that bounds the depth to which commands run commands, and the rounds of loops. -/
def stepLimit : Nat := 100000

/-- The names of all programs. -/
def programNames : List String :=
  (callers ++ catalogue.map Prod.fst).mergeSort (· ≤ ·)

/-- A machine with a disk and the folders of the system, for a command that is to be run. -/
def Order.machine (order : Order) (d : Disk) : Machine :=
  { disk := { d with top := Host.under programNames d.top }
    attributes := Host.attributes programNames
    streams := [(0, { channel := .nowhere }), (1, { channel := .log })]
    nextStream := 2
    limit := order.limit
    shell := { name := [], streams := [(0, 0), (1, 1), (2, 1)], process := 1, own := 1 } }

/-- Runs a command on a disk. -/
def execute (order : Order) (d : Disk) : Except StartFault Outcome := do
  let words := order.program :: order.folder :: order.args
  if words.any fun w => w.toList.contains '\x00' then throw .nul
  let place ← match d.resolve true order.folder, d.folder order.folder with
    | .ok place, .ok _ => pure place
    | .error fault, _ | _, .error fault => throw (.disk fault)
  let environment := order.environment.map fun (n, v) => (Octets.ofText n, Octets.ofText v)
  let run := runProgram program? (pathFolders environment) environment
    (Octets.ofText order.program) (order.args.map Octets.ofText) stepLimit
  let finish (exit : Exit) (m : Machine) : Outcome :=
    ⟨exit, Octets.toBytes m.log.reverse.flatten,
      ⟨Host.without d.top m.disk.top, d.workingFolder⟩⟩
  match run (order.machine { d with workingFolder := place }) with
  | .ok (.ended status) m => return finish (.status status) m
  | .ok (.signalled n) m => return finish (.signal n) m
  | .ok .missing _ => throw (.disk .noEntry)
  | .ok .denied _ => throw (.disk .notPermitted)
  | .error (.killed _ n) m => return finish (.signal n) m
  | .error _ m => return finish .timedOut m

end Mutagenesis.Shell
