import Mutagenesis.Shell.Program.Listing

/-!
# What is known of files and of the machine

`stat` shows what is known of files by a format, and smaller programs tell of the machine.
-/

namespace Mutagenesis.Shell.Status

open Work

def kindName : Entry → String
  | .file content => if content.toBytes.isEmpty then "regular empty file" else "regular file"
  | .folder _ => "directory"
  | .link _ => "symbolic link"

/-- What a letter of a format stands for. -/
def part (path : Octets) (entry : Entry) (mode : Nat) : Char → Octets
  | 'n' => path
  | 's' => Octets.ofNat (entrySize entry)
  | 'F' => (kindName entry).toList
  | 'a' => Permissions.digits mode
  | '%' => ['%']
  | _ => ['?']

def formatted (part : Char → Octets) : Octets → Octets
  | '%' :: c :: rest => part c ++ formatted part rest
  | c :: rest => c :: formatted part rest
  | [] => []

def stat : Program := fun call => do
  let (options, operands) ← OptionTable.read { flags := ['L'], valued := ['c'] } call 1
  needOperand call "" operands
  forOperands operands fun path => do
    match ← foundAt (options.has 'L') path with
    | .ok (place, entry) =>
      let mode := (← get).attributes.mode place entry
      putLine (((options.value? 'c').map (formatted (part path entry mode))).getD path)
      return true
    | .error fault => call.refusePath "cannot statx" path fault

def tellLine (line : Octets) : Program := fun _ => do
  putLine line
  return 0

end Mutagenesis.Shell.Status
