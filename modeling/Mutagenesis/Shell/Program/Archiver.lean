import Mutagenesis.Shell.Program.Status

/-!
# Archives of files

`tar` puts files into an archive. What the archive holds depends on clocks and users, so it is left
empty here.
-/

namespace Mutagenesis.Shell.Archiver

open Work

def table : OptionTable where
  flags := ['c']
  valued := ['f']
  hint := fun name => ["Try '" ++ name ++ " --help' or '" ++ name ++
    " --usage' for more information."]

def tar : Program := fun call => do
  let (options, operands) ← table.read call 64
  if !options.has 'c' then
    table.misused call 2
      "You must specify one of the '-Acdtrux', '--delete' or '--test-label' options"
  let file := (options.value? 'f').getD ['-']
  if operands.isEmpty then table.misused call 2 "Cowardly refusing to create an empty archive"
  let archive := List.replicate 10240 '\x00'
  if file = ['-'] then put archive
  else if let .error fault ← writeFile file archive then
    call.complain (file ++ ": Cannot open: " ++ reason fault)
    call.fail 2 "Error is not recoverable: exiting now"
  let status ← forOperands operands fun path => do
    if let .error fault ← foundAt false path then
      call.complain (path ++ ": Cannot stat: " ++ reason fault)
      return false
    return true
  if status = 0 then return 0
  call.fail 2 "Exiting with failure status due to previous errors"

end Mutagenesis.Shell.Archiver
