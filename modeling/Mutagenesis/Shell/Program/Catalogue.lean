import Mutagenesis.Shell.Program.Archiver
import Mutagenesis.Shell.Program.Awk
import Mutagenesis.Shell.Program.Basics
import Mutagenesis.Shell.Program.Blocks
import Mutagenesis.Shell.Program.Checksum
import Mutagenesis.Shell.Program.Compare
import Mutagenesis.Shell.Program.Difference
import Mutagenesis.Shell.Program.Editor
import Mutagenesis.Shell.Program.Expression
import Mutagenesis.Shell.Program.Files
import Mutagenesis.Shell.Program.Listing
import Mutagenesis.Shell.Program.Make
import Mutagenesis.Shell.Program.Ordering
import Mutagenesis.Shell.Program.Pages
import Mutagenesis.Shell.Program.Search
import Mutagenesis.Shell.Program.Sequence
import Mutagenesis.Shell.Program.Sorting
import Mutagenesis.Shell.Program.Status

/-!
# The programs that there are

Programs by their names, but for those that call others.
-/

namespace Mutagenesis.Shell

def catalogue : List (String × Program) :=
  [("true", endWith 0),
   ("false", endWith 1),
   ("echo", echo),
   ("sleep", sleep),
   ("seq", Sequence.seq),
   ("yes", yes),
   ("expr", Expression.expr),
   ("mkdir", mkdir),
   ("rmdir", rmdir),
   ("rm", rm),
   ("touch", touch),
   ("cp", cp),
   ("mv", mv),
   ("ln", ln),
   ("readlink", readlink),
   ("basename", basename),
   ("dirname", dirname),
   ("chmod", chmod),
   ("sync", endWith 0),
   ("ls", Listing.ls),
   ("cat", cat),
   ("tee", tee),
   ("head", head),
   ("tail", tail),
   ("wc", wc),
   ("nl", nl),
   ("tac", tac),
   ("rev", rev),
   ("fold", fold),
   ("expand", expand),
   ("paste", paste),
   ("cut", cut),
   ("tr", tr),
   ("sort", sort),
   ("uniq", uniq),
   ("comm", comm),
   ("cmp", cmp),
   ("diff", Difference.diff),
   ("grep", grep),
   ("egrep", grepAs ['E']),
   ("fgrep", grepAs ['F']),
   ("sed", Editor.sed),
   ("md5sum", Checksum.hashSum Digest.md5),
   ("sha256sum", Checksum.hashSum Digest.sha256),
   ("dd", Blocks.dd),
   ("split", Blocks.split),
   ("tsort", Ordering.tsort),
   ("factor", Ordering.factor),
   ("stat", Status.stat),
   ("whoami", Status.tellLine "root"),
   ("nproc", Status.tellLine ['4']),
   ("tar", Archiver.tar),
   ("make", Make.make),
   ("awk", Awk.awk),
   ("mawk", Awk.awk),
   ("cksum", Checksum.cksum)]

def program? (name : String) : Option Program :=
  catalogue.lookup name

end Mutagenesis.Shell
