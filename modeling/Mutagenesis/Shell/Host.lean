import Mutagenesis.Shell.Attributes
import Mutagenesis.Shell.Octets

/-!
# The host of commands

Commands run in a system: besides the folders of the disk there are those of the system, with its
programs and devices.
-/

namespace Mutagenesis.Shell.Host

def folderOf (entries : List (String × Entry)) : Folder :=
  entries.foldr (fun (name, e) rest => Folder.cons name e rest) .empty

def programMark : Octets :=
  '\x7f' :: "ELF"

def programFile (name : String) : Entry :=
  .file (Octets.toContent (programMark ++ name.toList))

def programIn? (content : Content) : Option String :=
  match content with
  | .text s => (Text.after? programMark s.toList).map String.ofList
  | .bytes _ => none

def programPlace : List String :=
  ["usr", "bin"]

def deviceNames : List String :=
  ["full", "null", "stderr", "stdin", "stdout", "tty", "zero"]

def folders (programs : List String) : List (String × Entry) :=
  let empty : Entry := .folder .empty
  let named (names : List String) : Entry := .folder (folderOf (names.map (·, empty)))
  let files (names : List String) : Entry :=
    .folder (folderOf (names.map (·, .file (.text ""))))
  let usr := [("bin", .folder (folderOf (programs.map fun n => (n, programFile n)))),
    ("include", empty), ("lib", empty), ("local", named ["bin", "lib", "share"]), ("sbin", empty),
    ("share", empty), ("src", empty)]
  [("bin", .link "usr/bin"), ("boot", empty), ("dev", files deviceNames), ("etc", empty),
   ("home", empty), ("lib", .link "usr/lib"), ("lib64", .link "usr/lib64"), ("media", empty),
   ("mnt", empty), ("opt", empty), ("proc", empty), ("root", empty), ("run", empty),
   ("sbin", .link "usr/sbin"), ("srv", empty), ("sys", empty), ("tmp", empty),
   ("usr", .folder (folderOf usr)),
   ("var", named ["cache", "lib", "log", "spool", "tmp"])]

def attributes (programs : List String) : AttributeTable :=
  programs.map fun n => (programPlace ++ [n], { mode := some 0o755 })

def under (programs : List String) (top : Folder) : Folder :=
  (folders programs).foldl (fun top (name, e) =>
    if top.names.contains name then top else top.put name e) top

def without (before : Folder) (top : Folder) : Folder :=
  (folders []).foldl (fun top (name, _) =>
    if before.names.contains name then top else top.erase name) top

def isDevice (path : Octets) : Bool :=
  deviceNames.any fun n => path = "/dev/" ++ n.toList

def endlessOctets : Nat := 1048576

def deviceContent? (path : Octets) : Option Octets :=
  match String.ofList path with
  | "/dev/null" => some []
  | "/dev/zero" | "/dev/full" => some (List.replicate endlessOctets '\x00')
  | _ => none

def isSink (path : Octets) : Bool :=
  ["/dev/null", "/dev/zero"].contains (String.ofList path)

end Mutagenesis.Shell.Host
