import Mutagenesis.Text.Utf8

/-!
# Folders

A folder holds files, links and further folders, each under a name. Paths inside a folder are lists
of names.
-/

set_option autoImplicit false

namespace Mutagenesis

/-- What a file holds: a text, or bytes that are no text. -/
inductive Content where
  | text (s : String)
  | bytes (bs : List UInt8)
  deriving DecidableEq, Repr

namespace Content

/-- What a file with some bytes holds. -/
def ofBytes (bs : List UInt8) : Content :=
  match Text.ofBytes? bs with
  | some cs => text (String.ofList cs)
  | none => bytes bs

/-- The bytes of a file. -/
def toBytes : Content → List UInt8
  | text s => Text.bytesOf s.toList
  | bytes bs => bs

end Content

/-- The entries of a folder, one after the other. -/
inductive Folder where
  | empty
  | file (name : String) (content : Content) (rest : Folder)
  | link (name : String) (target : String) (rest : Folder)
  | sub (name : String) (children : Folder) (rest : Folder)
  deriving DecidableEq, Repr, Inhabited

/-- What stands under a name. -/
inductive Entry where
  | file (content : Content)
  | link (target : String)
  | folder (children : Folder)
  deriving DecidableEq, Repr

namespace Folder

def child? (name : String) : Folder → Option Entry
  | empty => none
  | file n content rest => if n = name then some (.file content) else child? name rest
  | link n target rest => if n = name then some (.link target) else child? name rest
  | sub n children rest => if n = name then some (.folder children) else child? name rest

def names : Folder → List String
  | empty => []
  | file n _ rest => n :: names rest
  | link n _ rest => n :: names rest
  | sub n _ rest => n :: names rest

def cons (name : String) (e : Entry) (rest : Folder) : Folder :=
  match e with
  | .file content => file name content rest
  | .link target => link name target rest
  | .folder children => sub name children rest

/-- Puts an entry under a name: in the place of the one that is there, or else at the end. -/
def put (name : String) (e : Entry) : Folder → Folder
  | empty => cons name e empty
  | file n content rest =>
    if n = name then cons name e rest else file n content (put name e rest)
  | link n target rest => if n = name then cons name e rest else link n target (put name e rest)
  | sub n children rest =>
    if n = name then cons name e rest else sub n children (put name e rest)

def erase (name : String) : Folder → Folder
  | empty => empty
  | file n content rest => if n = name then rest else file n content (erase name rest)
  | link n target rest => if n = name then rest else link n target (erase name rest)
  | sub n children rest => if n = name then rest else sub n children (erase name rest)

/-- The entry at a path; the folder itself is at the empty path. -/
def at? (f : Folder) : List String → Option Entry
  | [] => some (.folder f)
  | [name] => f.child? name
  | name :: rest =>
    match f.child? name with
    | some (.folder children) => children.at? rest
    | _ => none

def putAt (f : Folder) (path : List String) (e : Entry) : Folder :=
  match path with
  | [] => f
  | [name] => f.put name e
  | name :: rest =>
    match f.child? name with
    | some (.folder children) => f.put name (.folder (children.putAt rest e))
    | _ => f

def eraseAt (f : Folder) (path : List String) : Folder :=
  match path with
  | [] => f
  | [name] => f.erase name
  | name :: rest =>
    match f.child? name with
    | some (.folder children) => f.put name (.folder (children.eraseAt rest))
    | _ => f

end Folder

end Mutagenesis
