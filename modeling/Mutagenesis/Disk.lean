import Mutagenesis.Disk.Folder
import Mutagenesis.Disk.Path

/-!
# The disk

The disk is a folder at the top and the path of the working folder. Looking up a path follows the
links in it. Operations may fail; what a failed operation has changed stays changed.
-/

set_option autoImplicit false

namespace Mutagenesis

/-- A disk and the path of its working folder. -/
structure Disk where
  top : Folder
  workingFolder : List String := []
  deriving DecidableEq, Repr

/-- Why an operation on the disk failed. -/
inductive DiskFault where
  | noEntry
  | notFolder
  | isFolder
  | alreadyThere
  | tooManyLinks
  | nameTooLong
  | notPermitted
  | invalidArgument
  /-- A path holds the character with the code zero. -/
  | nulInName
  /-- A file does not hold a text. -/
  | notText
  deriving DecidableEq, Repr

def DiskFault.message : DiskFault → String
  | noEntry => "No such file or directory (os error 2)"
  | notFolder => "Not a directory (os error 20)"
  | isFolder => "Is a directory (os error 21)"
  | alreadyThere => "File exists (os error 17)"
  | tooManyLinks => "Too many levels of symbolic links (os error 40)"
  | nameTooLong => "File name too long (os error 36)"
  | notPermitted => "Permission denied (os error 13)"
  | invalidArgument => "Invalid argument (os error 22)"
  | nulInName => "file name contained an unexpected NUL byte"
  | notText => "stream did not contain valid UTF-8"

/-- An operation on the disk. -/
abbrev DiskAction (α : Type) := EStateM DiskFault Disk α

namespace Disk

/-- Where a walk along names ends. -/
inductive Stop where
  /-- At a path, where something may be or not. -/
  | arrived (path : List String)
  /-- At a link in a folder, with names left. -/
  | atLink (folder : List String) (target : String) (left : List String)

/-- The number of bytes that a name in a folder has at most. -/
def nameLimit : Nat := 255

/-- The number of bytes that a written path has at most. -/
def pathLimit : Nat := 4095

/-- Walks along names from a folder up to the first link. A link under the last name is only
followed if `follow`. -/
def walk (top : Folder) (follow : Bool) (folder : List String) :
    List String → Except DiskFault Stop
  | [] => .ok (.arrived folder)
  | name :: rest =>
    match top.at? folder with
    | some (.folder entries) =>
      if name = "." then walk top follow folder rest
      else if name = ".." then walk top follow folder.dropLast rest
      else if nameLimit < name.utf8ByteSize then .error .nameTooLong
      else
        match entries.child? name with
        | none => if rest.isEmpty then .ok (.arrived (folder ++ [name])) else .error .noEntry
        | some (.link target) =>
          if rest.isEmpty ∧ follow = false then .ok (.arrived (folder ++ [name]))
          else .ok (.atLink folder target rest)
        | some (.file _) =>
          if rest.isEmpty then .ok (.arrived (folder ++ [name])) else .error .notFolder
        | some (.folder _) => walk top follow (folder ++ [name]) rest
    | _ => .error .notFolder

/-- The number of links that a walk follows at most. -/
def linkLimit : Nat := 40

def travel (top : Folder) (follow : Bool) :
    (links : Nat) → (folder names : List String) → Except DiskFault (List String)
  | 0, _, _ => .error .tooManyLinks
  | links + 1, folder, names =>
    match walk top follow folder names with
    | .error fault => .error fault
    | .ok (.arrived path) => .ok path
    | .ok (.atLink folder target rest) =>
      travel top follow links (if Path.isAbsolute target then [] else folder)
        (Path.names target ++ (if Path.endsInSlash target then ["."] else []) ++ rest)

/-- The place that names, read from the top or from the working folder, lead to. -/
def place (d : Disk) (follow absolute : Bool) (names : List String) :
    Except DiskFault (List String) :=
  travel d.top follow (linkLimit + 1) (if absolute then [] else d.workingFolder) names

/-- The names of a written path, if it can be one. -/
def namesOf (path : String) : Except DiskFault (List String) :=
  if path.isEmpty then .error .noEntry
  else if path.toList.contains '\x00' then .error .nulInName
  else if pathLimit < path.utf8ByteSize then .error .nameTooLong
  else .ok (Path.names path)

/-- The place that a written path leads to. A slash at its end asks for a folder. -/
def resolve (d : Disk) (follow : Bool) (path : String) : Except DiskFault (List String) := do
  let names ← namesOf path
  d.place follow (Path.isAbsolute path) (names ++ if Path.endsInSlash path then ["."] else [])

/-- The path from the top of the disk; a relative one is taken from the working folder. -/
def absolutePath (d : Disk) (path : String) : String :=
  Path.join ("/" ++ "/".intercalate d.workingFolder) path

def entry (d : Disk) (follow : Bool) (path : String) : Except DiskFault Entry := do
  match d.top.at? (← d.resolve follow path) with
  | some e => return e
  | none => .error .noEntry

def hasFolder (d : Disk) (path : String) : Bool :=
  match d.entry true path with
  | .ok (.folder _) => true
  | _ => false

def hasFile (d : Disk) (path : String) : Bool :=
  match d.entry true path with
  | .ok (.file _) => true
  | _ => false

def has (d : Disk) (path : String) : Bool :=
  match d.entry true path with
  | .ok _ => true
  | .error _ => false

def text (d : Disk) (path : String) : Except DiskFault String := do
  match ← d.entry true path with
  | .file (.text s) => return s
  | .file (.bytes _) => .error .notText
  | .folder _ => .error .isFolder
  | .link _ => .error .tooManyLinks

def folder (d : Disk) (path : String) : Except DiskFault Folder := do
  match ← d.entry true path with
  | .folder entries => return entries
  | _ => .error .notFolder

def lift {α : Type} (outcome : Disk → Except DiskFault α) : DiskAction α := fun d =>
  match outcome d with
  | .ok a => .ok a d
  | .error fault => .error fault d

def putAt (place : List String) (e : Entry) : DiskAction Unit :=
  modify fun d => { d with top := d.top.putAt place e }

def makeFolder (path : String) : DiskAction Unit := do
  let place ← lift fun d => do d.place false (Path.isAbsolute path) (← namesOf path)
  match (← get).top.at? place with
  | some _ => throw .alreadyThere
  | none => putAt place (.folder .empty)

/-- Makes the folder at a path unless it is there, and before it those that hold it. -/
def makeFoldersWithin : (steps : Nat) → (path : String) → DiskAction Unit
  | 0, _ => throw .nameTooLong
  | steps + 1, path => do
    if path.isEmpty then return
    let outcome := makeFolder path (← get)
    match outcome with
    | .ok _ d => set d
    | .error .noEntry _ =>
      match Path.parent? path with
      | none => throw .noEntry
      | some parent =>
        makeFoldersWithin steps parent
        match makeFolder path (← get) with
        | .ok _ d => set d
        | .error fault _ => if (← get).hasFolder path then pure () else throw fault
    | .error fault _ => if (← get).hasFolder path then pure () else throw fault

/-- Makes the folder at a path unless it is there, and before it those that hold it. -/
def makeFolders (path : String) : DiskAction Unit :=
  makeFoldersWithin (path.length + 1) path

def writeAt (place : List String) (content : Content) : DiskAction Unit := do
  match (← get).top.at? place with
  | some (.folder _) => throw .isFolder
  | _ => putAt place (.file content)

def writeText (path text : String) : DiskAction Unit := do
  writeAt (← lift fun d => d.resolve true path) (.text text)

/-- The path of the folder that a path without a folder is read in. -/
def orHere (root : String) : String :=
  if root.isEmpty then "." else root

/-- A name like those that new files get until they are complete. -/
def draftName : String := ".tmp000000"

/-- The place of a folder in which a new file can be begun. -/
def draftPlace (d : Disk) (folder : String) : Except DiskFault (List String) := do
  let _ ← namesOf (d.absolutePath (Path.join folder draftName))
  let place ← d.resolve true (orHere folder)
  match d.top.at? place with
  | some (.folder _) => return place
  | some _ => .error .notFolder
  | none => .error .noEntry

/-- Puts a file into a folder, in the place of a file or a link of that name. The file is begun
under another name, and gets its own when it is complete. -/
def replaceFile (folder name text : String) : DiskAction Unit := do
  let place ← lift fun d => d.draftPlace folder
  let _ ← lift fun _ => namesOf (Path.join folder name)
  writeAt (place ++ [name]) (.text text)

/-- The path, without the slashes at its end, leads to a link. -/
def namesLink (d : Disk) (path : String) : Bool :=
  match d.place false (Path.isAbsolute path) (Path.names path) with
  | .error _ => false
  | .ok place =>
    match d.top.at? place with
    | some (.link _) => true
    | _ => false

/-- Removes the folder at a path with all it holds. Under the name of a single dot, or of a link
with a slash after it, a folder cannot be removed, but it is emptied. A link is removed itself. -/
def removeFolder (path : String) : DiskAction Unit := do
  let place ← lift fun d => d.resolve false path
  match (← get).top.at? place with
  | none => throw .noEntry
  | some (.file _) => throw .notFolder
  | some (.link _) => modify fun d => { d with top := d.top.eraseAt place }
  | some (.folder _) =>
    if (Path.names path).getLast? = some "." then
      putAt place (.folder .empty)
      throw .invalidArgument
    else if (← get).namesLink path then
      putAt place (.folder .empty)
      throw .notFolder
    else modify fun d => { d with top := d.top.eraseAt place }

end Disk

end Mutagenesis
