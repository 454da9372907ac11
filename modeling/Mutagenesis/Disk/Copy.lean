import Mutagenesis.Disk

/-!
# Copying trees

Copies the files and folders of a folder into another one, which is made if need be. Links are left
out, and so is what `skip` says, with all that it holds. What is in the way is overwritten if it is
a file; what else is there stays.
-/

set_option autoImplicit false

namespace Mutagenesis.Disk

/-- Makes the folder under a name in a folder, unless there is one, and gives its place. -/
def enterFolder (target : List String) (name : String) : DiskAction (List String) := do
  let place ← lift fun d => d.place true true (target ++ [name])
  match (← get).top.at? place with
  | some (.folder _) => return place
  | some _ => throw .alreadyThere
  | none =>
    match (← get).top.at? (target ++ [name]) with
    | some _ => throw .alreadyThere
    | none =>
      putAt place (.folder .empty)
      return place

/-- Copies a file into a folder. A file that is copied onto itself loses what it holds. -/
def copyFile (source target : List String) (name : String) (content : Content) :
    DiskAction Unit := do
  let place ← lift fun d => d.place true true (target ++ [name])
  writeAt place (if place = source ++ [name] then .text "" else content)

/-- Copies entries of the folder at `source` into the folder at `target`. -/
def copyEntries (skip : String → Bool) (source target : List String) :
    Folder → DiskAction Unit
  | .empty => pure ()
  | .file name content rest => do
    if !skip name then copyFile source target name content
    copyEntries skip source target rest
  | .link _ _ rest => copyEntries skip source target rest
  | .sub name children rest => do
    if !skip name then
      copyEntries skip (source ++ [name]) (← enterFolder target name) children
    copyEntries skip source target rest

/-- The target lies below the source, and nothing on the way to it is left out: copying would never
end. -/
def isEndless (skip : String → Bool) (source target : List String) : Bool :=
  match source.isPrefixOf? target with
  | some (name :: rest) => !(name :: rest).any skip
  | _ => false

def copyTree (skip : String → Bool) (source target : String) : DiskAction Unit := do
  makeFolders target
  let entries ← lift fun d => d.folder source
  let start ← lift fun d => d.resolve true source
  let goal ← lift fun d => d.resolve true target
  if isEndless skip start goal then throw .nameTooLong
  copyEntries skip start goal entries

/-- The names of entries that no image takes: of version control, and of built things. -/
def unwantedNames : List String :=
  [".git", ".hg", ".svn", "node_modules", ".venv", "venv", "__pycache__", ".tox", ".mypy_cache",
   ".pytest_cache", "target", "dist", "build"]

/-- The endings of entries that no image takes. -/
def unwantedEndings : List String :=
  [".o", ".obj", ".pyc", ".pyo", ".orig", ".rej"]

/-- An entry that no image takes. -/
def isUnwanted (name : String) : Bool :=
  name ∈ unwantedNames || unwantedEndings.any fun ending =>
    Text.endsWith name.toList ending.toList

/-- Copies the files of a program, without those of version control and built ones. -/
def copyProgram (source target : String) : DiskAction Unit :=
  copyTree isUnwanted source target

def copyAll (source target : String) : DiskAction Unit :=
  copyTree (fun _ => false) source target

end Mutagenesis.Disk
