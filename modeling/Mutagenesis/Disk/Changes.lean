import Mutagenesis.Disk.Folder

/-!
# Changes between folders

The steps that turn what is in one folder into what is in another one: what has to go is removed
first, then folders are made and files written, each folder before what it holds. Links are neither
made nor changed.
-/

set_option autoImplicit false

namespace Mutagenesis

namespace Folder

/-- A step that changes what is at a path. -/
inductive Change where
  | removeFile (path : List String)
  | removeFolder (path : List String)
  | makeFolder (path : List String)
  | write (path : List String) (content : Content)
  deriving DecidableEq, Repr

/-- What has to be removed from a folder at a path, so that it can become `goal`. -/
def removals (path : List String) (goal : Folder) : Folder → List Change
  | empty => []
  | file name _ rest =>
    let here := match goal.child? name with
      | some (.file _) => []
      | _ => [.removeFile (path ++ [name])]
    here ++ removals path goal rest
  | link name _ rest =>
    let here := match goal.child? name with
      | some (.link _) => []
      | _ => [.removeFile (path ++ [name])]
    here ++ removals path goal rest
  | sub name children rest =>
    let here := match goal.child? name with
      | some (.folder inner) => removals (path ++ [name]) inner children
      | _ => [.removeFolder (path ++ [name])]
    here ++ removals path goal rest

/-- What has to be made and written in a folder at a path that was `start`. -/
def additions (path : List String) (start : Folder) : Folder → List Change
  | empty => []
  | file name content rest =>
    let here := if start.child? name = some (.file content) then []
      else [.write (path ++ [name]) content]
    here ++ additions path start rest
  | link _ _ rest => additions path start rest
  | sub name children rest =>
    let here := match start.child? name with
      | some (.folder inner) => additions (path ++ [name]) inner children
      | _ => .makeFolder (path ++ [name]) :: additions (path ++ [name]) .empty children
    here ++ additions path start rest

/-- The steps from one folder to another one. -/
def changes (start goal : Folder) : List Change :=
  removals [] goal start ++ additions [] start goal

end Folder

end Mutagenesis
