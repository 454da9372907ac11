import Mutagenesis.Text.Cut

/-!
# Paths as they are written

Paths are texts with slashes between names. They are joined and shown as written; only when
something is looked up, a path is read name by name.
-/

set_option autoImplicit false

namespace Mutagenesis.Path

def isAbsolute (path : String) : Bool :=
  path.toList.head? = some '/'

def endsInSlash (path : String) : Bool :=
  path.toList.getLast? = some '/'

/-- The names of a path, single and double dots among them. -/
def names (path : String) : List String :=
  ((Text.pieces '/' path.toList).filter (· ≠ [])).map String.ofList

/-- A path that follows another one; an absolute path stands for itself. -/
def join (base path : String) : String :=
  if isAbsolute path ∨ base.isEmpty then path
  else if endsInSlash base then base ++ path
  else base ++ "/" ++ path

/-- A path without slashes, and single dots after slashes, at its end (read backwards). -/
def withoutTail : List Char → List Char
  | '/' :: rest => withoutTail rest
  | '.' :: '/' :: rest => withoutTail rest
  | cs => cs

def parent? (path : String) : Option String :=
  match withoutTail path.toList.reverse with
  | [] => none
  | backwards =>
    let before := backwards.dropWhile (· != '/')
    if before.isEmpty then some ""
    else
      let before := withoutTail before
      some (if before.isEmpty then "/" else String.ofList before.reverse)

/-- A path that cannot leave the folder it is relative to: it is not empty, not absolute, and never
goes up. -/
def isRelative (path : String) : Bool :=
  !path.isEmpty && !isAbsolute path && !(names path).contains ".."

end Mutagenesis.Path
