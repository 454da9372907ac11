import Mutagenesis.Text.Cut

/-!
# File names and their endings

The name of a file is the last component of its path. Its extension is what follows the last dot
of the name, unless that dot is the first character.
-/

set_option autoImplicit false

namespace Mutagenesis.FileName

/-- The components of a path, without empty ones and single dots. -/
def components (path : List Char) : List (List Char) :=
  (Text.pieces '/' path).filter fun piece => piece ≠ [] ∧ piece ≠ ['.']

/-- The name at the end of a path, unless the path ends in the parent of something. -/
def name? (path : List Char) : Option (List Char) :=
  match (components path).getLast? with
  | none => none
  | some last => if last = ['.', '.'] then none else some last

/-- The extension of a path's name, without its dot. -/
def extension? (path : List Char) : Option (List Char) :=
  match name? path with
  | none => none
  | some name =>
    match Text.cutLast? '.' name with
    | none => none
    | some (stem, extension) => if stem.isEmpty then none else some extension

/-- The ending of a path's name, with its dot. -/
def ending? (path : String) : Option String :=
  (extension? path.toList).map fun extension => String.ofList ('.' :: extension)

end Mutagenesis.FileName
