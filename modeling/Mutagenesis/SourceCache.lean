/-!
# Cached sources

The texts of files that were read from a backend, by the name of the snapshot and the path of the
file.
-/

set_option autoImplicit false

namespace Mutagenesis

/-- A file of a snapshot with its text. -/
structure CachedFile where
  snapshot : String
  path : String
  text : String
  deriving DecidableEq, Repr

/-- The files that were read, at most one for each snapshot and path. -/
abbrev SourceCache := List CachedFile

namespace SourceCache

def text? (c : SourceCache) (snapshot path : String) : Option String :=
  (List.find? (fun file => file.snapshot = snapshot ∧ file.path = path) c).map (·.text)

/-- Keeps the text of a file, unless there is one already. -/
def add (c : SourceCache) (snapshot path text : String) : SourceCache :=
  match c.text? snapshot path with
  | some _ => c
  | none => c ++ [⟨snapshot, path, text⟩]

def forget (c : SourceCache) (snapshot path : String) : SourceCache :=
  c.filter fun file => ¬(file.snapshot = snapshot ∧ file.path = path)

def forgetSnapshot (c : SourceCache) (snapshot : String) : SourceCache :=
  c.filter (·.snapshot ≠ snapshot)

end SourceCache

end Mutagenesis
