import Mutagenesis.Disk
import Mutagenesis.Shell.Pattern

/-!
# Patterns of paths

A pattern of a path is matched part by part, where slashes divide it.
-/

namespace Mutagenesis.Shell.Wildcard

def namesIn (d : Disk) (path : Octets) : List Octets :=
  match d.folder (if path.isEmpty then "." else Octets.toText path) with
  | .ok entries => [['.'], ['.', '.']] ++ entries.names.map Octets.ofText
  | .error _ => []

def isThere (d : Disk) (path : Octets) : Bool :=
  match d.entry false (Octets.toText path) with
  | .ok _ => true
  | .error _ => false

def matchesFrom (d : Disk) (before : Octets) : List Pattern → List Octets
  | [] => [before]
  | part :: rest =>
    let extend (name : Octets) : Octets :=
      before ++ name ++ if rest.isEmpty then [] else ['/']
    if Pattern.isSpecial part then
      let hidden := (Pattern.unescaped part).head? = some '.'
      let names := (namesIn d before).filter fun name =>
        (hidden || name.head? ≠ some '.') && Pattern.isMatch part name
      (names.mergeSort Octets.le).flatMap fun name => matchesFrom d (extend name) rest
    else matchesFrom d (extend (Pattern.unescaped part)) rest

def partsOf : Pattern → List Pattern
  | [] => [[]]
  | ('/', _) :: rest => [] :: partsOf rest
  | item :: rest =>
    match partsOf rest with
    | part :: parts => (item :: part) :: parts
    | [] => [[item]]

def isSpecial (p : Pattern) : Bool :=
  (partsOf p).any Pattern.isSpecial

def paths (d : Disk) (p : Pattern) : List Octets :=
  ((matchesFrom d [] (partsOf p)).filter (isThere d)).mergeSort Octets.le

end Mutagenesis.Shell.Wildcard
