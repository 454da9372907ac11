import Mutagenesis.Shell.Expansion

/-!
# Words and assignments of commands

What the words of a command stand for, and what its assignments do.
-/

namespace Mutagenesis.Shell

open Act

def declaringBuiltins : List String :=
  ["export", "readonly", "local"]

def expandWords (substitute : Substitute) (before : List Octets) : List Word → Act (List Octets)
  | [] => return before
  | w :: rest => do
    let declares := before.head?.any fun name => String.ofList name ∈ declaringBuiltins
    let fields ← match if declares then Word.assignment? w else none with
      | some (name, value) => do
        pure [name ++ '=' :: (← expandText substitute .inValue value)]
      | none => expandFields substitute w
    expandWords substitute (before ++ fields) rest

def assignWord (substitute : Substitute) (assignment : Octets × Word) : Act (Octets × Octets) := do
  let (name, w) := assignment
  let value ← expandText substitute .inValue w
  assign name value
  if let [.list words] := w then
    let items := (← words.mapM (expandFields substitute)).flatten
    let setting := (← setting? name).getD {}
    putSetting name (some { setting with value := items.head?, items := items })
  return (name, value)

def assignForCommand (substitute : Substitute) (assignment : Octets × Word) :
    Act (Octets × Octets) := do
  let (name, w) := assignment
  let value ← expandText substitute .inValue w
  remember name
  assign name value
  let setting := (← setting? name).getD {}
  putSetting name (some { setting with exported := true })
  return (name, value)

end Mutagenesis.Shell
