import Mutagenesis.Json

/-!
# Wanted parts of JSON values

A reader of a text may want only some fields of it. What nobody wants is passed over: it has to be
written like JSON, but it may be nested to any depth, hold numbers of any size, and name halves of
surrogate pairs.
-/

set_option autoImplicit false

namespace Mutagenesis.Json

/-- The parts of a value that are wanted. -/
inductive Want where
  | everything
  | list (item : Want)
  /-- Some fields of an object, or the first items of an array, one for each of the fields. -/
  | record (fields : List (String × Want))

namespace Want

def field? (name : String) : Want → Option Want
  | record fields => fields.lookup name
  | _ => some everything

def item (index : Nat) : Want → Want
  | everything => everything
  | list item => item
  | record fields => ((fields[index]?).map Prod.snd).getD everything

end Want

end Mutagenesis.Json
