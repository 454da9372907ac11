import Mutagenesis.Binary64

/-!
# JSON values

The values of JSON. The fields of an object are kept in the order in which they were given;
`sorted` puts them in increasing order of their names and keeps the last of several with one name.
-/

set_option autoImplicit false

namespace Mutagenesis

/-- A number: whole numbers of 64 bits, signed or not, and binary floating point numbers. -/
inductive JsonNumber where
  | integer (n : Int)
  | real (x : Binary64)
  deriving DecidableEq, Repr

/-- A JSON value. -/
inductive Json where
  | null
  | bool (b : Bool)
  | number (n : JsonNumber)
  | string (s : String)
  | array (items : List Json)
  | object (fields : List (String × Json))
  deriving Repr, Inhabited, BEq

namespace Json

def nat (n : Nat) : Json :=
  .number (.integer n)

def strings (items : List String) : Json :=
  .array (items.map .string)

/-- Puts a field into fields in increasing order; one of the same name is replaced. -/
def insertField (name : String) (value : Json) : List (String × Json) → List (String × Json)
  | [] => [(name, value)]
  | (other, kept) :: rest =>
    if name < other then (name, value) :: (other, kept) :: rest
    else if name = other then (name, value) :: rest
    else (other, kept) :: insertField name value rest

mutual

/-- The value with the fields of all its objects in increasing order; of several fields with one
name the last one stays. -/
def sorted : Json → Json
  | .array items => .array (sortedItems items)
  | .object fields =>
    .object ((sortedFields fields).foldl (fun sofar f => insertField f.1 f.2 sofar) [])
  | other => other

/-- Sorts the fields in every value of a list. -/
def sortedItems : List Json → List Json
  | [] => []
  | item :: rest => sorted item :: sortedItems rest

/-- Sorts the fields in every value of an object. -/
def sortedFields : List (String × Json) → List (String × Json)
  | [] => []
  | (name, value) :: rest => (name, sorted value) :: sortedFields rest

end

def field? (name : String) : Json → Option Json
  | .object fields => fields.lookup name
  | _ => none

end Json

end Mutagenesis
