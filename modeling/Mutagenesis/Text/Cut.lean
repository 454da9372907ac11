/-!
# Cutting a text at a separator

`cutFirst?` and `cutLast?` split a text around the first or the last occurrence of a separator,
which belongs to neither part.
-/

set_option autoImplicit false

namespace Mutagenesis.Text

/-- What follows `lead` in a text that starts with it. -/
def after? (lead cs : List Char) : Option (List Char) :=
  lead.isPrefixOf? cs

/-- The text before and after the first occurrence of the separator. -/
def cutFirst? (separator : List Char) : List Char → Option (List Char × List Char)
  | [] => (after? separator []).map fun rest => ([], rest)
  | c :: cs =>
    match after? separator (c :: cs) with
    | some rest => some ([], rest)
    | none => (cutFirst? separator cs).map fun (before, rest) => (c :: before, rest)

/-- The text before and after the last occurrence of a character. -/
def cutLast? (separator : Char) : List Char → Option (List Char × List Char)
  | [] => none
  | c :: cs =>
    match cutLast? separator cs with
    | some (before, rest) => some (c :: before, rest)
    | none => if c = separator then some ([], cs) else none

/-- The pieces between the occurrences of a character; a text without it is one piece. -/
def pieces (separator : Char) : List Char → List (List Char)
  | [] => [[]]
  | c :: cs =>
    if c = separator then [] :: pieces separator cs
    else
      match pieces separator cs with
      | [] => [[c]]
      | piece :: rest => (c :: piece) :: rest

def endsWith (cs tail : List Char) : Bool :=
  tail.isSuffixOf cs

end Mutagenesis.Text
