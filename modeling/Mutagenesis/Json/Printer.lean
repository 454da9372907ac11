import Mutagenesis.Json

/-!
# Writing JSON

Two layouts: on one line without blanks, and spread over lines with an indentation of two blanks
for each level.
-/

set_option autoImplicit false

namespace Mutagenesis.Json

def hexDigit (n : Nat) : Char :=
  Nat.digitChar (n % 16)

/-- A character inside a string: quotes, backslashes and control characters are escaped. -/
def writeChar (c : Char) : List Char :=
  if c = '"' then ['\\', '"']
  else if c = '\\' then ['\\', '\\']
  else if c = '\n' then ['\\', 'n']
  else if c = '\r' then ['\\', 'r']
  else if c = '\t' then ['\\', 't']
  else if c.toNat = 0x8 then ['\\', 'b']
  else if c.toNat = 0xC then ['\\', 'f']
  else if c.toNat < 0x20 then
    ['\\', 'u', '0', '0', hexDigit (c.toNat / 16), hexDigit c.toNat]
  else [c]

def writeString (s : String) : List Char :=
  '"' :: s.toList.flatMap writeChar ++ ['"']

def writeNumber : JsonNumber → List Char
  | .integer n => if n < 0 then '-' :: Numeral.write n.natAbs else Numeral.write n.natAbs
  | .real x => x.text.toList

/-- A value that holds no other one. -/
def writeScalar : Json → List Char
  | .null => "null".toList
  | .bool true => "true".toList
  | .bool false => "false".toList
  | .number n => writeNumber n
  | .string s => writeString s
  | _ => []

mutual

def writeCompact : Json → List Char
  | .array [] => ['[', ']']
  | .array (item :: rest) => '[' :: writeCompact item ++ writeCompactItems rest ++ [']']
  | .object [] => ['{', '}']
  | .object ((name, value) :: rest) =>
    '{' :: writeString name ++ ':' :: writeCompact value ++ writeCompactFields rest ++ ['}']
  | scalar => writeScalar scalar

/-- The items of an array after the first one. -/
def writeCompactItems : List Json → List Char
  | [] => []
  | item :: rest => ',' :: writeCompact item ++ writeCompactItems rest

/-- The fields of an object after the first one. -/
def writeCompactFields : List (String × Json) → List Char
  | [] => []
  | (name, value) :: rest =>
    ',' :: writeString name ++ ':' :: writeCompact value ++ writeCompactFields rest

end

def newLine (level : Nat) : List Char :=
  '\n' :: List.replicate (2 * level) ' '

mutual

/-- A value over several lines, inside `level` others. -/
def writePretty (level : Nat) : Json → List Char
  | .array [] => ['[', ']']
  | .array (item :: rest) =>
    '[' :: newLine (level + 1) ++ writePretty (level + 1) item ++
      writePrettyItems (level + 1) rest ++ newLine level ++ [']']
  | .object [] => ['{', '}']
  | .object ((name, value) :: rest) =>
    '{' :: newLine (level + 1) ++ writeString name ++ [':', ' '] ++
      writePretty (level + 1) value ++ writePrettyFields (level + 1) rest ++ newLine level ++ ['}']
  | scalar => writeScalar scalar

/-- The items of an array after the first one. -/
def writePrettyItems (level : Nat) : List Json → List Char
  | [] => []
  | item :: rest => ',' :: newLine level ++ writePretty level item ++ writePrettyItems level rest

/-- The fields of an object after the first one. -/
def writePrettyFields (level : Nat) : List (String × Json) → List Char
  | [] => []
  | (name, value) :: rest =>
    ',' :: newLine level ++ writeString name ++ [':', ' '] ++ writePretty level value ++
      writePrettyFields level rest

end

def compact (j : Json) : String :=
  String.ofList (writeCompact j)

def pretty (j : Json) : String :=
  String.ofList (writePretty 0 j)

end Mutagenesis.Json
