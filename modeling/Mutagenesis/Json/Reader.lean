import Mutagenesis.Json.Want
import Mutagenesis.Text.Size

/-!
# Reading JSON

`parse` reads a text as one JSON value, and `parseWanted` reads the wanted parts of one. Values that
are wanted may be nested up to a fixed depth. A fault carries the line and the column at which
reading stopped.
-/

set_option autoImplicit false

namespace Mutagenesis.Json

/-- Why a text is not JSON. -/
inductive Problem where
  | expectedValue
  | expectedIdent
  | expectedItemOrEnd
  | expectedFieldOrEnd
  | expectedColon
  | keyMustBeString
  | trailingComma
  | endOfValue
  | endOfList
  | endOfObject
  | endOfString
  | controlCharacter
  | badEscape
  | loneSurrogate
  | missingSurrogate
  | badNumber
  | numberOutOfRange
  | tooDeep
  | trailingCharacters
  deriving DecidableEq, Repr

def Problem.message : Problem → String
  | expectedValue => "expected value"
  | expectedIdent => "expected ident"
  | expectedItemOrEnd => "expected `,` or `]`"
  | expectedFieldOrEnd => "expected `,` or `\x7d`"
  | expectedColon => "expected `:`"
  | keyMustBeString => "key must be a string"
  | trailingComma => "trailing comma"
  | endOfValue => "EOF while parsing a value"
  | endOfList => "EOF while parsing a list"
  | endOfObject => "EOF while parsing an object"
  | endOfString => "EOF while parsing a string"
  | controlCharacter => "control character (\\u0000-\\u001F) found while parsing a string"
  | badEscape => "invalid escape"
  | loneSurrogate => "lone leading surrogate in hex escape"
  | missingSurrogate => "unexpected end of hex escape"
  | badNumber => "invalid number"
  | numberOutOfRange => "number out of range"
  | tooDeep => "recursion limit exceeded"
  | trailingCharacters => "trailing characters"

/-- A problem and the number of bytes that were left. -/
structure Trouble where
  problem : Problem
  left : Nat
  deriving DecidableEq, Repr

def stop {α : Type} (problem : Problem) (cs : List Char) : Except Trouble α :=
  .error ⟨problem, Text.byteLength cs⟩

/-- Reading stops after the first byte of a text, or at its end. -/
def stopPast {α : Type} (problem : Problem) (cs : List Char) : Except Trouble α :=
  .error ⟨problem, Text.byteLength cs - 1⟩

def isSpace (c : Char) : Bool :=
  c == ' ' || c == '\n' || c == '\t' || c == '\r'

/-- A text without the blanks it starts with. -/
def skipSpace (cs : List Char) : List Char :=
  cs.dropWhile isSpace

def hexValue? (c : Char) : Option Nat :=
  if '0' ≤ c ∧ c ≤ '9' then some (c.toNat - '0'.toNat)
  else if 'a' ≤ c ∧ c ≤ 'f' then some (c.toNat - 'a'.toNat + 10)
  else if 'A' ≤ c ∧ c ≤ 'F' then some (c.toNat - 'A'.toNat + 10)
  else none

def hexValue4? (a b c d : Char) : Option Nat := do
  return ((← hexValue? a) * 16 + (← hexValue? b)) * 256 + (← hexValue? c) * 16 + (← hexValue? d)

/-- The character that a letter after a backslash stands for. -/
def escaped? : Char → Option Char
  | '"' => some '"'
  | '\\' => some '\\'
  | '/' => some '/'
  | 'b' => some '\x08'
  | 'f' => some '\x0c'
  | 'n' => some '\n'
  | 'r' => some '\r'
  | 't' => some '\t'
  | _ => none

/-- Four bytes after `\u` are no hexadecimal digits, or the text ends before them. -/
def stopAtHex {α : Type} (cs : List Char) : Except Trouble α :=
  if Text.byteLength cs < 4 then .error ⟨.endOfString, 0⟩
  else .error ⟨.badEscape, Text.byteLength cs - 4⟩

/-- The second half of a surrogate pair is not there. -/
def stopInPair {α : Type} : List Char → Except Trouble α
  | [] | ['\\'] => stop .endOfString []
  | '\\' :: 'u' :: few => stopAtHex few
  | '\\' :: rest => stopPast .missingSurrogate rest
  | rest => stopPast .missingSurrogate rest

def readString : List Char → Except Trouble (List Char × List Char)
  | [] => stop .endOfString []
  | c :: rest =>
    if c = '"' then .ok ([], rest)
    else if c = '\\' then
      match rest with
      | 'u' :: a :: b :: c :: d :: rest =>
        match hexValue4? a b c d with
        | none => stopAtHex (a :: b :: c :: d :: rest)
        | some n =>
          if 0xDC00 ≤ n ∧ n ≤ 0xDFFF then stop .loneSurrogate rest
          else if 0xD800 ≤ n ∧ n ≤ 0xDBFF then
            match rest with
            | '\\' :: 'u' :: a :: b :: c :: d :: rest =>
              match hexValue4? a b c d with
              | none => stopAtHex (a :: b :: c :: d :: rest)
              | some m =>
                if 0xDC00 ≤ m ∧ m ≤ 0xDFFF then do
                  let (cs, rest) ← readString rest
                  return (Char.ofNat (0x10000 + (n - 0xD800) * 0x400 + (m - 0xDC00)) :: cs, rest)
                else stop .loneSurrogate rest
            | rest => stopInPair rest
          else do
            let (cs, rest) ← readString rest
            return (Char.ofNat n :: cs, rest)
      | 'u' :: few => stopAtHex few
      | e :: rest =>
        match escaped? e with
        | none => stopPast .badEscape (e :: rest)
        | some c => do
          let (cs, rest) ← readString rest
          return (c :: cs, rest)
      | [] => stop .endOfString []
    else if c.toNat < 0x20 then stop .controlCharacter rest
    else do
      let (cs, rest) ← readString rest
      return (c :: cs, rest)

/-- The digits that a text starts with, and the rest. -/
def spanDigits (cs : List Char) : List Char × List Char :=
  (cs.takeWhile Char.isDigit, cs.dropWhile Char.isDigit)

def stopAtDigit {α : Type} : List Char → Except Trouble α
  | [] => stop .endOfValue []
  | cs => stopPast .badNumber cs

/-- The digits after a point, if there is one. -/
def readFraction (cs : List Char) : Except Trouble (Option (List Char) × List Char) :=
  match cs with
  | '.' :: rest =>
    let (ds, rest) := spanDigits rest
    if ds.isEmpty then stopAtDigit rest else .ok (some ds, rest)
  | _ => .ok (none, cs)

def powerLimit : Nat := Nat.pow 2 31 - 1

/-- What a power of ten beyond the limit leaves unread when it is first seen to be so. -/
def beyondLimit? (value : Nat) : List Char → Option (List Char)
  | [] => none
  | c :: cs =>
    if c.isDigit then
      let value := value * 10 + (c.toNat - '0'.toNat)
      if powerLimit < value then some cs else beyondLimit? value cs
    else none

/-- The power of ten after an `e`, if there is one. A power beyond the limit is only taken if it is
negative or multiplies a zero. -/
def readExponent (isZero : Bool) (cs : List Char) : Except Trouble (Option Int × List Char) :=
  match cs with
  | e :: rest =>
    if e = 'e' ∨ e = 'E' then
      let (negative, rest) := match rest with
        | '-' :: rest => (true, rest)
        | '+' :: rest => (false, rest)
        | _ => (false, rest)
      let (ds, after) := spanDigits rest
      if ds.isEmpty then stopAtDigit rest
      else
        let n : Int := min ((Numeral.digitsValue? 0 ds).getD 0) (powerLimit + 1)
        match beyondLimit? 0 rest with
        | some left =>
          if isZero ∨ negative then .ok (some (-n), after) else stop .numberOutOfRange left
        | none => .ok (some (if negative then -n else n), after)
    else .ok (none, cs)
  | [] => .ok (none, [])

/-- A whole number of 64 bits; a negative zero and what does not fit become floating point
numbers. -/
def wholeNumber? (negative : Bool) (ds : List Char) : Option JsonNumber :=
  let n := (Numeral.digitsValue? 0 ds).getD 0
  if negative ∧ 0 < n ∧ n ≤ Nat.pow 2 63 then some (.integer (-(n : Int)))
  else if negative = false ∧ n < Numeral.limit then some (.integer n)
  else
    let (digits, dropped) := Binary64.takeDigits 0 ds
    (Binary64.scaled? negative digits dropped).map .real

/-- A number: digits without a leading zero, then perhaps a fraction and a power of ten. -/
def readUnsigned (negative : Bool) (cs : List Char) : Except Trouble (JsonNumber × List Char) :=
  match cs with
  | '0' :: c :: rest => if c.isDigit then stopPast .badNumber (c :: rest) else parts cs
  | _ => parts cs
where
  /-- The parts of a number, after its sign. -/
  parts (cs : List Char) : Except Trouble (JsonNumber × List Char) := do
    let (whole, rest) := spanDigits cs
    if whole.isEmpty then stopAtDigit rest
    else
      let (fraction, rest) ← readFraction rest
      let places := fraction.getD []
      let (digits, droppedWhole) := Binary64.takeDigits 0 whole
      let (digits, droppedPlaces) := Binary64.takeDigits digits places
      let dropped : Int := droppedWhole + droppedPlaces
      let (exponent, rest) ← readExponent (digits = 0) rest
      let number := match fraction, exponent with
        | none, none => wholeNumber? negative whole
        | _, _ =>
          (Binary64.scaled? negative digits
            (exponent.getD 0 + dropped - places.length)).map .real
      match number with
      | none => stop .numberOutOfRange rest
      | some n => .ok (n, rest)

/-- A number with a minus sign or without. -/
def readNumber (cs : List Char) : Except Trouble (JsonNumber × List Char) :=
  match cs with
  | '-' :: rest => readUnsigned true rest
  | _ => readUnsigned false cs

def readWord (value : Json) : (word : List Char) → List Char → Except Trouble (Json × List Char)
  | [], cs => .ok (value, cs)
  | _ :: _, [] => stop .endOfValue []
  | w :: word, c :: cs =>
    if c = w then readWord value word cs else stopPast .expectedIdent (c :: cs)

def skipString : List Char → Except Trouble (List Char)
  | [] => stop .endOfString []
  | '"' :: rest => .ok rest
  | '\\' :: 'u' :: a :: b :: c :: d :: rest =>
    match hexValue4? a b c d with
    | none => stopAtHex (a :: b :: c :: d :: rest)
    | some _ => skipString rest
  | '\\' :: 'u' :: few => stopAtHex few
  | '\\' :: e :: rest =>
    match escaped? e with
    | none => stopPast .badEscape (e :: rest)
    | some _ => skipString rest
  | c :: rest =>
    if c = '\\' then stop .endOfString rest
    else if c.toNat < 0x20 then stop .controlCharacter rest
    else skipString rest

/-- Passes over the power of ten after an `e`, if there is one. -/
def skipExponent : List Char → Except Trouble (List Char)
  | [] => .ok []
  | e :: rest =>
    if e = 'e' ∨ e = 'E' then
      let rest := match rest with
        | '-' :: rest => rest
        | '+' :: rest => rest
        | _ => rest
      let (ds, after) := spanDigits rest
      if ds.isEmpty then stopAtDigit rest else .ok after
    else .ok (e :: rest)

def skipNumber (cs : List Char) : Except Trouble (List Char) := do
  let cs := match cs with
    | '-' :: rest => rest
    | _ => cs
  match cs with
  | '0' :: c :: rest => if c.isDigit then stopPast .badNumber (c :: rest)
  | _ => pure ()
  let (whole, rest) := spanDigits cs
  if whole.isEmpty then stopAtDigit rest
  else
    let (_, rest) ← readFraction rest
    skipExponent rest

/-- A string, if it is wanted. -/
def readStringIf (wanted : Bool) (cs : List Char) : Except Trouble (String × List Char) := do
  if wanted then
    let (s, rest) ← readString cs
    return (String.ofList s, rest)
  else return ("", ← skipString cs)

/-- A number, if it is wanted. -/
def readNumberIf (wanted : Bool) (cs : List Char) : Except Trouble (Json × List Char) := do
  if wanted then
    let (n, rest) ← readNumber cs
    return (.number n, rest)
  else return (.null, ← skipNumber cs)

/-- The depth that is left inside a collection; what is not wanted may be nested to any depth. -/
def depthInside? (wanted : Bool) (depth : Nat) : Option Nat :=
  if wanted then if depth ≤ 1 then none else some (depth - 1) else some depth

mutual

/-- A value, perhaps after blanks; collections may be nested `depth` deep. What is not wanted is
passed over, and some value stands for it. Each step takes one unit of `steps`, which a text has no
more of than characters. -/
def readValue (want : Option Want) (depth : Nat) :
    (steps : Nat) → List Char → Except Trouble (Json × List Char)
  | 0, cs => stop .endOfValue cs
  | steps + 1, cs =>
    match skipSpace cs with
    | [] => stop .endOfValue []
    | c :: rest =>
      if c = '"' then do
        let (s, rest) ← readStringIf want.isSome rest
        return (.string s, rest)
      else if c = '[' then
        match depthInside? want.isSome depth with
        | none => stop .tooDeep rest
        | some depth =>
          match skipSpace rest with
          | [] => stop .endOfList []
          | ']' :: rest => .ok (.array [], rest)
          | rest => do
            let (first, rest) ← readValue (want.map (·.item 0)) depth steps rest
            let (items, rest) ← readItems want 1 depth steps rest
            return (.array (first :: items), rest)
      else if c = '{' then
        match depthInside? want.isSome depth with
        | none => stop .tooDeep rest
        | some depth =>
          match skipSpace rest with
          | [] => stop .endOfObject []
          | '}' :: rest => .ok (.object [], rest)
          | rest => do
            let (first, rest) ← readField want depth steps rest
            let (fields, rest) ← readFields want depth steps rest
            return (.object (first :: fields), rest)
      else if c = 'n' then readWord .null "ull".toList rest
      else if c = 't' then readWord (.bool true) "rue".toList rest
      else if c = 'f' then readWord (.bool false) "alse".toList rest
      else if c = '-' ∨ c.isDigit then readNumberIf want.isSome (c :: rest)
      else stopPast .expectedValue (c :: rest)
termination_by structural steps => steps

/-- The items of an array after the first `index` ones, and its end. -/
def readItems (want : Option Want) (index depth : Nat) :
    (steps : Nat) → List Char → Except Trouble (List Json × List Char)
  | 0, cs => stop .endOfList cs
  | steps + 1, cs =>
    match skipSpace cs with
    | [] => stop .endOfList []
    | ']' :: rest => .ok ([], rest)
    | ',' :: rest =>
      match skipSpace rest with
      | [] => stop .endOfValue []
      | ']' :: rest => stop .trailingComma rest
      | rest => do
        let (item, rest) ← readValue (want.map (·.item index)) depth steps rest
        let (items, rest) ← readItems want (index + 1) depth steps rest
        return (item :: items, rest)
    | rest => stopPast .expectedItemOrEnd rest
termination_by structural steps => steps

/-- A field of an object: its name, a colon and its value. -/
def readField (want : Option Want) (depth : Nat) :
    (steps : Nat) → List Char → Except Trouble ((String × Json) × List Char)
  | 0, cs => stop .endOfObject cs
  | steps + 1, cs =>
    match cs with
    | '"' :: rest => do
      let (name, rest) ← readStringIf want.isSome rest
      match skipSpace rest with
      | [] => stop .endOfObject []
      | ':' :: rest => do
        let (value, rest) ← readValue (want.bind (·.field? name)) depth steps rest
        return ((name, value), rest)
      | rest => stopPast .expectedColon rest
    | rest => stopPast .keyMustBeString rest
termination_by structural steps => steps

/-- The fields of an object after the first one, and its end. -/
def readFields (want : Option Want) (depth : Nat) :
    (steps : Nat) → List Char → Except Trouble (List (String × Json) × List Char)
  | 0, cs => stop .endOfObject cs
  | steps + 1, cs =>
    match skipSpace cs with
    | [] => stop .endOfObject []
    | '}' :: rest => .ok ([], rest)
    | ',' :: rest =>
      match skipSpace rest with
      | [] => stop .endOfValue []
      | '}' :: rest => stop .trailingComma rest
      | rest => do
        let (field, rest) ← readField want depth steps rest
        let (fields, rest) ← readFields want depth steps rest
        return (field :: fields, rest)
    | rest => stopPast .expectedFieldOrEnd rest
termination_by structural steps => steps

end

/-- Where and why a text is not JSON. -/
structure SyntaxFault where
  problem : Problem
  line : Nat
  column : Nat
  deriving DecidableEq, Repr

def SyntaxFault.message (f : SyntaxFault) : String :=
  s!"{f.problem.message} at line {f.line} column {f.column}"

/-- The line and the column after some bytes of a text, from a line and a column on. Lines count
from one; a column is the number of bytes before it on the line. -/
def positionFrom (line column : Nat) : (bytes : Nat) → List Char → Nat × Nat
  | _, [] => (line, column)
  | bytes, c :: cs =>
    if bytes < c.utf8Size then (line, column + bytes)
    else if c = '\n' then positionFrom (line + 1) 0 (bytes - c.utf8Size) cs
    else positionFrom line (column + c.utf8Size) (bytes - c.utf8Size) cs

/-- The line and the column after some bytes of a text. -/
def positionAfter (cs : List Char) (bytes : Nat) : Nat × Nat :=
  positionFrom 1 0 bytes cs

def depthLimit : Nat := 128

/-- Reads the wanted parts of a text that is one JSON value, the fields in the order of the text. -/
def parseWanted (want : Want) (cs : List Char) : Except SyntaxFault Json :=
  let fault (t : Trouble) : SyntaxFault :=
    let (line, column) := positionAfter cs (Text.byteLength cs - t.left)
    ⟨t.problem, line, column⟩
  match readValue (some want) depthLimit (cs.length + 1) cs with
  | .error t => .error (fault t)
  | .ok (value, rest) =>
    match skipSpace rest with
    | [] => .ok value
    | rest => .error (fault ⟨.trailingCharacters, Text.byteLength rest - 1⟩)

/-- Reads a text as one JSON value, its fields in the order of the text. -/
def parse (cs : List Char) : Except SyntaxFault Json :=
  parseWanted .everything cs

end Mutagenesis.Json
