import Mutagenesis.Json.Decode
import Mutagenesis.Json.Reader
import Mutagenesis.Numeral
import Mutagenesis.Text.Cut
import Mutagenesis.Text.Size

/-!
# Ids of mutants

An id is 32 hexadecimal digits. It is written plainly or with hyphens that divide it into groups of
8, 4, 4, 4 and 12; the reader also takes the hyphenated form between braces or after `urn:uuid:`.
-/

set_option autoImplicit false

namespace Mutagenesis

/-- The id of a mutant: 32 hexadecimal digits. -/
structure MutantId where
  digits : List (Fin 16)
  length_digits : digits.length = 32
  deriving DecidableEq, Repr

namespace MutantId

def digit? (c : Char) : Option (Fin 16) :=
  match Json.hexValue? c with
  | some n => if h : n < 16 then some ⟨n, h⟩ else none
  | none => none

def digitChar (d : Fin 16) : Char :=
  Nat.digitChar d.val

/-- The written form without hyphens. -/
def write (id : MutantId) : List Char :=
  id.digits.map digitChar

/-- The written form without hyphens. -/
def text (id : MutantId) : String :=
  String.ofList id.write

def groups : List Nat := [8, 4, 4, 4, 12]

def cut {α : Type} : List Nat → List α → List (List α)
  | [], _ => []
  | n :: rest, xs => xs.take n :: cut rest (xs.drop n)

def hyphenated (id : MutantId) : String :=
  String.ofList (['-'].intercalate (cut groups id.write))

/-- Reads exactly 32 digits of either case. -/
def readPlain? (cs : List Char) : Option MutantId :=
  match cs.mapM digit? with
  | none => none
  | some digits => if h : digits.length = 32 then some ⟨digits, h⟩ else none

def readHyphenated? (cs : List Char) : Option MutantId :=
  let pieces := Text.pieces '-' cs
  if pieces.map List.length = groups then readPlain? pieces.flatten else none

def unbraced? (cs : List Char) : Option (List Char) :=
  match cs with
  | '{' :: rest => if rest.getLast? = some '}' then some rest.dropLast else none
  | _ => none

/-- What an id may follow, in letters of either case. -/
def scheme : List Char := "urn:uuid:".toList

/-- The text after the scheme. -/
def withoutScheme? (cs : List Char) : Option (List Char) :=
  if (cs.take scheme.length).map Char.toLower = scheme then some (cs.drop scheme.length) else none

def read? (cs : List Char) : Option MutantId :=
  (readPlain? cs).or <| (readHyphenated? cs).or <|
    ((unbraced? cs).bind readHyphenated?).or ((withoutScheme? cs).bind readHyphenated?)

/-- Why a text is not an id. -/
inductive Flaw where
  /-- A character, at a position in bytes from one, is neither a digit nor a hyphen. -/
  | character (c : Char) (position : Nat)
  /-- The plain form has the wrong length. -/
  | length (found : Nat)
  /-- The hyphenated form has the wrong number of groups. -/
  | groupCount (found : Nat)
  /-- A group of the hyphenated form has the wrong length. -/
  | groupLength (group expected found : Nat)
  deriving DecidableEq, Repr

def Flaw.message : Flaw → String
  | character c position =>
    "invalid character: expected an optional prefix of `urn:uuid:` followed by [0-9a-fA-F-], " ++
      "found `" ++ String.singleton c ++ "` at " ++ Numeral.text position
  | length found =>
    "invalid length: expected length 32 for simple format, found " ++ Numeral.text found
  | groupCount found => "invalid group count: expected 5, found " ++ Numeral.text found
  | groupLength group expected found =>
    "invalid group length in group " ++ Numeral.text group ++ ": expected " ++
      Numeral.text expected ++ ", found " ++ Numeral.text found

/-- The first character that is neither a digit nor a hyphen, and its position after `position`
bytes. -/
def strange? (position : Nat) : List Char → Option Flaw
  | [] => none
  | c :: cs =>
    if c = '-' ∨ (digit? c).isSome then strange? (position + c.utf8Size) cs
    else some (.character c (position + 1))

/-- The first of some groups, counted from `group`, that has not the expected length. -/
def uneven? (group : Nat) : (expected found : List Nat) → Option Flaw
  | e :: expected, f :: found =>
    if e = f then uneven? (group + 1) expected found else some (.groupLength group e f)
  | _, _ => none

/-- The text that has to be in groups or plain, the bytes before it, and whether it may be plain. -/
def body (cs : List Char) : List Char × Nat × Bool :=
  match unbraced? cs, Text.after? scheme cs with
  | some inner, _ => (inner, 1, false)
  | none, some rest => (rest, scheme.length, false)
  | none, none => (cs, 0, true)

/-- What is wrong with a text that is not an id. The length of a last group counts all that is
written around the groups. -/
def flaw (cs : List Char) : Flaw :=
  let (inner, start, plain) := body cs
  let lengths := (Text.pieces '-' inner).map List.length
  let size := Text.byteLength cs
  match strange? start inner with
  | some flaw => flaw
  | none =>
    if plain ∧ lengths.length = 1 then .length size
    else if lengths.length ≠ groups.length then .groupCount lengths.length
    else (uneven? 0 groups.dropLast lengths).getD (.groupLength 4 12 (size - 24))

/-- Reads any written form of an id, or says what is wrong with the text. -/
def read (cs : List Char) : Except Flaw MutantId :=
  match read? cs with
  | some id => .ok id
  | none => .error (flaw cs)

/-- Decodes an id, which has to be written plainly. -/
def decode : Json.Decoder MutantId
  | .string s =>
    match readPlain? s.toList with
    | some id => .ok id
    | none => .error (.rejected ("UUID parsing failed: " ++ (flaw s.toList).message))
  | j => Json.wrongType j "a UUID string in the simple format"

/-- The last digits of a number in base 16, the least significant one first. -/
def lowDigits : (count : Nat) → Nat → List (Fin 16)
  | 0, _ => []
  | count + 1, n => ⟨n % 16, Nat.mod_lt _ (by decide)⟩ :: lowDigits count (n / 16)

@[simp]
theorem length_lowDigits (count n : Nat) : (lowDigits count n).length = count := by
  induction count generalizing n with
  | zero => rfl
  | succ count ih => simp [lowDigits, ih]

/-- The id of a number: thirty of its digits around the two that mark an id as drawn by lot.
Different numbers below 16^30 have different ids. -/
def ofNumber (n : Nat) : MutantId :=
  ⟨lowDigits 12 n ++ 4 :: (lowDigits 3 (n / Nat.pow 16 12) ++
    8 :: lowDigits 15 (n / Nat.pow 16 15)), by simp⟩

end MutantId

end Mutagenesis
