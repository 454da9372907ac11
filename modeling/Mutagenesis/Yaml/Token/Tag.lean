import Mutagenesis.Json.Reader
import Mutagenesis.Text.Utf8
import Mutagenesis.Yaml.Cursor
import Mutagenesis.Yaml.Token

/-!
# Anchors, tags and directives

An anchor gives a node a name, and an alias refers to it. A tag says what a node stands for; its
handle is short for the beginning of the tag, which a directive can set. Each part of a tag ends
before the first zero octet in it.
-/

set_option autoImplicit false

namespace Mutagenesis.Yaml

def nameAt (cs : List Char) : List Char :=
  cs.takeWhile isNameChar

/-- A character that may come right after an anchor or an alias. -/
def endsAnchor (cs : List Char) : Bool :=
  atGap cs || cs.head?.any fun c => "?:,]\x7d%@\x60".toList.contains c

/-- Reads the name of an anchor or an alias, from after its mark. -/
def readAnchor (c : Cursor) : Except Fault (String × Cursor) :=
  let name := nameAt c.rest
  let after := c.advance name.length
  if name.isEmpty ∨ !endsAnchor after.rest then .error .badAnchor
  else .ok (String.ofList name, after)

/-- A character that may stand in a tag; one in angle brackets may hold flow marks too. -/
def isTagChar (verbatim : Bool) (c : Char) : Bool :=
  isNameChar c || ";/?:@&=+$.%!~*'()".toList.contains c || (verbatim && ",[]".toList.contains c)

def escapedByte? : List Char → Option Nat
  | '%' :: a :: b :: _ => do return (← Json.hexValue? a) * 16 + (← Json.hexValue? b)
  | _ => none

/-- The number of bytes of a character that starts with a byte. -/
def bytesFrom? (first : Nat) : Option Nat :=
  if first < 0x80 then some 1
  else if 0xC0 ≤ first ∧ first < 0xE0 then some 2
  else if 0xE0 ≤ first ∧ first < 0xF0 then some 3
  else if 0xF0 ≤ first ∧ first < 0xF8 then some 4
  else none

/-- The further bytes of a character, each of them escaped. -/
def escapedTail? : (count : Nat) → List Char → Option (List UInt8)
  | 0, _ => some []
  | count + 1, cs => do
    let b ← escapedByte? cs
    if b < 0x80 ∨ 0xC0 ≤ b then none
    else return b.toUInt8 :: (← escapedTail? count (cs.drop 3))

/-- The bytes of a character that are escaped. Only their number has to be right. -/
def escapedChar? (cs : List Char) : Option (List UInt8) := do
  let first ← escapedByte? cs
  let count ← bytesFrom? first
  let tail ← escapedTail? (count - 1) (cs.drop 3)
  return first.toUInt8 :: tail

/-- The octets of a tag that a text starts with, and the number of characters they take. -/
def tagOctets (verbatim : Bool) : (steps : Nat) → List Char → Except Fault (Tag × Nat)
  | 0, _ => .ok ([], 0)
  | steps + 1, cs =>
    match cs with
    | [] => .ok ([], 0)
    | c :: rest =>
      if c = '%' then
        match escapedChar? cs with
        | none => .error .badTag
        | some here => do
          let taken := 3 * here.length
          let (octets, length) ← tagOctets verbatim steps (cs.drop taken)
          return (here ++ octets, length + taken)
      else if isTagChar verbatim c then do
        let (octets, length) ← tagOctets verbatim steps rest
        return (Text.charBytes c ++ octets, length + 1)
      else .ok ([], 0)

/-- The octets of a tag at a cursor; there has to be one, unless it goes on from a mark before
it. -/
def readTagOctets (verbatim goesOn : Bool) (c : Cursor) : Except Fault (Tag × Cursor) := do
  let (octets, length) ← tagOctets verbatim (c.rest.length + 1) c.rest
  if length = 0 ∧ !goesOn then .error .badTag
  else return (octets.takeWhile (· != 0), c.advance length)

/-- A handle: a name between exclamation marks, or just its beginning. -/
def handleAt (cs : List Char) : List Char :=
  match cs with
  | '!' :: rest =>
    let name := nameAt rest
    '!' :: name ++ (if (rest.drop name.length).head? = some '!' then ['!'] else [])
  | _ => []

/-- The text is a handle and not just its beginning. -/
def isWholeHandle (handle : List Char) : Bool :=
  1 < handle.length && handle.getLast? == some '!'

/-- Reads a tag, without a check of what follows it. -/
def readTagParts (c : Cursor) : Except Fault (String × Tag × Cursor) := do
  if c.next.isAt '<' then
    let (octets, after) ← readTagOctets true false (c.advance 2)
    if after.isAt '>' then return ("", octets, after.next) else .error .badTag
  else
    let handle := handleAt c.rest
    let after := c.advance handle.length
    if isWholeHandle handle then
      let (octets, after) ← readTagOctets false false after
      return (String.ofList handle, octets, after)
    else
      let (octets, after) ← readTagOctets false true after
      let suffix := Text.bytesOf (handle.drop 1) ++ octets
      if suffix.isEmpty then return ("", Text.bytesOf ['!'], after)
      else return ("!", suffix, after)

def readTag (flow : Bool) (c : Cursor) : Except Fault (Token × Cursor) := do
  let (handle, suffix, after) ← readTagParts c
  if atGap after.rest || (flow && after.isAt ',') then return (.tag handle suffix, after)
  else .error .badTag

/-- Reads a number of at most nine digits. -/
def readVersionNumber (c : Cursor) : Except Fault (Nat × Cursor) :=
  let digits := c.rest.takeWhile Char.isDigit
  if digits.isEmpty ∨ 9 < digits.length then .error .badDirective
  else .ok ((Numeral.digitsValue? 0 digits).getD 0, c.advance digits.length)

def readVersion (c : Cursor) : Except Fault (Token × Cursor) := do
  let (major, c) ← readVersionNumber (c.skipWhile isBlank)
  if c.isAt '.' then
    let (minor, c) ← readVersionNumber c.next
    return (.versionDirective major minor, c)
  else .error .badDirective

def readTagDirective (c : Cursor) : Except Fault (Token × Cursor) := do
  let c := c.skipWhile isBlank
  let handle := handleAt c.rest
  let c := c.advance handle.length
  if (handle ≠ ['!'] ∧ !isWholeHandle handle) ∨ !(c.rest.head?.any isBlank) then
    .error .badDirective
  else
    let (lead, c) ← readTagOctets true false (c.skipWhile isBlank)
    if atGap c.rest then return (.tagDirective (String.ofList handle) lead, c)
    else .error .badDirective

/-- Reads a directive, from after its mark to the end of its line. -/
def readDirective (c : Cursor) : Except Fault (Token × Cursor) := do
  let name := nameAt c.rest
  let after := c.advance name.length
  if !atGap after.rest then .error .badDirective
  else
    let (token, after) ←
      if name = "YAML".toList then readVersion after
      else if name = "TAG".toList then readTagDirective after
      else .error .badDirective
    return (token, ← after.finishLine)

end Mutagenesis.Yaml
