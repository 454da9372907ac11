import Mutagenesis.Yaml.Reader

/-!
# What nodes stand for

A plain scalar without a tag is a null, a truth value, a whole number in base 2, 8, 10 or 16, a
floating point number, or else a text. A number of several digits that starts with a zero is a text.
Any other scalar is a text, unless its tag says otherwise. Whole numbers have 64 bits.

Aliases are followed when a node is looked at; `Reading` counts how often that happens, and stops if
it happens too often for the size of the document.
-/

set_option autoImplicit false

namespace Mutagenesis.Yaml

/-- A floating point number that is not finite. -/
inductive Special where
  | infinity
  | negativeInfinity
  | notANumber
  deriving DecidableEq, Repr

/-- What a node stands for. -/
inductive Value where
  | null
  | bool (b : Bool)
  /-- A whole number; `minus` tells whether it is written with a minus sign. -/
  | integer (n : Int) (minus : Bool)
  | real (x : Binary64)
  | special (s : Special)
  | text (s : String)
  | sequence (items : List Value)
  | mapping (entries : List (Value × Value))
  | tagged (tag : String) (value : Value)
  deriving Repr, Inhabited

namespace Value

/-- The value of digits in a base of at most 16; there has to be one. -/
def digits? (base : Nat) (cs : List Char) : Option Nat :=
  if cs.isEmpty then none
  else
    cs.foldlM (fun n c =>
      match Json.hexValue? c with
      | some d => if d < base then some (n * base + d) else none
      | none => none) 0

/-- A text without the sign that it starts with. -/
def unsigned (cs : List Char) : List Char :=
  match cs with
  | '+' :: rest => rest
  | '-' :: rest => rest
  | _ => cs

/-- Several digits of which the first is a zero. -/
def isPadded (cs : List Char) : Bool :=
  match unsigned cs with
  | '0' :: d :: rest => (d :: rest).all Char.isDigit
  | _ => false

/-- A whole number without its sign. -/
def magnitude? (cs : List Char) : Option Nat :=
  match cs with
  | '0' :: 'x' :: rest => digits? 16 rest
  | '0' :: 'o' :: rest => digits? 8 rest
  | '0' :: 'b' :: rest => digits? 2 rest
  | _ => digits? 10 cs

/-- A whole number of at most 128 bits. -/
def integer? (cs : List Char) : Option Int :=
  if isPadded cs then none
  else
    match cs with
    | '-' :: rest =>
      match magnitude? rest with
      | some n => if n ≤ Nat.pow 2 127 then some (-n) else none
      | none => none
    | _ =>
      match magnitude? (unsigned cs) with
      | some n => if n < Nat.pow 2 128 then some n else none
      | none => none

/-- The value of a text that stands for a whole number, which has to be one of 64 bits. -/
def ofInteger (s : String) (n : Int) : Except Fault Value :=
  if -(Nat.pow 2 63 : Int) ≤ n ∧ n < Nat.pow 2 64 then .ok (.integer n (s.toList.head? = some '-'))
  else .error .numberTooLarge

/-- The exponent of a floating point number, with its mark or left out. -/
def exponent? (cs : List Char) : Option Int :=
  match cs with
  | [] => some 0
  | c :: rest =>
    if c = 'e' ∨ c = 'E' then
      match rest with
      | '-' :: ds => (digits? 10 ds).map fun n => -(n : Int)
      | '+' :: ds => (digits? 10 ds).map fun n => (n : Int)
      | _ => (digits? 10 rest).map fun n => (n : Int)
    else none

def real? (cs : List Char) : Option Binary64 :=
  let body := unsigned cs
  let whole := body.takeWhile Char.isDigit
  let rest := body.drop whole.length
  let (places, rest) := match rest with
    | '.' :: after => (after.takeWhile Char.isDigit, after.dropWhile Char.isDigit)
    | _ => ([], rest)
  if whole.isEmpty ∧ places.isEmpty then none
  else
    match digits? 10 (whole ++ places), exponent? rest with
    | some n, some e => Binary64.ofDecimal? (cs.head? = some '-') n (e - places.length)
    | _, _ => none

/-- A number that is not finite. -/
def special? (s : String) : Option Special :=
  if s ∈ [".inf", ".Inf", ".INF", "+.inf", "+.Inf", "+.INF"] then some .infinity
  else if s ∈ ["-.inf", "-.Inf", "-.INF"] then some .negativeInfinity
  else if s ∈ [".nan", ".NaN", ".NAN"] then some .notANumber
  else none

def float? (s : String) : Option Value :=
  match special? s with
  | some x => some (.special x)
  | none => (real? s.toList).map .real

def isNull (s : String) : Bool :=
  s ∈ ["~", "null", "Null", "NULL"]

def bool? (s : String) : Option Bool :=
  if s ∈ ["true", "True", "TRUE"] then some true
  else if s ∈ ["false", "False", "FALSE"] then some false
  else none

def ofPlain (s : String) : Except Fault Value :=
  if s.isEmpty ∨ isNull s then .ok .null
  else
    match bool? s, integer? s.toList with
    | some b, _ => .ok (.bool b)
    | none, some n => ofInteger s n
    | none, none =>
      if isPadded s.toList then .ok (.text s) else .ok ((float? s).getD (.text s))

/-- What a scalar without a tag stands for. -/
def ofScalar (plain : Bool) (s : String) : Except Fault Value :=
  if plain then ofPlain s else .ok (.text s)

def commonTag (name : String) : Tag :=
  Text.bytesOf ("tag:yaml.org,2002:" ++ name).toList

def ofCommonTag (tag : Tag) (s : String) : Except Fault Value :=
  let orFault (v : Option Value) : Except Fault Value :=
    match v with
    | some v => .ok v
    | none => .error .badTaggedScalar
  if tag = commonTag "bool" then orFault ((bool? s).map .bool)
  else if tag = commonTag "int" then
    match integer? s.toList with
    | some n => ofInteger s n
    | none => .error .badTaggedScalar
  else if tag = commonTag "float" then orFault (float? s)
  else if tag = commonTag "null" then if isNull s then .ok .null else .error .badTaggedScalar
  else .ok (.text s)

/-- The octets of a tag are those of one of the document's own, be they a text or not. -/
def isOwn (tag : Tag) : Bool :=
  tag.head? == some 0x21

/-- A name without the exclamation mark that it starts with, unless that is all. -/
def withoutMark (name : List Char) : List Char :=
  match name with
  | '!' :: c :: rest => c :: rest
  | _ => name

/-- The name of a tag, if it is one of the document's own and its octets are a text. -/
def ownTag? (tag : Option Tag) : Option String := do
  let octets ← tag
  if isOwn octets then return String.ofList (withoutMark (← Text.ofBytes? octets)) else none

/-- A value with the tag of its node, if that is one of the document's own. -/
def withTag (tag : Option Tag) (v : Value) : Value :=
  match ownTag? tag with
  | some name => .tagged name v
  | none => v

mutual

/-- The values are equal. Entries of mappings have no order, there is one zero, and a mark at the
start of the name of a tag does not count. -/
def same : Value → Value → Bool
  | .null, .null => true
  | .bool a, .bool b => a == b
  | .integer a _, .integer b _ => a == b
  | .real a, .real b => a == b || (a.significand == 0 && b.significand == 0)
  | .special a, .special b => a == b
  | .text a, .text b => a == b
  | .sequence a, .sequence b => sameItems a b
  | .mapping a, .mapping b => a.length == b.length && entriesIn a b
  | .tagged t a, .tagged u b => withoutMark t.toList == withoutMark u.toList && same a b
  | _, _ => false

/-- The values of two lists are equal, one by one. -/
def sameItems : List Value → List Value → Bool
  | [], [] => true
  | a :: as, b :: bs => same a b && sameItems as bs
  | _, _ => false

def entriesIn : List (Value × Value) → List (Value × Value) → Bool
  | [], _ => true
  | (key, value) :: rest, others =>
    others.any (fun other => same key other.1 && same value other.2) && entriesIn rest others

end

def keysRepeat : List Value → Bool
  | [] => false
  | key :: rest => rest.any (same key) || keysRepeat rest

mutual

def repeatsKey : Value → Bool
  | .sequence items => itemsRepeatKey items
  | .mapping entries => keysRepeat (entries.map Prod.fst) || entriesRepeatKey entries
  | .tagged _ value => repeatsKey value
  | _ => false

def itemsRepeatKey : List Value → Bool
  | [] => false
  | item :: rest => repeatsKey item || itemsRepeatKey rest

def entriesRepeatKey : List (Value × Value) → Bool
  | [] => false
  | (key, value) :: rest => repeatsKey key || repeatsKey value || entriesRepeatKey rest

end

mutual

def hasTag : Value → Bool
  | .sequence items => itemsHaveTag items
  | .mapping entries => entriesHaveTag entries
  | .tagged _ _ => true
  | _ => false

def itemsHaveTag : List Value → Bool
  | [] => false
  | item :: rest => hasTag item || itemsHaveTag rest

def entriesHaveTag : List (Value × Value) → Bool
  | [] => false
  | (key, value) :: rest => hasTag key || hasTag value || entriesHaveTag rest

end

def isOne : Value → Bool
  | .integer n _ => n = 1
  | .real x => some x = Binary64.ofDecimal? false 1 0
  | _ => false

end Value

/-- A look at the nodes of a document; the state is the number of aliases that were followed. -/
abbrev Reading := ReaderT Document (StateT Nat (Except Fault))

namespace Reading

def run {α : Type} (d : Document) (read : Yaml → Reading α) : Except Fault α := do
  let (a, _) ← (read d.root d).run 0
  return a

/-- The number of aliases that may be followed for each event of a document. -/
def aliasesPerEvent : Nat := 100

/-- The node itself, or the one that an alias stands for. -/
def follow (node : Yaml) : Reading Yaml := do
  match node with
  | .alias number =>
    let d ← read
    let count ← modifyGet fun n => (n + 1, n + 1)
    if d.root.size * aliasesPerEvent < count then throw .tooManyAliases
    match d.anchors.lookup number with
    | some target => return target
    | none => throw .unknownAnchor
  | node => return node

def scalarValue (tag : Option Tag) (plain : Bool) (s : String) : Except Fault Value :=
  match tag with
  | none => Value.ofScalar plain s
  | some full =>
    if Value.isOwn full then (Value.withTag tag) <$> Value.ofScalar plain s
    else Value.ofCommonTag full s

def depthLimit : Nat := 128

/-- What a node stands for. Collections may be nested `depth` deep. -/
def value : (depth : Nat) → Yaml → Reading Value
  | depth, node => do
    match ← follow node with
    | .scalar tag plain s => liftM (scalarValue tag plain s)
    | .sequence tag items =>
      match depth with
      | 0 => throw .tooDeep
      | depth + 1 => return .withTag tag (.sequence (← items.mapM (value depth)))
    | .mapping tag entries =>
      match depth with
      | 0 => throw .tooDeep
      | depth + 1 =>
        let entries ← entries.mapM fun (key, val) => do
          return (← value depth key, ← value depth val)
        return .withTag tag (.mapping entries)
    | .alias _ => throw .unknownAnchor

/-- The text of a scalar, whatever it stands for. -/
def scalarText (node : Yaml) : Reading String := do
  match ← follow node with
  | .scalar _ _ s => return s
  | _ => throw (.shape "expected a string")

/-- The items of a sequence; a place where nothing is written counts as none. -/
def items (node : Yaml) : Reading (List Yaml) := do
  match ← follow node with
  | .sequence _ items => return items
  | .scalar _ true "" => return []
  | _ => throw (.shape "expected a sequence")

/-- The entries of a mapping; a place where nothing is written counts as none. -/
def entries (node : Yaml) : Reading (List (Yaml × Yaml)) := do
  match ← follow node with
  | .mapping _ entries => return entries
  | .scalar _ true "" => return []
  | _ => throw (.shape "expected a mapping")

end Reading

end Mutagenesis.Yaml
