/-!
# YAML documents

The nodes of a YAML document: scalars, sequences, mappings, and aliases of nodes that bear an
anchor. A scalar remembers whether it was plain, since only a plain scalar can stand for a null, a
truth value or a number. A document is its root and the nodes that aliases stand for.
-/

set_option autoImplicit false

namespace Mutagenesis

/-- The octets of a tag, written out in full. Escapes in it need not stand for characters. -/
abbrev Yaml.Tag := List UInt8

/-- A node of a YAML document. -/
inductive Yaml where
  | scalar (tag : Option Yaml.Tag) (plain : Bool) (text : String)
  | sequence (tag : Option Yaml.Tag) (items : List Yaml)
  | mapping (tag : Option Yaml.Tag) (entries : List (Yaml × Yaml))
  | alias (anchor : Nat)
  deriving Repr, Inhabited, BEq

namespace Yaml

def blank : Yaml := .scalar none true ""

mutual

/-- The number of events that a node consists of: one for a scalar or an alias, and two for the
ends of a collection. -/
def size : Yaml → Nat
  | .scalar _ _ _ => 1
  | .sequence _ items => itemsSize items + 2
  | .mapping _ entries => entriesSize entries + 2
  | .alias _ => 1

def itemsSize : List Yaml → Nat
  | [] => 0
  | item :: rest => size item + itemsSize rest

def entriesSize : List (Yaml × Yaml) → Nat
  | [] => 0
  | (key, value) :: rest => size key + size value + entriesSize rest

end

/-- A document: its root, and the nodes with anchors by number. -/
structure Document where
  root : Yaml
  anchors : List (Nat × Yaml) := []
  deriving Repr, Inhabited

/-- Why a text is not a document, or not one of the right shape. -/
inductive Fault where
  | forbiddenCharacter
  | strayCharacter
  | keyWithoutColon
  | misplacedEntry
  | misplacedKey
  | misplacedValue
  | tabInIndentation
  | unexpectedColon
  | documentMarkInQuotes
  | unclosedQuote
  | badEscape
  | zeroIndentation
  | textAfterHeader
  | badAnchor
  | badTag
  | badDirective
  | duplicateDirective
  | wrongVersion
  | expectedDocumentStart
  | expectedNode
  | expectedDash
  | expectedKey
  | expectedItemEnd
  | expectedEntryEnd
  | unknownTagHandle
  | unknownAnchor
  | severalDocuments
  | tooDeep
  | tooManyAliases
  | numberTooLarge
  | badTaggedScalar
  | duplicateKey
  | shape (reason : String)
  deriving DecidableEq, Repr

def Fault.message : Fault → String
  | forbiddenCharacter => "control characters are not allowed"
  | strayCharacter => "found character that cannot start any token"
  | keyWithoutColon => "could not find expected ':'"
  | misplacedEntry => "block sequence entries are not allowed in this context"
  | misplacedKey => "mapping keys are not allowed in this context"
  | misplacedValue => "mapping values are not allowed in this context"
  | tabInIndentation => "found a tab character that violates indentation"
  | unexpectedColon => "found unexpected ':'"
  | documentMarkInQuotes => "found unexpected document indicator"
  | unclosedQuote => "found unexpected end of stream"
  | badEscape => "found unknown escape character"
  | zeroIndentation => "found an indentation indicator equal to 0"
  | textAfterHeader => "did not find expected comment or line break"
  | badAnchor => "did not find expected alphabetic or numeric character"
  | badTag => "did not find expected tag URI"
  | badDirective => "found unknown directive name"
  | duplicateDirective => "found duplicate directive"
  | wrongVersion => "found incompatible YAML document"
  | expectedDocumentStart => "did not find expected <document start>"
  | expectedNode => "did not find expected node content"
  | expectedDash => "did not find expected '-' indicator"
  | expectedKey => "did not find expected key"
  | expectedItemEnd => "did not find expected ',' or ']'"
  | expectedEntryEnd => "did not find expected ',' or '\x7d'"
  | unknownTagHandle => "found undefined tag handle"
  | unknownAnchor => "unknown anchor"
  | severalDocuments => "deserializing from YAML containing more than one document is not supported"
  | tooDeep => "recursion limit exceeded"
  | tooManyAliases => "repetition limit exceeded"
  | numberTooLarge => "invalid type: integer out of range"
  | badTaggedScalar => "invalid value for the tag of a scalar"
  | duplicateKey => "duplicate entry in a mapping"
  | shape reason => reason

end Yaml

end Mutagenesis
