import Mutagenesis.Yaml

/-!
# Tokens of a YAML text

The marks and words of a text. Block collections, which are written by indentation, have tokens for
their ends like flow collections, which are written with brackets.
-/

set_option autoImplicit false

namespace Mutagenesis.Yaml

/-- A token. -/
inductive Token where
  | versionDirective (major minor : Nat)
  | tagDirective (handle : String) (lead : Tag)
  | documentStart
  | documentEnd
  | blockSequenceStart
  | blockMappingStart
  | blockEnd
  | flowSequenceStart
  | flowSequenceEnd
  | flowMappingStart
  | flowMappingEnd
  | blockEntry
  | flowEntry
  | key
  | value
  | alias (name : String)
  | anchor (name : String)
  | tag (handle : String) (suffix : Tag)
  | scalar (plain : Bool) (text : String)
  deriving DecidableEq, Repr, Inhabited

end Mutagenesis.Yaml
