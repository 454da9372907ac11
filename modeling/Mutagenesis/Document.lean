import Mutagenesis.Fault

/-!
# JSON documents

A document is a text under a path, of which some parts are wanted. What is wrong with it is told
with the path and the place where reading the text ended.
-/

set_option autoImplicit false

namespace Mutagenesis

/-- Reads the wanted parts of a document with a decoder. A fault says where the document is and
where reading it ended. -/
def decodeDocument {α : Type} (path text : String) (want : Json.Want) (decode : Json.Decoder α) :
    Except Fault α :=
  match Json.parseWanted want text.toList with
  | .error fault => .error (.badFormat (.document path fault.message))
  | .ok j =>
    match decode j with
    | .ok a => .ok a
    | .error fault =>
      let (line, column) := Json.positionAfter text.toList (Text.byteLength text.toList)
      .error (.badFormat (.document path s!"{fault.message} at line {line} column {column}"))

end Mutagenesis
