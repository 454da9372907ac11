import Mutagenesis.Fault
import Mutagenesis.NameSet
import Mutagenesis.Roster
import Mutagenesis.FileName

/-!
# Languages

A language has a name and a set of file endings. No ending belongs to two languages of a
catalogue, so the ending of a file's name decides its language.
-/

set_option autoImplicit false

namespace Mutagenesis

/-- A programming language, by its name and its file endings. -/
structure Language where
  name : String
  endings : NameSet
  deriving DecidableEq, Repr

/-- The languages of a catalogue, in the order in which they came. -/
abbrev Languages := List Language

namespace Languages

/-- The endings of all languages but the one with a name. -/
def otherEndings (ls : Languages) (name : String) : List String :=
  (Roster.erase Language.name name ls).flatMap (·.endings.names)

/-- Adds a language; one of the same name is replaced in its place. No ending may belong to
another language. -/
def add (ls : Languages) (l : Language) : Except Fault Languages :=
  match l.endings.names.find? fun ending => (ls.otherEndings l.name).contains ending with
  | some ending => .error (.illegalConfig (.sharedEnding ending))
  | none => .ok (Roster.put Language.name l ls)

def get (ls : Languages) (name : String) : Except Fault Language :=
  match Roster.find? Language.name name ls with
  | some l => .ok l
  | none => .error (.languageNotFound name)

def has (ls : Languages) (name : String) : Bool :=
  Roster.has Language.name name ls

def endings (ls : Languages) : NameSet :=
  .ofList (ls.flatMap (·.endings.names))

/-- The language of a file, by the ending of its name. -/
def detect (ls : Languages) (file : String) : Except Fault Language :=
  match FileName.ending? file with
  | none => .error (.languageNotDetected file)
  | some ending =>
    match ls.find? (·.endings.contains ending) with
    | some l => .ok l
    | none => .error (.languageNotDetected file)

end Languages

end Mutagenesis
