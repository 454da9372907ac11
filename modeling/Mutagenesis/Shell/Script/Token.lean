import Mutagenesis.Shell.Script

/-!
# Tokens of scripts

The tokens that a script consists of, and the state of reading one.
-/

namespace Mutagenesis.Shell

/-- What a mark of redirection asks for. -/
inductive RedirectionKind where
  | file (mode : FileMode)
  | copy
  | document (withoutTabs : Bool)
  deriving DecidableEq

/-- A token of a script. -/
inductive Token where
  | word (w : Word)
  | reserved (name : String)
  | redirection (stream : Nat) (kind : RedirectionKind)
  | mark (text : String)
  | newline
  | endOfFile

namespace Token

def shown : Token → String
  | word _ => "word"
  | reserved name => "\"" ++ name ++ "\""
  | redirection _ _ => "redirection"
  | mark text => "\"" ++ text ++ "\""
  | newline => "newline"
  | endOfFile => "end of file"

def isMark (text : String) : Token → Bool
  | mark t => t = text
  | _ => false

def isReserved (name : String) : Token → Bool
  | reserved n => n = name
  | _ => false

def endsList : Token → Bool
  | endOfFile => true
  | mark t => t ∈ [")", ";;"]
  | reserved n => n ∈ ["do", "done", "elif", "else", "esac", "fi", "then", "\x7d"]
  | _ => false

def word? : Token → Option Word
  | word w => some w
  | reserved name => some [.text name.toList false]
  | _ => none

end Token

def reservedWords : List String :=
  ["!", "case", "do", "done", "elif", "else", "esac", "fi", "for", "if", "in", "then", "until",
   "while", "\x7b", "\x7d"]

def specialBuiltins : List String :=
  [".", ":", "break", "continue", "eval", "exec", "exit", "export", "local", "readonly", "return",
   "set", "shift", "times", "trap", "unset"]

/-- A document of a redirection whose text comes after the line. -/
structure AwaitedDocument where
  number : Nat
  ending : Octets
  withoutTabs : Bool
  literal : Bool

/-- The state of reading a script. -/
structure Reader where
  dialect : Dialect := .plain
  rest : Octets
  line : Nat := 1
  fromFile : Bool := false
  held : Option Token := none
  awaited : List AwaitedDocument := []
  documents : List (Nat × Word) := []
  nextDocument : Nat := 0
  aliases : List (Octets × Octets) := []
  expanding : List (Octets × Nat) := []

abbrev Reading := EStateM ScriptFault Reader

namespace Reading

def fault {α : Type} (reason : String) : Reading α := do
  throw ⟨(← get).line, reason⟩

def unexpected {α : Type} (t : Token) : Reading α :=
  fault (t.shown ++ " unexpected")

def unexpectedFor {α : Type} (t expected : Token) : Reading α :=
  fault (t.shown ++ " unexpected (expecting " ++ expected.shown ++ ")")

def withoutJoins : Octets → Octets × Nat
  | '\\' :: '\n' :: rest =>
    let (rest, count) := withoutJoins rest
    (rest, count + 1)
  | cs => (cs, 0)

def skipJoins : Reading Unit :=
  modify fun r =>
    let (rest, count) := withoutJoins r.rest
    { r with rest := rest, line := r.line + count }

def peek : Reading (Option Char) := do
  skipJoins
  return (← get).rest.head?

def drop (count : Nat) : Reading Octets :=
  modifyGet fun r =>
    let taken := r.rest.take count
    (taken, { r with rest := r.rest.drop count, line := r.line + taken.count '\n' })

def advance : Reading Unit :=
  discard (drop 1)

def accept (c : Char) : Reading Bool := do
  if (← peek) = some c then
    advance
    return true
  else return false

def takeWhile (p : Char → Bool) : (steps : Nat) → Reading Octets
  | 0 => return []
  | steps + 1 => do
    match ← peek with
    | some c =>
      if p c then
        advance
        return c :: (← takeWhile p steps)
      else return []
    | none => return []

def takeAll (p : Char → Bool) : Reading Octets := do
  takeWhile p (← get).rest.length

def hold (t : Token) : Reading Unit :=
  modify fun r => { r with held := some t }

def expandAlias (w : Word) : Reading Bool := do
  let r ← get
  let length := r.rest.length
  let expanding := r.expanding.filter fun (_, left) => left < length
  match Word.plain? w with
  | none => return false
  | some name =>
    match if (expanding.lookup name).isSome then none else r.aliases.lookup name with
    | none => return false
    | some meaning =>
      set { r with rest := meaning ++ r.rest, expanding := (name, length) :: expanding }
      return true

def within {α : Type} (cs : Octets) (line : Nat) (read : Reading α) : Reading α := do
  let outer ← get
  set { outer with rest := cs, line := line, held := none, awaited := [] }
  let a ← read
  modify fun inner =>
    { outer with documents := inner.documents, nextDocument := inner.nextDocument }
  return a

def freshNumber : Reading Nat :=
  modifyGet fun r => (r.nextDocument, { r with nextDocument := r.nextDocument + 1 })

end Reading

end Mutagenesis.Shell
