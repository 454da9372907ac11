import Mutagenesis.Yaml.Token.Scalar
import Mutagenesis.Yaml.Token.Tag

/-!
# The tokens of a text

A text is read from left to right. Whether a scalar or a collection is a key of a mapping shows only
at the colon after it, which has to be on its line and not too far away; the tokens that start the
key are then put in front of it.
-/

set_option autoImplicit false

namespace Mutagenesis.Yaml

/-- A place where a key may start. -/
structure KeyStart where
  /-- Nothing but a key may stand there. -/
  required : Bool
  /-- The number of tokens before the key. -/
  tokens : Nat
  index : Nat
  line : Nat
  column : Nat
  deriving Repr

/-- How far a text has been read. -/
structure Lexer where
  cursor : Cursor
  /-- The tokens so far, each of them with those that were put in front of it. -/
  cells : Array (List Token) := #[]
  /-- Where a key may have started, for each flow collection around the cursor, the innermost one
  first, and for the blocks around them. -/
  keys : List (Option KeyStart) := [none]
  /-- The column of the block collection around the cursor. -/
  indent : Int := -1
  /-- The columns of the collections around that one, the innermost one first. -/
  outer : List Int := []
  /-- A key may start at the cursor. -/
  keyAllowed : Bool := true

namespace Lexer

def inFlow (x : Lexer) : Bool :=
  1 < x.keys.length

def push (x : Lexer) (t : Token) : Lexer :=
  { x with cells := x.cells.push [t] }

def pushMark (x : Lexer) (t : Token) (length : Nat) : Lexer :=
  { x with cells := x.cells.push [t], cursor := x.cursor.advance length }

/-- Forgets the place of the innermost possible key; it is a fault if a key has to be there. -/
def dropKey (x : Lexer) : Except Fault Lexer :=
  match x.keys with
  | some key :: rest =>
    if key.required then .error .keyWithoutColon else .ok { x with keys := none :: rest }
  | _ => .ok x

/-- A key may start at the cursor, if one is allowed there. -/
def saveKey (x : Lexer) : Except Fault Lexer :=
  if x.keyAllowed then do
    let c := x.cursor
    let required := !x.inFlow && x.indent == (c.column : Int)
    let x ← x.dropKey
    let key : KeyStart := ⟨required, x.cells.size, c.index, c.line, c.column⟩
    return { x with keys := some key :: x.keys.drop 1 }
  else .ok x

/-- The number of bytes that a key has at most. -/
def keyLimit : Nat := 1024

def dropStaleKeys (x : Lexer) : Except Fault Lexer := do
  let c := x.cursor
  let keys ← x.keys.mapM fun
    | none => .ok none
    | some key =>
      if key.line < c.line ∨ key.index + keyLimit < c.index then
        if key.required then .error Fault.keyWithoutColon else .ok none
      else .ok (some key)
  return { x with keys := keys }

/-- Starts a block collection at a column, unless the cursor is in one of that column or further
right. Its first token is put in front of the token with a number, or at the end. -/
def openBlock (x : Lexer) (column : Nat) (start : Token) (before : Option Nat) : Lexer :=
  if x.inFlow ∨ (column : Int) ≤ x.indent then x
  else
    let cells := match before with
      | some n => x.cells.modify n (start :: ·)
      | none => x.cells.push [start]
    { x with cells := cells, outer := x.indent :: x.outer, indent := column }

/-- Ends the block collections that are further right than a column. -/
def closeBlocks (column : Int) : List Int → Lexer → Lexer
  | [], x => x
  | indent :: outer, x =>
    if !x.inFlow ∧ column < x.indent then
      closeBlocks column outer { x.push .blockEnd with indent := indent, outer := outer }
    else x

/-- Ends the block collections that are further right than a column. -/
def unindent (x : Lexer) (column : Int) : Lexer :=
  closeBlocks column x.outer x

/-- Passes over blanks, comments and line ends. Tabs are passed over where no key may start. -/
def skipGap : (steps : Nat) → Lexer → Lexer
  | 0, x => x
  | steps + 1, x =>
    let c := x.cursor
    let c := if c.column = 0 ∧ c.isAt '\ufeff' then c.next else c
    let tabs := x.inFlow || !x.keyAllowed
    let c := c.skipWhile fun d => d == ' ' || (tabs && d == '\t')
    let c := if c.isAt '#' then c.skipWhile fun d => !isBreak d else c
    if c.rest.head?.any isBreak then
      skipGap steps { x with cursor := c.nextLine, keyAllowed := x.keyAllowed || !x.inFlow }
    else { x with cursor := c }

/-- A mark between documents, or a directive: all blocks end before it. -/
def betweenDocuments (x : Lexer) : Except Fault Lexer := do
  return { (← (x.unindent (-1)).dropKey) with keyAllowed := false }

def blockEntry (x : Lexer) : Except Fault Lexer := do
  if !x.inFlow && !x.keyAllowed then .error .misplacedEntry
  else
    let x ← (x.openBlock x.cursor.column .blockSequenceStart none).dropKey
    return { x with keyAllowed := true }.pushMark .blockEntry 1

/-- The mark of a key that need not be on one line. -/
def explicitKey (x : Lexer) : Except Fault Lexer := do
  if !x.inFlow && !x.keyAllowed then .error .misplacedKey
  else
    let x ← (x.openBlock x.cursor.column .blockMappingStart none).dropKey
    return { x with keyAllowed := !x.inFlow }.pushMark .key 1

def value (x : Lexer) : Except Fault Lexer :=
  match x.keys with
  | some key :: rest =>
    let x := { x with cells := x.cells.modify key.tokens (.key :: ·), keys := none :: rest }
    let x := x.openBlock key.column .blockMappingStart (some key.tokens)
    .ok ({ x with keyAllowed := false }.pushMark .value 1)
  | _ =>
    if !x.inFlow && !x.keyAllowed then .error .misplacedValue
    else
      let x := x.openBlock x.cursor.column .blockMappingStart none
      .ok ({ x with keyAllowed := !x.inFlow }.pushMark .value 1)

def flowStart (x : Lexer) (t : Token) : Except Fault Lexer := do
  let x ← x.saveKey
  return { x with keys := none :: x.keys, keyAllowed := true }.pushMark t 1

def flowEnd (x : Lexer) (t : Token) : Except Fault Lexer := do
  let x ← x.dropKey
  let keys := if x.inFlow then x.keys.drop 1 else x.keys
  return { x with keys := keys, keyAllowed := false }.pushMark t 1

def flowEntry (x : Lexer) : Except Fault Lexer := do
  return { (← x.dropKey) with keyAllowed := true }.pushMark .flowEntry 1

def anchor (x : Lexer) (token : String → Token) : Except Fault Lexer := do
  let x ← x.saveKey
  let (name, after) ← readAnchor x.cursor.next
  return { x.push (token name) with keyAllowed := false, cursor := after }

def tag (x : Lexer) : Except Fault Lexer := do
  let x ← x.saveKey
  let (token, after) ← readTag x.inFlow x.cursor
  return { x.push token with keyAllowed := false, cursor := after }

def blockScalar (x : Lexer) (literal : Bool) : Except Fault Lexer := do
  let x ← x.dropKey
  let (text, after) ← readBlock literal x.indent x.cursor.next
  return { x.push (.scalar false (String.ofList text)) with keyAllowed := true, cursor := after }

def quotedScalar (x : Lexer) (quote : Char) : Except Fault Lexer := do
  let x ← x.saveKey
  let c := x.cursor.next
  let (text, after) ← readQuoted quote (c.rest.length + 1) [] c
  return { x.push (.scalar false (String.ofList text)) with keyAllowed := false, cursor := after }

/-- A plain scalar. A key may start after it if it ends with its line. -/
def plainScalar (x : Lexer) : Except Fault Lexer := do
  let x ← x.saveKey
  let c := x.cursor
  let (text, broken, after) ← readPlain x.inFlow (x.indent + 1) (c.rest.length + 1) [] {} c
  return { x.push (.scalar true (String.ofList text)) with keyAllowed := broken, cursor := after }

/-- A plain scalar starts with the character `c`, with `rest` after it. -/
def startsPlain (flow : Bool) (c : Char) (rest : List Char) : Bool :=
  !(isGap c || "-?:,[]\x7b\x7d#&*!|>'\"%@\x60".toList.contains c) ||
    (c == '-' && !(rest.head?.any isBlank)) ||
    (!flow && (c == '?' || c == ':') && !atGap rest)

/-- Reads the token at the cursor, which starts with the character `c`, with `rest` after it. -/
def readToken (x : Lexer) (c : Char) (rest : List Char) : Except Fault Lexer :=
  let first := x.cursor.column == 0
  if first && c == '%' then do
    let x ← x.betweenDocuments
    let (token, after) ← readDirective x.cursor.next
    return { x.push token with cursor := after }
  else if first && startsMark '-' (c :: rest) then do
    return (← x.betweenDocuments).pushMark .documentStart 3
  else if first && startsMark '.' (c :: rest) then do
    return (← x.betweenDocuments).pushMark .documentEnd 3
  else if c == '[' then x.flowStart .flowSequenceStart
  else if c == '{' then x.flowStart .flowMappingStart
  else if c == ']' then x.flowEnd .flowSequenceEnd
  else if c == '}' then x.flowEnd .flowMappingEnd
  else if c == ',' then x.flowEntry
  else if c == '-' && atGap rest then x.blockEntry
  else if c == '?' && (x.inFlow || atGap rest) then x.explicitKey
  else if c == ':' && (x.inFlow || atGap rest) then x.value
  else if c == '*' then x.anchor .alias
  else if c == '&' then x.anchor .anchor
  else if c == '!' then x.tag
  else if c == '|' && !x.inFlow then x.blockScalar true
  else if c == '>' && !x.inFlow then x.blockScalar false
  else if c == '\'' || c == '"' then x.quotedScalar c
  else if startsPlain x.inFlow c rest then x.plainScalar
  else .error .strayCharacter

def run : (steps : Nat) → Lexer → Except Fault Lexer
  | 0, x => .ok x
  | steps + 1, x => do
    let x ← (skipGap (x.cursor.rest.length + 1) x).dropStaleKeys
    let x := x.unindent x.cursor.column
    match x.cursor.rest with
    | [] => (x.unindent (-1)).dropKey
    | c :: rest => run steps (← x.readToken c rest)

end Lexer

def tokens (text : List Char) : Except Fault (List Token) := do
  if text.all isAllowed then
    let x ← Lexer.run (text.length + 1) { cursor := { rest := text } }
    return x.cells.toList.flatten
  else .error .forbiddenCharacter

end Mutagenesis.Yaml
