import Mutagenesis.Yaml.Token.Lexer

/-!
# Reading YAML documents

The nodes of a document are read from the tokens of a text. A text holds at most one document; where
nothing is written, the document is a blank node.

The readers recurse on a number of steps, which `parse` takes from the number of tokens: each node
takes at least one token.
-/

set_option autoImplicit false

namespace Mutagenesis.Yaml

/-- How far the tokens have been read. -/
structure Composer where
  tokens : List Token
  /-- What the handles of tags stand for. -/
  handles : List (String × Tag) := []
  /-- The anchors so far, with the numbers that aliases refer to. -/
  anchors : List (String × Nat) := []
  /-- For the number of an anchor, which of the nodes with anchors bears it. -/
  bearers : List (Nat × Nat) := []
  /-- The number of nodes with anchors so far. -/
  started : Nat := 0
  /-- The nodes with anchors, each with its place among them. -/
  nodes : List (Nat × Yaml) := []

/-- A reader of nodes. -/
abbrev Composing := StateT Composer (Except Fault)

namespace Composer

def peek : Composing (Option Token) := do
  return (← get).tokens.head?

def skip : Composing Unit :=
  modify fun s => { s with tokens := s.tokens.drop 1 }

/-- Passes over the token that comes next if it is the given one. -/
def accept (t : Token) : Composing Bool := do
  if (← peek) = some t then
    skip
    return true
  else return false

def expect (t : Token) (fault : Fault) : Composing Unit := do
  if !(← accept t) then throw fault

def atAny (ts : List Token) : Composing Bool := do
  match ← peek with
  | some t => return ts.contains t
  | none => return false

/-- A node with an anchor starts: gives its place among such nodes. A name that is used again gets a
new number, which is the number of names so far. -/
def startAnchored (name : String) : Composing Nat := do
  let s ← get
  let number := s.anchors.length
  set { s with
    anchors := (name, number) :: s.anchors.filter (·.1 ≠ name)
    bearers := (number, s.started) :: s.bearers.filter (·.1 ≠ number)
    started := s.started + 1 }
  return s.started

def keepAnchored (place : Option Nat) (node : Yaml) : Composing Unit :=
  match place with
  | none => pure ()
  | some place => modify fun s => { s with nodes := (place, node) :: s.nodes }

def fullTag (handle : String) (suffix : Tag) : Composing Tag := do
  if handle.isEmpty then return suffix
  match (← get).handles.lookup handle with
  | some lead => return lead ++ suffix
  | none => throw .unknownTagHandle

def readAnchor? : Composing (Option String) := do
  match ← peek with
  | some (.anchor name) =>
    skip
    return some name
  | _ => return none

def readTag? : Composing (Option Tag) := do
  match ← peek with
  | some (.tag handle suffix) =>
    skip
    return some (← fullTag handle suffix)
  | _ => return none

/-- The anchor and the tag of a node, which may come in either order. -/
def readProperties : Composing (Option String × Option Tag) := do
  match ← readAnchor? with
  | some anchor => return (some anchor, ← readTag?)
  | none =>
    match ← readTag? with
    | some tag => return (← readAnchor?, some tag)
    | none => return (none, none)

mutual

/-- A node. In a block, block collections may come; where `bare`, entries of a sequence may come
without an indentation of their own. -/
def readNode (block bare : Bool) : (steps : Nat) → Composing Yaml
  | 0 => throw .tooDeep
  | steps + 1 => do
    match ← peek with
    | some (.alias name) =>
      skip
      match (← get).anchors.lookup name with
      | some number => return .alias number
      | none => throw .unknownAnchor
    | _ =>
      let (anchor, tag) ← readProperties
      let place ← anchor.mapM startAnchored
      let node ← readContent block bare (anchor.isSome || tag.isSome) tag steps
      keepAnchored place node
      return node

/-- What a node holds, after its anchor and its tag. -/
def readContent (block bare marked : Bool) (tag : Option Tag) : (steps : Nat) → Composing Yaml
  | 0 => throw .tooDeep
  | steps + 1 => do
    match ← peek with
    | some (.scalar plain text) =>
      skip
      return .scalar tag plain text
    | some .flowSequenceStart =>
      skip
      return .sequence tag (← readFlowItems true steps)
    | some .flowMappingStart =>
      skip
      return .mapping tag (← readFlowEntries true steps)
    | next =>
      if bare ∧ next = some .blockEntry then return .sequence tag (← readBareItems steps)
      else if block ∧ next = some .blockSequenceStart then
        skip
        return .sequence tag (← readBlockItems steps)
      else if block ∧ next = some .blockMappingStart then
        skip
        return .mapping tag (← readBlockEntries steps)
      else if marked then return .scalar tag true ""
      else throw .expectedNode

/-- A node of a block, unless one of the tokens comes next. -/
def readBlockNode (bare : Bool) (ends : List Token) : (steps : Nat) → Composing Yaml
  | 0 => throw .tooDeep
  | steps + 1 => do
    if ← atAny ends then return blank else readNode true bare steps

/-- A node of a flow collection, unless one of the tokens comes next. -/
def readFlowNode (ends : List Token) : (steps : Nat) → Composing Yaml
  | 0 => throw .tooDeep
  | steps + 1 => do
    if ← atAny ends then return blank else readNode false false steps

def readBlockItems : (steps : Nat) → Composing (List Yaml)
  | 0 => throw .tooDeep
  | steps + 1 => do
    if ← accept .blockEnd then return []
    if ← accept .blockEntry then
      let item ← readBlockNode false [.blockEntry, .blockEnd] steps
      return item :: (← readBlockItems steps)
    else throw .expectedDash

/-- The items of a block sequence without an indentation of its own. -/
def readBareItems : (steps : Nat) → Composing (List Yaml)
  | 0 => throw .tooDeep
  | steps + 1 => do
    if ← accept .blockEntry then
      let item ← readBlockNode false [.blockEntry, .key, .value, .blockEnd] steps
      return item :: (← readBareItems steps)
    else return []

def readBlockEntries : (steps : Nat) → Composing (List (Yaml × Yaml))
  | 0 => throw .tooDeep
  | steps + 1 => do
    if ← accept .blockEnd then return []
    if ← accept .key then
      let ends := [Token.key, .value, .blockEnd]
      let key ← readBlockNode true ends steps
      let value ← if ← accept .value then readBlockNode true ends steps else pure blank
      return (key, value) :: (← readBlockEntries steps)
    else throw .expectedKey

/-- The items of a flow sequence; an item may be a single entry of a mapping. -/
def readFlowItems (first : Bool) : (steps : Nat) → Composing (List Yaml)
  | 0 => throw .tooDeep
  | steps + 1 => do
    if ← accept .flowSequenceEnd then return []
    if !first then expect .flowEntry .expectedItemEnd
    if ← accept .flowSequenceEnd then return []
    let item ← if ← accept .key then readFlowPair steps else readNode false false steps
    return item :: (← readFlowItems false steps)

/-- The single entry of a mapping that is an item of a flow sequence. A token that comes in the
place of the key is lost. -/
def readFlowPair : (steps : Nat) → Composing Yaml
  | 0 => throw .tooDeep
  | steps + 1 => do
    let key ← if ← atAny [.value, .flowEntry, .flowSequenceEnd] then
        skip
        pure blank
      else readNode false false steps
    let value ← if ← accept .value then readFlowNode [.flowEntry, .flowSequenceEnd] steps
      else pure blank
    return .mapping none [(key, value)]

def readFlowEntries (first : Bool) : (steps : Nat) → Composing (List (Yaml × Yaml))
  | 0 => throw .tooDeep
  | steps + 1 => do
    if ← accept .flowMappingEnd then return []
    if !first then expect .flowEntry .expectedEntryEnd
    if ← accept .flowMappingEnd then return []
    if ← accept .key then
      let key ← readFlowNode [.value, .flowEntry, .flowMappingEnd] steps
      let value ← if ← accept .value then readFlowNode [.flowEntry, .flowMappingEnd] steps
        else pure blank
      return (key, value) :: (← readFlowEntries false steps)
    else
      let key ← readNode false false steps
      return (key, blank) :: (← readFlowEntries false steps)

end

/-- The handles that need no directive. -/
def usualHandles : List (String × Tag) :=
  [("!", Text.bytesOf "!".toList), ("!!", Text.bytesOf "tag:yaml.org,2002:".toList)]

/-- Reads the directives before a document. -/
def readDirectives (versioned : Bool) (handles : List (String × Tag)) :
    List Token → Except Fault (List (String × Tag) × List Token)
  | .versionDirective major minor :: rest =>
    if versioned then .error .duplicateDirective
    else if major ≠ 1 ∨ (minor ≠ 1 ∧ minor ≠ 2) then .error .wrongVersion
    else readDirectives true handles rest
  | .tagDirective handle lead :: rest =>
    if (handles.lookup handle).isSome then .error .duplicateDirective
    else readDirectives versioned (handles ++ [(handle, lead)]) rest
  | ts => .ok (handles, ts)

def introducesDocument : Token → Bool
  | .versionDirective _ _ | .tagDirective _ _ | .documentStart => true
  | _ => false

/-- The token does not start a node of a document. -/
def endsDocument (t : Option Token) : Bool :=
  t.all fun t => introducesDocument t || t == .documentEnd

/-- Reads the document: after its directives and `---`, or without them. -/
def readRoot (steps : Nat) : Composing Yaml := do
  match ← peek with
  | none => return blank
  | some first =>
    let (handles, tokens) ← liftM (readDirectives false [] (← get).tokens)
    modify fun s => { s with handles := handles ++ usualHandles, tokens := tokens }
    if introducesDocument first then
      expect .documentStart .expectedDocumentStart
      if endsDocument (← peek) then return blank
    readNode true false steps

/-- Nothing but marks that end documents follows. -/
def readEnd (tokens : List Token) : Except Fault Unit :=
  match tokens.dropWhile (· == .documentEnd) with
  | [] => .ok ()
  | t :: _ => .error (if introducesDocument t then .severalDocuments else .expectedDocumentStart)

/-- The nodes that aliases stand for, by number. -/
def anchorTable (s : Composer) : List (Nat × Yaml) :=
  s.bearers.filterMap fun (number, place) => (s.nodes.lookup place).map fun node => (number, node)

end Composer

def parse (text : List Char) : Except Fault Document := do
  let ts ← tokens text
  let (root, s) ← (Composer.readRoot (4 * ts.length + 8)).run { tokens := ts }
  Composer.readEnd s.tokens
  return ⟨root, s.anchorTable⟩

end Mutagenesis.Yaml
