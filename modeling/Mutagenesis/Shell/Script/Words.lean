import Mutagenesis.Shell.Script.Token

/-!
# Reading words

Words, tokens and documents of a script.
-/

namespace Mutagenesis.Shell

open Reading

/-- What encloses characters in which only some keep their meaning. -/
inductive Enclosure where
  | quotes
  | braces
  | document
  deriving DecidableEq

def endsWord (c : Char) : Bool :=
  c ∈ [' ', '\t', '\n', ';', '&', '|', '<', '>', '(', ')']

def isSpecialParameter (c : Char) : Bool :=
  c.isDigit || c ∈ ['!', '#', '$', '*', '-', '?', '@']

/-- Reads the commands that stand in a word. The flag says whether a parenthesis closes them. -/
abbrev Nested := (closed : Bool) → Reading Command

def singleQuoted : Reading Octets := do
  let r ← get
  let inside := r.rest.takeWhile (· != '\'')
  discard (drop (inside.length + 1))
  if inside.length = r.rest.length then fault "Unterminated quoted string"
  else return inside

def escaped : Reading Piece := do
  match (← get).rest.head? with
  | some c =>
    advance
    return .text [c] true
  | none => return .text ['\\'] false

def escapedWithin (e : Enclosure) : Reading Piece := do
  match (← get).rest.head? with
  | some c =>
    advance
    if c ∈ ['\\', '\x60', '$'] ∨ (c = '"' ∧ e ≠ .document) ∨ (c = '\x7d' ∧ e = .braces) then
      return .text [c] true
    else return .text ['\\', c] true
  | none => return .text ['\\'] true

def backquotedText (quoted : Bool) : (steps : Nat) → Reading Octets
  | 0 => fault "EOF in backquote substitution"
  | steps + 1 => do
    match (← get).rest with
    | [] => fault "EOF in backquote substitution"
    | '\x60' :: _ =>
      advance
      return []
    | '\\' :: c :: _ =>
      discard (drop 2)
      let inside ← backquotedText quoted steps
      if c = '\n' then return inside
      else if c ∈ ['\\', '\x60', '$'] ∨ (quoted ∧ c = '"') then return c :: inside
      else return '\\' :: c :: inside
    | c :: _ =>
      advance
      return c :: (← backquotedText quoted steps)

def backquoted (nested : Nested) (quoted : Bool) : Reading Word := do
  let script ← backquotedText quoted ((← get).rest.length + 1)
  return [.output (← within script 1 (nested false)) quoted]

def redirectionKind (c : Char) : Reading RedirectionKind := do
  if c = '>' then
    if ← accept '>' then return .file .append
    else if ← accept '&' then return .copy
    else if ← accept '|' then return .file .overwrite
    else return .file .write
  else if ← accept '<' then return .document (← accept '-')
  else if ← accept '&' then return .copy
  else if ← accept '>' then return .file .readWrite
  else return .file .read

def redirectionToken (stream : Option Nat) : Reading Token := do
  match ← peek with
  | some c =>
    advance
    return .redirection (stream.getD (if c = '>' then 1 else 0)) (← redirectionKind c)
  | none => return .endOfFile

def streamNumber? (w : Word) : Option Nat :=
  match w.plain? with
  | some [c] => if c.isDigit then some (c.toNat - '0'.toNat) else none
  | _ => none

def untabbed (withoutTabs : Bool) (l : Octets) : Octets :=
  if withoutTabs then l.dropWhile (· == '\t') else l

def isJoined (l : Octets) : Bool :=
  (l.reverse.takeWhile (· == '\\')).length % 2 = 1

def documentText (d : AwaitedDocument) (joined : Bool) : List Octets → Octets × Nat
  | [] => ([], 0)
  | [l] =>
    let l := untabbed d.withoutTabs l
    if !joined ∧ l = d.ending then ([], 1) else (l, 1)
  | l :: rest =>
    let l := untabbed d.withoutTabs l
    if !joined ∧ l = d.ending then ([], 1)
    else
      let (text, count) := documentText d (!d.literal && isJoined l) rest
      (l ++ '\n' :: text, count + 1)

def parameterName : Reading Octets := do
  match ← peek with
  | some c =>
    if isNameStart c then takeAll isNameChar
    else if c.isDigit then takeAll Char.isDigit
    else
      advance
      return [c]
  | none => return []

mutual

def unquoted (nested : Nested) (inBraces : Bool) : (steps : Nat) → Reading Word
  | 0 => return []
  | steps + 1 => do
    match ← peek with
    | none => if inBraces then fault "Missing '\x7d'" else return []
    | some c =>
      if !inBraces && endsWord c then return []
      advance
      if inBraces && c = '\x7d' then return []
      let here ← match c with
        | '\'' => do pure [.text (← singleQuoted) true]
        | '"' => doubleQuoted nested steps
        | '$' => dollar nested false steps
        | '\x60' => backquoted nested false
        | '\\' => do pure [← escaped]
        | c => pure [.text [c] false]
      return here ++ (← unquoted nested inBraces steps)

def doubleQuoted (nested : Nested) : (steps : Nat) → Reading Word
  | 0 => return []
  | steps + 1 => do
    let inside ← quotedPieces nested .quotes false steps
    return if inside.isEmpty then [.text [] true] else inside

def quotedPieces (nested : Nested) (e : Enclosure) (inner : Bool) : (steps : Nat) → Reading Word
  | 0 => return []
  | steps + 1 => do
    match ← peek with
    | none => if e = .document then return [] else fault "Unterminated quoted string"
    | some c =>
      advance
      if c = '"' ∧ e = .quotes then return []
      else if c = '"' ∧ e = .braces then quotedPieces nested e (!inner) steps
      else if c = '\x7d' ∧ e = .braces ∧ inner = false then return []
      else
        let here ← match c with
          | '$' => dollar nested true steps
          | '\x60' => backquoted nested true
          | '\\' => do pure [← escapedWithin e]
          | c => pure [.text [c] true]
        return here ++ (← quotedPieces nested e inner steps)

def dollar (nested : Nested) (quoted : Bool) : (steps : Nat) → Reading Word
  | 0 => return []
  | steps + 1 => do
    match ← peek with
    | some '(' =>
      advance
      if ← accept '(' then return [.number (← arithmetic nested 0 steps).joined quoted]
      return [.output (← nested true) quoted]
    | some '\x7b' =>
      advance
      return [← parameterUse nested quoted steps]
    | some c =>
      if isNameStart c then return [.parameter (← takeAll isNameChar) .value quoted]
      else if isSpecialParameter c then
        advance
        return [.parameter [c] .value quoted]
      else return [.text ['$'] quoted]
    | none => return [.text ['$'] quoted]

def parameterUse (nested : Nested) (quoted : Bool) : (steps : Nat) → Reading Piece
  | 0 => fault "Missing '\x7d'"
  | steps + 1 => do
    let badUse : Reading Piece := do
      discard (wordOfUse nested quoted steps)
      return .parameter [] .bad quoted
    if (← peek) = some '\x7d' then badUse
    else
      let name ← parameterName
      let next ← peek
      if name = ['#'] ∧ next.any isNameChar then
        let build ← subjectOf nested quoted steps (← parameterName)
        if ← accept '\x7d' then return build .length else badUse
      else
        let rest := (← get).rest
        if name = ['#'] ∧ next ≠ some '\x7d' ∧ (rest.drop 1).head? = some '\x7d' then
          if next.any isSpecialParameter then
            discard (drop 2)
            return .parameter (rest.take 1) .length quoted
          else badUse
        else if isName name ∨ name.all isSpecialParameter then
          useOf nested (← subjectOf nested quoted steps name) quoted steps
        else badUse

/-- What a use is of: a parameter, or an item of a list. -/
def subjectOf (nested : Nested) (quoted : Bool) : (steps : Nat) → Octets → Reading (Use → Piece)
  | 0, _ => fault "Missing '\x7d'"
  | steps + 1, name => do
    if (← get).dialect = .extended && isName name && (← accept '[') then
      let inside ← takeAll (· ≠ ']')
      advance
      let index ← within inside (← get).line (quotedPieces nested .document false steps)
      return fun use => .item name index use quoted
    else return fun use => .parameter name use quoted

def useOf (nested : Nested) (build : Use → Piece) (quoted : Bool) :
    (steps : Nat) → Reading Piece
  | 0 => fault "Missing '\x7d'"
  | steps + 1 => do
    let next ← peek
    if next.isSome then advance
    match next with
    | some '\x7d' => return build .value
    | some '%' =>
      let longest ← accept '%'
      return build (.trimEnd longest (← unquoted nested true steps).joined)
    | some '#' =>
      let longest ← accept '#'
      return build (.trimStart longest (← unquoted nested true steps).joined)
    | _ =>
      let empty := next = some ':'
      let kind ← if empty then peek else pure next
      let isWord := kind.any (· ∈ ['-', '=', '?', '+'])
      if empty ∧ isWord then advance
      let w ← wordOfUse nested quoted steps
      match kind with
      | some '-' => return build (.orElse empty w)
      | some '=' => return build (.orAssign empty w)
      | some '?' => return build (.orFail empty w)
      | some '+' => return build (.ifSet empty w)
      | _ => return build .bad

def wordOfUse (nested : Nested) (quoted : Bool) : (steps : Nat) → Reading Word
  | 0 => fault "Missing '\x7d'"
  | steps + 1 => do
    let w ← if quoted then do quotedPieces nested .braces false steps
      else unquoted nested true steps
    return w.joined

def arithmetic (nested : Nested) (parentheses : Nat) : (steps : Nat) → Reading Word
  | 0 => fault "Missing '))'"
  | steps + 1 => do
    match ← peek with
    | none => fault "Missing '))'"
    | some c =>
      advance
      match c with
      | '(' => return .text [c] true :: (← arithmetic nested (parentheses + 1) steps)
      | ')' =>
        if 0 < parentheses then
          return .text [c] true :: (← arithmetic nested (parentheses - 1) steps)
        else if ← accept ')' then return []
        else return .text [c] true :: (← arithmetic nested 0 steps)
      | _ =>
        let here ← match c with
          | '$' => dollar nested true steps
          | '\x60' => backquoted nested true
          | '\\' => do pure [← escapedWithin .quotes]
          | c => pure [.text [c] true]
        return here ++ (← arithmetic nested parentheses steps)

end

def readingSteps (cs : Octets) : Nat :=
  12 * cs.length + 100

def listItems (nested : Nested) : (steps : Nat) → Reading (List Word)
  | 0 => return []
  | steps + 1 => do
    match ← peek with
    | none => fault "Missing ')'"
    | some ')' =>
      advance
      return []
    | some c =>
      if c ∈ [' ', '\t', '\n'] then
        advance
        listItems nested steps
      else
        let w ← unquoted nested false steps
        if w.isEmpty then unexpected (.mark (String.ofList [c]))
        return w.joined :: (← listItems nested steps)

def startsList (w : Word) : Bool :=
  match w.assignment? with
  | some (_, []) => true
  | _ => false

def wordFrom (nested : Nested) (steps : Nat) : Reading Token := do
  let w ← unquoted nested false steps
  let next ← peek
  if next = some '(' && (← get).dialect = .extended && startsList w.joined then
    advance
    return .word (w.joined ++ [.list (← listItems nested steps)])
  else if next = some '<' ∨ next = some '>' then
    if w.isEmpty then redirectionToken none
    else
      match streamNumber? w with
      | some n => redirectionToken (some n)
      | none => return .word w.joined
  else return .word w.joined

def tokenFrom (nested : Nested) (c : Char) (steps : Nat) : Reading Token := do
  let doubled (single double : String) : Reading Token := do
    advance
    return .mark (if ← accept c then double else single)
  match c with
  | '\n' =>
    advance
    return .newline
  | '&' => doubled "&" "&&"
  | '|' => doubled "|" "||"
  | ';' => doubled ";" ";;"
  | '(' | ')' =>
    advance
    return .mark (String.ofList [c])
  | _ => wordFrom nested steps

def rawToken (nested : Nested) : (steps : Nat) → Reading Token
  | 0 => return .endOfFile
  | steps + 1 => do
    match ← peek with
    | none => return .endOfFile
    | some c =>
      match c with
      | ' ' | '\t' =>
        advance
        rawToken nested steps
      | '#' =>
        discard (drop ((← get).rest.takeWhile (· != '\n')).length)
        rawToken nested steps
      | _ => tokenFrom nested c steps

def readDocuments (nested : Nested) : (steps : Nat) → Reading Unit
  | 0 => return ()
  | steps + 1 => do
    match (← get).awaited with
    | [] => return ()
    | d :: others =>
      let r ← get
      let lines := Text.pieces '\n' r.rest
      let (text, count) := documentText d false lines
      let rest := (lines.drop count).intersperse ['\n']
      set { r with rest := rest.flatten, line := r.line + count, awaited := others }
      let body ← if d.literal then pure [.text text true]
        else within text r.line (quotedPieces nested .document false steps)
      modify fun r => { r with documents := (d.number, Word.joined body) :: r.documents }
      readDocuments nested steps

def skipNewlines (nested : Nested) (t : Token) : (steps : Nat) → Reading Token
  | 0 => return t
  | steps + 1 => do
    match t with
    | .newline =>
      readDocuments nested steps
      skipNewlines nested (← rawToken nested steps) steps
    | t => return t

def token (nested : Nested) (keywords newlines : Bool) : Reading Token := do
  let steps := readingSteps (← get).rest
  let first ← match (← get).held with
    | some t => do
      modify fun r => { r with held := none }
      pure t
    | none => rawToken nested steps
  let t ← if newlines then skipNewlines nested first steps else pure first
  match t with
  | .word w =>
    match (Word.plain? w).map String.ofList with
    | some name =>
      if keywords && name ∈ reservedWords then return .reserved name else return t
    | none => return t
  | t => return t

def expectToken (nested : Nested) (expected : Token) (accepts : Token → Bool) : Reading Unit := do
  let t ← token nested false false
  if accepts t then return () else unexpectedFor t expected

def expectReserved (nested : Nested) (name : String) : Reading Unit :=
  expectToken nested (.reserved name) (Token.isReserved name)

def redirectionTo (nested : Nested) (stream : Nat) (kind : RedirectionKind) :
    Reading Redirection := do
  match ← token nested false false with
  | .word w =>
    match kind with
    | .file mode => return .file stream mode w
    | .copy => return .copy stream w
    | .document withoutTabs =>
      let number ← freshNumber
      let awaited : AwaitedDocument :=
        ⟨number, (Word.characters? w).getD [], withoutTabs, Word.isQuoted w⟩
      modify fun r => { r with awaited := r.awaited ++ [awaited] }
      return .document stream number
  | t => unexpected t

def redirections (nested : Nested) : (steps : Nat) → Reading (List Redirection)
  | 0 => return []
  | steps + 1 => do
    let t ← token nested true false
    match t with
    | .redirection stream kind =>
      let r ← redirectionTo nested stream kind
      return r :: (← redirections nested steps)
    | t =>
      hold t
      return []

def withRedirections (nested : Nested) (line : Nat) (c : Command) : Reading Command := do
  match ← redirections nested (← get).rest.length with
  | [] => return c
  | list => return .redirected line c list

def wordList (nested : Nested) : (steps : Nat) → Reading (List Word)
  | 0 => return []
  | steps + 1 => do
    let t ← token nested false false
    match t with
    | .word w => return w :: (← wordList nested steps)
    | .newline => return []
    | t => if t.isMark ";" then return [] else unexpected t

def patternsFrom (nested : Nested) (t : Token) : (steps : Nat) → Reading (List Word)
  | 0 => return []
  | steps + 1 => do
    let pattern := t.word?.getD []
    let next ← token nested false false
    if next.isMark "|" then
      let t ← token nested false false
      return pattern :: (← patternsFrom nested t steps)
    else if next.isMark ")" then return [pattern]
    else unexpectedFor next (.mark ")")

end Mutagenesis.Shell
