import Mutagenesis.Shell.Script.Words

/-!
# Reading commands

A script is read one complete command at a time, since what comes after it is only looked at when
the command has run.
-/

namespace Mutagenesis.Shell

open Reading

mutual

def nested (closed : Bool) : (steps : Nat) → Reading Command
  | 0 => return .nothing
  | steps + 1 => do
    let inner : Nested := fun closed => nested closed steps
    let outer := (← get).awaited
    modify fun r => { r with awaited := [] }
    let c ← commands false true none steps
    if closed then expectToken inner (.mark ")") (Token.isMark ")")
    readDocuments inner (readingSteps (← get).rest)
    modify fun r => { r with awaited := outer }
    return c.getD .nothing

def commands (top mayEnd : Bool) (before : Option Command) :
    (steps : Nat) → Reading (Option Command)
  | 0 => return before
  | steps + 1 => do
    let inner : Nested := fun closed => nested closed steps
    let documents : Reading Unit := do readDocuments inner (readingSteps (← get).rest)
    let t ← token inner true (!top)
    match t with
    | .newline =>
      documents
      return before
    | .endOfFile =>
      documents
      hold t
      return before
    | _ =>
      hold t
      if mayEnd && t.endsList then return before
      let line := (← get).line
      let command ← chain steps
      let t ← token inner false false
      let command := if t.isMark "&" then .background line command else command
      let all := match before with
        | some earlier => .sequence earlier command
        | none => command
      match t with
      | .endOfFile =>
        documents
        hold t
        return some all
      | .newline =>
        hold t
        commands top (!top) (some all) steps
      | _ =>
        if t.isMark ";" || t.isMark "&" then commands top (!top) (some all) steps
        else if top then unexpected t
        else
          hold t
          return some all

def body : (steps : Nat) → Reading Command
  | 0 => return .nothing
  | steps + 1 => do
    return (← commands false false none steps).getD .nothing

def chain : (steps : Nat) → Reading Command
  | 0 => return .nothing
  | steps + 1 => do
    chainFrom (← pipeline false steps) steps

def chainFrom (first : Command) : (steps : Nat) → Reading Command
  | 0 => return first
  | steps + 1 => do
    let t ← token (fun closed => nested closed steps) false false
    if t.isMark "&&" then chainFrom (.both first (← pipeline true steps)) steps
    else if t.isMark "||" then chainFrom (.either first (← pipeline true steps)) steps
    else
      hold t
      return first

def pipeline (newlines : Bool) : (steps : Nat) → Reading Command
  | 0 => return .nothing
  | steps + 1 => do
    let t ← token (fun closed => nested closed steps) newlines newlines
    if t.isReserved "!" then return .negate (← stages steps)
    else
      hold t
      stages steps

def stages : (steps : Nat) → Reading Command
  | 0 => return .nothing
  | steps + 1 => do
    match ← moreStages (← command false steps) steps with
    | [c] => return c
    | stages => return .pipeline stages

def moreStages (first : Command) : (steps : Nat) → Reading (List Command)
  | 0 => return []
  | steps + 1 => do
    let t ← token (fun closed => nested closed steps) false false
    if t.isMark "|" then return first :: (← moreStages (← command true steps) steps)
    else
      hold t
      return [first]

def command (newlines : Bool) : (steps : Nat) → Reading Command
  | 0 => return .nothing
  | steps + 1 => do
    let inner : Nested := fun closed => nested closed steps
    let line := (← get).line
    let t ← token inner true newlines
    match t with
    | .reserved "if" => withRedirections inner line (← conditional steps)
    | .reserved "while" => withRedirections inner line (← loop true steps)
    | .reserved "until" => withRedirections inner line (← loop false steps)
    | .reserved "for" => withRedirections inner line (← forLoop line steps)
    | .reserved "case" => withRedirections inner line (← selection line steps)
    | .reserved "\x7b" =>
      let c ← body steps
      expectReserved inner "\x7d"
      withRedirections inner line c
    | .mark "(" =>
      let c ← body steps
      expectToken inner (.mark ")") (Token.isMark ")")
      return .subshell line c (← redirections inner (← get).rest.length)
    | .word w =>
      if ← expandAlias w then command newlines steps
      else
        hold t
        simple (← get).line [] [] [] steps
    | .redirection _ _ =>
      hold t
      simple (← get).line [] [] [] steps
    | _ => unexpected t

def conditional : (steps : Nat) → Reading Command
  | 0 => return .nothing
  | steps + 1 => do
    let inner : Nested := fun closed => nested closed steps
    let condition ← body steps
    expectReserved inner "then"
    let yes ← body steps
    let t ← token inner false false
    match t with
    | .reserved "elif" => return .choose condition yes (some (← conditional steps))
    | .reserved "else" =>
      let no ← body steps
      expectReserved inner "fi"
      return .choose condition yes (some no)
    | .reserved "fi" => return .choose condition yes none
    | t => unexpectedFor t (.reserved "fi")

def loop (wanted : Bool) : (steps : Nat) → Reading Command
  | 0 => return .nothing
  | steps + 1 => do
    let inner : Nested := fun closed => nested closed steps
    let condition ← body steps
    expectReserved inner "do"
    let repeated ← body steps
    expectReserved inner "done"
    return .repeatWhile wanted condition repeated

def loopBody : (steps : Nat) → Reading Command
  | 0 => return .nothing
  | steps + 1 => do
    let inner : Nested := fun closed => nested closed steps
    let t ← token inner true true
    if !t.isReserved "do" then unexpectedFor t (.reserved "do")
    let repeated ← body steps
    expectReserved inner "done"
    return repeated

def forLoop (line : Nat) : (steps : Nat) → Reading Command
  | 0 => return .nothing
  | steps + 1 => do
    let inner : Nested := fun closed => nested closed steps
    let t ← token inner false false
    let name := match t with
      | .word w => (Word.plain? w).getD []
      | _ => []
    if !isName name then fault "Bad for loop variable"
    let t ← token inner true true
    let words ←
      if t.isReserved "in" then wordList inner (← get).rest.length
      else
        if !t.isMark ";" then hold t
        pure [[.parameter ['@'] .value true]]
    return .forEach line name words (← loopBody steps)

def selection (line : Nat) : (steps : Nat) → Reading Command
  | 0 => return .nothing
  | steps + 1 => do
    let inner : Nested := fun closed => nested closed steps
    let t ← token inner false false
    match t with
    | .word w =>
      let t ← token inner true true
      if !t.isReserved "in" then unexpectedFor t (.reserved "in")
      return .select line w (← branches steps)
    | t => unexpectedFor t (.word [])

def branches : (steps : Nat) → Reading (List (List Word × Option Command))
  | 0 => return []
  | steps + 1 => do
    let inner : Nested := fun closed => nested closed steps
    let t ← token inner true true
    if t.isReserved "esac" then return []
    let t ← if t.isMark "(" then token inner false false else pure t
    let patterns ← patternsFrom inner t ((← get).rest.length + 1)
    let chosen ← commands false true none steps
    let t ← token inner true true
    if t.isReserved "esac" then return [(patterns, chosen)]
    else if t.isMark ";;" then return (patterns, chosen) :: (← branches steps)
    else unexpectedFor t (.mark ";;")

def simple (line : Nat) (assignments : List (Octets × Word)) (words : List Word)
    (changes : List Redirection) : (steps : Nat) → Reading Command
  | 0 => return .nothing
  | steps + 1 => do
    let inner : Nested := fun closed => nested closed steps
    let t ← token inner false false
    match t with
    | .word w =>
      match if words.isEmpty then Word.assignment? w else none with
      | some assignment => simple line (assignments ++ [assignment]) words changes steps
      | none =>
        let mayExpand := words.isEmpty && !(assignments.isEmpty && changes.isEmpty)
        if mayExpand && (← expandAlias w) then simple line assignments words changes steps
        else simple line assignments (words ++ [w]) changes steps
    | .redirection stream kind =>
      let r ← redirectionTo inner stream kind
      simple line assignments words (changes ++ [r]) steps
    | t =>
      match words with
      | [w] =>
        if t.isMark "(" && assignments.isEmpty && changes.isEmpty then
          expectToken inner (.mark ")") (Token.isMark ")")
          let name := (Word.plain? w).getD []
          if !isName name ∨ String.ofList name ∈ specialBuiltins then fault "Bad function name"
          return .define name (← command true steps)
        else
          hold t
          return .simple line assignments words changes
      | _ =>
        hold t
        return .simple line assignments words changes

end

def nextCommand : Reading (Option Command) := do
  modify fun r => { r with held := none, awaited := [] }
  let c ← commands true false none (readingSteps (← get).rest)
  match c, (← get).held with
  | none, some .endOfFile => return none
  | c, _ => return some (c.getD .nothing)

end Mutagenesis.Shell
