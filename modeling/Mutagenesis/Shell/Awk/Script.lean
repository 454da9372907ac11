import Mutagenesis.Shell.Escapes
import Mutagenesis.Shell.Quantity

/-!
# Scripts of `awk`

A script is cut into tokens, which are read as a list of rules, each with a pattern and actions.
-/

namespace Mutagenesis.Shell.Awk

/-- A token; a mark is a sign, a keyword or the end of a line. -/
inductive Token where
  | number (x : Quantity)
  | text (s : Octets)
  | regex (s : Octets)
  | name (s : Octets)
  | mark (s : String)
  deriving DecidableEq

/-- An expression. -/
inductive Expr where
  | number (x : Quantity)
  | text (s : Octets)
  | regex (s : Octets)
  | variable (name : Octets)
  | field (index : Expr)
  | assign (target : Expr) (operation : String) (value : Expr)
  | step (first : Bool) (operation : String) (target : Expr)
  | operate (operation : String) (first second : Expr)
  | choice (condition yes no : Expr)
  deriving Inhabited

/-- Why the run of statements is left. -/
inductive Flow where
  | next
  | exit
  | failed
  | endless

/-- A statement. -/
inductive Statement where
  | evaluate (e : Expr)
  | print (args : List Expr)
  | block (body : List Statement)
  | choose (condition : Expr) (yes no : Statement)
  | loop (condition step : Option Expr) (body : Statement)
  | next
  | exit (status : Option Expr)
  deriving Inhabited

/-- When the actions of a rule are run. -/
inductive Trigger where
  | start
  | stop
  | always
  | when (e : Expr)

/-- A rule; without actions, the record is printed. -/
structure Rule where
  trigger : Trigger
  body : Option Statement

/-! ## Tokens -/

def escaped? (cs : Octets) : Option (Char × Octets) :=
  match cs with
  | c :: rest =>
    if c = '"' ∨ c = '/' then some (c, rest)
    else if c = 'e' then none
    else ((Escapes.letter? c).map fun d => (d, rest)).or (Escapes.octal 3 cs)
  | [] => none

def unescaped : (steps : Nat) → Octets → Octets
  | 0, cs => cs
  | _, [] => []
  | steps + 1, '\\' :: rest =>
    match escaped? rest with
    | some (c, rest) => c :: unescaped steps rest
    | none => '\\' :: unescaped steps rest
  | steps + 1, c :: rest => c :: unescaped steps rest

def upTo (stop : Char) : Octets → Option (Octets × Octets)
  | [] | '\n' :: _ => none
  | '\\' :: c :: rest => (upTo stop rest).map fun (s, after) => ('\\' :: c :: s, after)
  | c :: rest =>
    if c = stop then some ([], rest) else (upTo stop rest).map fun (s, after) => (c :: s, after)

def keywords : List String :=
  ["BEGIN", "END", "else", "exit", "for", "if", "next", "print", "while"]

def signs : List String :=
  ["+=", "-=", "*=", "/=", "%=", "^=", "==", "!=", "<=", ">=", "!~", "++", "--", "&&", "||", "+",
   "-", "*", "/", "%", "^", "(", ")", "[", "]", "~", "=", "!", "<", ">", "?", ":", ",", "$", ";",
   "\x7b", "\x7d", "\n"]

def tokens : (steps : Nat) → (afterOperand : Bool) → (line : Nat) → Octets →
    Except Octets (List (Token × Nat))
  | 0, _, _, _ => .ok []
  | _, _, _, [] => .ok []
  | steps + 1, afterOperand, line, c :: rest =>
    let give (t : Token) (operand : Bool) (rest : Octets) : Except Octets (List (Token × Nat)) := do
      return (t, line) :: (← tokens steps operand (if t = .mark "\n" then line + 1 else line) rest)
    let fault (what : Octets) : Except Octets (List (Token × Nat)) :=
      .error ("line " ++ Octets.ofNat line ++ ": " ++ what ++
        (rest.takeWhile (· ≠ '\n')).take 10 ++ " ...")
    if c = ' ' ∨ c = '\t' ∨ c = '\r' then tokens steps afterOperand line rest
    else if c = '\\' ∧ rest.head? = some '\n' then
      tokens steps afterOperand (line + 1) (rest.drop 1)
    else if c = '#' then tokens steps afterOperand line (rest.dropWhile (· ≠ '\n'))
    else if c = '"' then
      match upTo '"' rest with
      | some (s, rest) => give (.text (unescaped (s.length + 1) s)) true rest
      | none => fault "runaway string constant \""
    else if c = '/' ∧ !afterOperand then
      match upTo '/' rest with
      | some (s, rest) => give (.regex s) true rest
      | none => fault "runaway regular expression /"
    else if c.isDigit ∨ c = '.' then
      match Quantity.decimal? false (c :: rest) with
      | some found => give (.number found.value) true found.rest
      | none => fault [c]
    else if isNameStart c then
      let s := (c :: rest).takeWhile isNameChar
      let rest := (c :: rest).drop s.length
      if keywords.contains (String.ofList s) then give (.mark (String.ofList s)) false rest
      else give (.name s) true rest
    else
      match signs.find? fun s => s.toList.isPrefixOf (c :: rest) with
      | some s => give (.mark s) (s ∈ [")", "]", "++", "--"]) ((c :: rest).drop s.length)
      | none => .error (Octets.ofNat line ++ ": unexpected character '" ++ [c, '\''])

/-! ## Rules -/

abbrev Reading := EStateM Octets (List (Token × Nat))

namespace Reading

def peek : Reading Token := do
  return ((← get).head?.map Prod.fst).getD (.mark "")

def take : Reading Unit :=
  modify (List.drop 1)

def complain {α : Type} (message : Octets) : Reading α := do
  let line := ((← get).head?.map Prod.snd).getD 1
  throw ("line " ++ Octets.ofNat line ++ ": " ++ message)

def misfit {α : Type} : Reading α := do
  let near : Octets := match ← peek with
    | .number _ => "number"
    | .text s | .regex s | .name s => s
    | .mark "" => "end of file"
    | .mark "\n" => "end of line"
    | .mark s => s
  complain ("syntax error at or near " ++ near)

def accept (s : String) : Reading Bool := do
  if (← peek) = .mark s then
    take
    return true
  else return false

def expect (s : String) : Reading Unit := do
  if !(← accept s) then misfit

def passLines : Reading Unit :=
  modify (List.dropWhile fun (t, _) => t = .mark "\n")

def passEnds : Reading Unit :=
  modify (List.dropWhile fun (t, _) => t = .mark "\n" || t = .mark ";")

/-- The signs of two operands at each level, from the loosest on. -/
def levels : List (List String) :=
  [["||"], ["&&"], ["~", "!~"], ["<", "<=", "==", "!=", ">", ">="], [], ["+", "-"],
   ["*", "/", "%"]]

def startsOperand : Token → Bool
  | .mark s => s ∈ ["$", "(", "!", "++", "--"]
  | _ => true

def isPlace : Expr → Bool
  | .variable _ | .field _ => true
  | _ => false

def truth (e : Expr) : Expr :=
  .choice e (.number (.ofInt 1)) (.number .zero)

def joined (operation : String) (left right : Expr) : Expr :=
  match operation with
  | "||" => .choice left (.number (.ofInt 1)) (truth right)
  | "&&" => .choice left (truth right) (.number .zero)
  | _ => .operate operation left right

mutual

/-- An expression; while something is printed, `>` does not compare. -/
def expression : (steps : Nat) → (printed : Bool) → Reading Expr
  | 0, _ => misfit
  | steps + 1, printed => do
    let e ← binary steps printed 0
    if ← accept "?" then
      let yes ← expression steps printed
      expect ":"
      return .choice e yes (← expression steps printed)
    else return e

def binary : (steps : Nat) → (printed : Bool) → (level : Nat) → Reading Expr
  | 0, _, _ => misfit
  | steps + 1, printed, level => do
    if level < levels.length then
      let left ← binary steps printed (level + 1)
      binaryFrom steps printed level left
    else unary steps

def binaryFrom : (steps : Nat) → (printed : Bool) → (level : Nat) → Expr → Reading Expr
  | 0, _, _, _ => misfit
  | steps + 1, printed, level, left => do
    let known := levels.getD level []
    let t ← peek
    let sign := match t with
      | .mark s => s
      | _ => ""
    if known.contains sign ∧ !(printed ∧ sign = ">") then
      take
      passLines
      let right ← binary steps printed (level + 1)
      binaryFrom steps printed level (joined sign left right)
    else if known.isEmpty ∧ startsOperand t then
      let right ← binary steps printed (level + 1)
      binaryFrom steps printed level (.operate " " left right)
    else return left

def unary : (steps : Nat) → Reading Expr
  | 0 => misfit
  | steps + 1 => do
    if ← accept "!" then return .choice (← unary steps) (.number .zero) (.number (.ofInt 1))
    else if ← accept "-" then return .operate "*" (.number (.ofInt (-1))) (← unary steps)
    else if ← accept "+" then return .operate "+" (.number .zero) (← unary steps)
    else
      let base ← stepped steps
      if ← accept "^" then return .operate "^" base (← unary steps) else return base

def stepped : (steps : Nat) → Reading Expr
  | 0 => misfit
  | steps + 1 => do
    let e ← primary steps
    if !isPlace e then return e
    match ← peek with
    | .mark "++" =>
      take
      return .step false "+" e
    | .mark "--" =>
      take
      return .step false "-" e
    | .mark s =>
      if s = "=" ∨ s ∈ ["+=", "-=", "*=", "/=", "%=", "^="] then
        take
        passLines
        return .assign e (String.ofList s.toList.dropLast) (← expression steps false)
      else return e
    | _ => return e

def primary : (steps : Nat) → Reading Expr
  | 0 => misfit
  | steps + 1 => do
    let t ← peek
    let before ← get
    take
    match t with
    | .number x => return .number x
    | .text s => return .text s
    | .regex s => return .regex s
    | .name s => return .variable s
    | .mark "$" => return .field (← primary steps)
    | .mark "++" => return .step true "+" (← primary steps)
    | .mark "--" => return .step true "-" (← primary steps)
    | .mark "-" => return .operate "*" (.number (.ofInt (-1))) (← primary steps)
    | .mark "(" =>
      let e ← expression steps false
      expect ")"
      return e
    | _ =>
      set before
      misfit

def expressions : (steps : Nat) → (printed : Bool) → Reading (List Expr)
  | 0, _ => misfit
  | steps + 1, printed => do
    let e ← expression steps printed
    if ← accept "," then
      passLines
      return e :: (← expressions steps printed)
    else return [e]

end

def budget : Reading Nat := do
  return 40 * (← get).length + 64

def whole : Reading Expr := do
  expression (← budget) false

def optional (stops : List String) : Reading (Option Expr) := do
  match ← peek with
  | .mark s => if stops.contains s then return none else return some (← whole)
  | _ => return some (← whole)

def ends : List String :=
  ["\n", ";", "\x7d", ""]

def separator : Reading Unit := do
  match ← peek with
  | .mark s => if ends.contains s then passEnds else misfit
  | _ => misfit

def condition : Reading Expr := do
  expect "("
  let e ← whole
  expect ")"
  passLines
  return e

/-- What is printed: a list in parentheses, or one without them. -/
def printed : Reading Statement := do
  let before ← get
  let steps ← budget
  let grouped ← try
      expect "("
      let list ← expressions steps false
      expect ")"
      separator
      pure (some list)
    catch _ => pure none
  if let some list := grouped then return .print list
  set before
  match ← peek with
  | .mark s =>
    if ends.contains s then
      separator
      return .print []
  | _ => pure ()
  let list ← expressions steps true
  separator
  return .print list

mutual

def statement : (steps : Nat) → Reading Statement
  | 0 => misfit
  | steps + 1 => do
    match ← peek with
    | .mark "\x7b" =>
      take
      passEnds
      return .block (← statements steps)
    | .mark ";" =>
      passEnds
      return .block []
    | .mark "if" =>
      take
      let c ← condition
      let yes ← statement steps
      passEnds
      if ← accept "else" then
        passLines
        return .choose c yes (← statement steps)
      else return .choose c yes (.block [])
    | .mark "while" =>
      take
      let c ← condition
      return .loop (some c) none (← statement steps)
    | .mark "for" =>
      take
      loop steps
    | .mark "print" =>
      take
      printed
    | .mark "next" =>
      take
      separator
      return .next
    | .mark "exit" =>
      take
      let status ← optional ends
      separator
      return .exit status
    | _ =>
      let e ← whole
      separator
      return .evaluate e

def loop : (steps : Nat) → Reading Statement
  | 0 => misfit
  | steps + 1 => do
    expect "("
    let first ← optional [";"]
    expect ";"
    let c ← optional [";"]
    expect ";"
    let step ← optional [")"]
    expect ")"
    passLines
    let body ← statement steps
    return .block ((first.map .evaluate).toList ++ [.loop c step body])

def statements : (steps : Nat) → Reading (List Statement)
  | 0 => misfit
  | steps + 1 => do
    if ← accept "\x7d" then return []
    let s ← statement steps
    passEnds
    return s :: (← statements steps)

end

def rule : Reading Rule := do
  let body : Reading Statement := do
    if (← peek) ≠ .mark "\x7b" then misfit
    statement (← budget)
  let trigger ← if ← accept "BEGIN" then pure Trigger.start
    else if ← accept "END" then pure .stop
    else if (← peek) = .mark "\x7b" then pure .always
    else do pure (.when (← whole))
  match ← peek, trigger with
  | .mark "\x7b", _ | _, .start | _, .stop => return ⟨trigger, some (← body)⟩
  | _, _ =>
    separator
    return ⟨trigger, none⟩

def rules : (steps : Nat) → Reading (List Rule)
  | 0 => return []
  | steps + 1 => do
    passEnds
    if (← peek) = .mark "" then return []
    return (← rule) :: (← rules steps)

end Reading

def readScript (text : Octets) : Except Octets (List Rule) := do
  let all ← tokens (text.length + 1) false 1 text
  match Reading.rules (all.length + 1) all with
  | .error message _ => .error message
  | .ok rules _ => .ok rules

end Mutagenesis.Shell.Awk
