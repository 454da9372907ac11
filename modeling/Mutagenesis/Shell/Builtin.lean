import Mutagenesis.Shell.Condition
import Mutagenesis.Shell.Expansion
import Mutagenesis.Shell.Permissions
import Mutagenesis.Shell.Printing

/-!
# Built-in commands

The commands that a shell carries out itself.
-/

namespace Mutagenesis.Shell

open Act

def misused (message : String) : Act Nat := do
  warn message.toList
  return 2

def optionsOf (allowed : List Char) : List Octets → Except Char (List Char × List Octets)
  | [] => .ok ([], [])
  | w :: rest =>
    match w with
    | ['-', '-'] => .ok ([], rest)
    | '-' :: c :: letters =>
      match (c :: letters).find? (· ∉ allowed) with
      | some c => .error c
      | none => do
        let (more, words) ← optionsOf allowed rest
        return (c :: letters ++ more, words)
    | _ => .ok ([], w :: rest)

def withOptions (allowed : List Char) (run : List Char → List Octets → Act Nat)
    (args : List Octets) : Act Nat :=
  match optionsOf allowed args with
  | .ok (letters, words) => run letters words
  | .error c => die ("Illegal option -" ++ [c])

def signals : List (String × Nat) :=
  [("EXIT", 0), ("HUP", 1), ("INT", 2), ("QUIT", 3), ("ABRT", 6), ("KILL", 9), ("USR1", 10),
   ("SEGV", 11), ("USR2", 12), ("PIPE", 13), ("ALRM", 14), ("TERM", 15), ("CHLD", 17),
   ("CONT", 18)]

def signalName (n : Nat) : String :=
  match signals.find? (·.2 = n) with
  | some (name, _) => name
  | none => toString n

def signal? (w : Octets) : Option String :=
  match Octets.nat? w with
  | some n => if n < 65 then some (signalName n) else none
  | none =>
    let name := (String.ofList w).toUpper
    let short := if name.startsWith "SIG" then (name.drop 3).toString else name
    if (signals.lookup short).isSome then some short else none

def signalNumber (name : String) : Nat :=
  (signals.lookup name).getD ((Octets.nat? name.toList).getD 0)

def signalText (n : Nat) : String :=
  match n with
  | 1 => "Hangup"
  | 2 | 13 => ""
  | 3 => "Quit"
  | 6 => "Aborted"
  | 9 => "Killed"
  | 10 => "User defined signal 1"
  | 11 => "Segmentation fault"
  | 15 => "Terminated"
  | n => s!"Signal {n}"

def singleQuote (cs : Octets) : Octets :=
  let inner := cs.flatMap fun c => if c = '\'' then "'\"'\"'" else [c]
  ['\''] ++ inner ++ ['\'']

def optionNames : List (String × Char) :=
  [("errexit", 'e'), ("noglob", 'f'), ("noexec", 'n'), ("xtrace", 'x'), ("verbose", 'v'),
   ("noclobber", 'C'), ("allexport", 'a'), ("nounset", 'u')]

def setOption (on : Bool) (letter : Char) : Act Unit :=
  change fun s =>
    let others := s.options.filter (· != letter)
    { s with options := if on then letter :: others else others }

def applyLetters (on : Bool) : Octets → List Octets → Act (List Octets)
  | [], rest => return rest
  | 'o' :: letters, rest => do
    let name := rest.headD []
    match optionNames.lookup (String.ofList name) with
    | some letter =>
      setOption on letter
      applyLetters on letters (rest.drop 1)
    | none => die ("Illegal option " ++ (if on then '-' else '+') :: 'o' :: ' ' :: name)
  | c :: letters, rest => do
    if !optionNames.any (·.2 = c) then
      die ("Illegal option " ++ [if on then '-' else '+', c])
    setOption on c
    applyLetters on letters rest

def readOptions : (steps : Nat) → List Octets → Act (Option (List Octets))
  | 0, words => return some words
  | steps + 1, words => do
    match words with
    | [] => return none
    | ['-', '-'] :: rest => return some rest
    | ('-' :: letters) :: rest => readOptions steps (← applyLetters true letters rest)
    | ('+' :: letters) :: rest => readOptions steps (← applyLetters false letters rest)
    | words => return some words

def builtinSet (args : List Octets) : Act Nat := do
  if let some words ← readOptions (args.length + 1) args then
    change fun s => { s with arguments := words, optionPlace := 0 }
  return 0

def builtinShift (args : List Octets) : Act Nat := do
  let count ← match args with
    | [] => pure 1
    | w :: _ =>
      match Octets.nat? w with
      | some n => pure n
      | none => die ("Illegal number: " ++ w)
  let s ← shell
  if s.arguments.length < count then die "can't shift that many"
  change fun s => { s with arguments := s.arguments.drop count, optionPlace := 0 }
  return 0

def splitAssignment (w : Octets) : Octets × Option Octets :=
  let name := w.takeWhile (· != '=')
  match w.drop name.length with
  | '=' :: value => (name, some value)
  | _ => (name, none)

def markAll (mark : Setting → Setting) : List Octets → Act Nat
  | [] => return 0
  | w :: rest => do
    let (name, value) := splitAssignment w
    if !isName name then die (name ++ ": bad variable name")
    if let some value := value then assign name value
    let setting := (← setting? name).getD {}
    putSetting name (some (mark setting))
    markAll mark rest

def builtinMark (mark : Setting → Setting) : List Octets → Act Nat :=
  withOptions [] fun _ words => markAll mark words

def builtinLocal (args : List Octets) : Act Nat := do
  if (← shell).depth = 0 then die "not in a function"
  args.forM fun w => do
    let (name, value) := splitAssignment w
    if name = ['-'] ∧ value.isNone then rememberOptions
    else
      if !isName name then die (name ++ ": bad variable name")
      remember name
      match value with
      | some value => assign name value
      | none => pure ()
  return 0

def builtinUnset : List Octets → Act Nat :=
  withOptions ['f', 'v'] fun letters names => do
    names.forM fun name => do
      if letters.getLast? = some 'f' then
        change fun s => { s with functions := s.functions.filter (·.1 ≠ name) }
      else
        if !isName name then die (name ++ ": bad variable name")
        if (← setting? name).any Setting.readOnly then die (name ++ ": is read only")
        putSetting name none
    return 0

def loopCount (args : List Octets) : Act Nat :=
  match args with
  | [] => return 1
  | w :: _ =>
    match Octets.nat? w with
    | some (n + 1) => return n + 1
    | _ => die ("Illegal number: " ++ w)

def statusOf (args : List Octets) : Act Nat :=
  match args with
  | [] => return (← shell).status
  | w :: _ =>
    match Octets.nat? w with
    | some n => return n
    | none => die ("Illegal number: " ++ w)

def tidyNames (names : List Octets) : List Octets :=
  names.foldl (fun done name =>
    if name.isEmpty ∨ name = ['.'] then done
    else if name = ['.', '.'] then done.dropLast
    else done ++ [name]) []

def tidyPath (path : Octets) : Octets :=
  let tidy := '/' :: ['/'].intercalate (tidyNames (Text.pieces '/' path))
  if path.take 2 = ['/', '/'] ∧ (path.drop 2).head? ≠ some '/' then '/' :: tidy else tidy

def pathFrom (folder path : Octets) : Octets :=
  if path.head? = some '/' then tidyPath path else tidyPath (folder ++ '/' :: path)

def builtinCd (args : List Octets) : Act Nat := do
  let (path, shown) ← match args with
    | [] => do pure (← valueOf "HOME", false)
    | ['-'] :: _ => do pure (← valueOf "OLDPWD", true)
    | path :: _ => pure (path, false)
  let before := (← shell).folder
  let after := pathFrom before path
  let m ← get
  let target := Octets.toText after
  match m.disk.resolve true target, m.disk.hasFolder target with
  | .ok place, true =>
    set { m with disk := { m.disk with workingFolder := place } }
    change fun s => { s with folder := after }
    assign "OLDPWD" before
    assign "PWD" after
    if shown then say (after ++ ['\n'])
    return 0
  | _, _ =>
    if path.isEmpty then return 0
    warn ("can't cd to " ++ path)
    return 2

def builtinPwd (_ : List Octets) : Act Nat := do
  say ((← shell).folder ++ ['\n'])
  return 0

def facts : Act Condition.Facts := do
  let m ← get
  return ⟨m.disk, m.attributes⟩

def check (words : List Octets) : Act Nat := do
  match Condition.holds (← facts) words with
  | .ok true => return 0
  | .ok false => return 1
  | .error fault =>
    warn fault.message
    return 2

def builtinBracket (args : List Octets) : Act Nat := do
  if (args.getLast?.bind List.head?) = some ']' then check args.dropLast else misused "missing ]"

def builtinEcho (args : List Octets) : Act Nat := do
  if (← streamOf? 1).isNone then
    warn "echo: I/O error"
    return 1
  say (Printing.echo args)
  return 0

def builtinPrintf (args : List Octets) : Act Nat := do
  match args with
  | ['-', '-'] :: format :: args => print format args
  | format :: args => print format args
  | [] => misused "usage: printf format [arg ...]"
where
  print (format : Octets) (args : List Octets) : Act Nat := do
    let printed := Printing.printf format args
    printed.written.reverse.forM fun
      | .error complaint => warn complaint
      | .ok _ => pure ()
    say printed.output
    return printed.status

abbrev ReadChar := Char × Bool

def readLine (raw : Bool) : Octets → List ReadChar × Nat × Bool
  | [] => ([], 0, false)
  | '\n' :: _ => ([], 1, true)
  | '\\' :: cs =>
    if raw then keep 1 [('\\', false)] (readLine raw cs)
    else match cs with
      | '\n' :: rest => keep 2 [] (readLine raw rest)
      | d :: rest => keep 2 [(d, true)] (readLine raw rest)
      | [] => ([], 1, false)
  | c :: cs => keep 1 [(c, false)] (readLine raw cs)
where
  keep (taken : Nat) (item : List ReadChar) :
      List ReadChar × Nat × Bool → List ReadChar × Nat × Bool
    | (line, count, ended) => (item ++ line, count + taken, ended)

def readValues (separators : Octets) : (count : Nat) → List ReadChar → List Octets
  | 0, _ => []
  | count + 1, cs =>
    let isSeparator (c : ReadChar) : Bool := !c.2 && separators.contains c.1
    let isBlank (c : ReadChar) : Bool :=
      isSeparator c && (c.1 = ' ' || c.1 = '\t' || c.1 = '\n')
    let cs := cs.dropWhile isBlank
    let value := cs.takeWhile (!isSeparator ·)
    let rest := (cs.drop value.length).dropWhile isBlank
    let after := match rest with
      | c :: more => if isSeparator c ∧ !isBlank c then more.dropWhile isBlank else rest
      | [] => []
    if count = 0 then
      if after.isEmpty then [value.map Prod.fst]
      else [((cs.reverse.dropWhile isBlank).reverse).map Prod.fst]
    else value.map Prod.fst :: readValues separators count after

def builtinRead (args : List Octets) : Act Nat := do
  let raw := args.head? = some ['-', 'r']
  let names := if raw then args.drop 1 else args
  match names.head? with
  | none => misused "arg count"
  | _ =>
    let number ← streamOf? 0
    let cs ← match number with
      | some n => unread n
      | none => pure []
    let (line, count, ended) := readLine raw cs
    if let some n := number then consume n count
    let values := readValues (← separators) names.length line
    let good := names.takeWhile isName
    (good.zip values).forM fun (name, value) => assign name value
    match names[good.length]? with
    | some name => misused (String.ofList name ++ ": bad variable name")
    | none => return if ended then 0 else 1

def builtinTrap : List Octets → Act Nat :=
  withOptions [] fun _ args => do
    match args with
    | [] =>
      let traps := (← shell).traps.mergeSort fun a b => signalNumber a.1 ≤ signalNumber b.1
      traps.forM fun (name, action) =>
        say ("trap -- " ++ singleQuote action ++ [' '] ++ name.toList ++ ['\n'])
      return 0
    | first :: rest =>
      let (action, names) := if rest.isEmpty ∨ (Octets.nat? first).isSome then (none, args)
        else if first = ['-'] then (none, rest)
        else (some first, rest)
      setAll action names
where
  setAll (action : Option Octets) : List Octets → Act Nat
    | [] => return 0
    | w :: rest => do
      match signal? w with
      | none =>
        write 2 ("trap: " ++ w ++ ": bad trap\n")
        return 1
      | some name =>
        change fun s =>
          let others := s.traps.filter (·.1 ≠ name)
          { s with traps := match action with
            | some a => (name, a) :: others
            | none => others }
        setAll action rest

def sendSignal (run : Octets → Act Unit) (signal : String) (process : Nat) : Act Nat := do
  let m ← get
  let s := m.shell
  if signal = "EXIT" ∧ process ∈ [0, 1, s.process, s.own] then return 0
  if process = s.process ∨ process = s.own then
    match s.traps.lookup signal with
    | some action =>
      if signal ≠ "KILL" then
        if !action.isEmpty then run action
        return 0
    | none => pure ()
    if signal ∈ ["CHLD", "CONT"] then return 0
    throw (.killed process (signalNumber signal))
  else if m.jobs.any (·.process = process) then
    set { m with
      jobs := m.jobs.filter (·.process ≠ process)
      ended := (process, 128 + signalNumber signal) :: m.ended }
    return 0
  else
    warn "No such process\n"
    return 1

def builtinKill (run : Octets → Act Unit) (args : List Octets) : Act Nat := do
  match args with
  | ['-', 'l'] :: w :: _ =>
    let n := (Octets.nat? w).getD 0
    say ((signalName (if 128 < n then n - 128 else n)).toList ++ ['\n'])
    return 0
  | ('-' :: name) :: rest =>
    match signal? name with
    | some signal => sendAll signal 0 rest
    | none => misused ("invalid signal number or name: " ++ String.ofList name)
  | _ => sendAll "TERM" 0 args
where
  sendAll (signal : String) (status : Nat) : List Octets → Act Nat
    | [] => return status
    | w :: rest => do
      let digits := if w.head? = some '-' then w.drop 1 else w
      match Octets.nat? digits with
      | some process => sendAll signal (max status (← sendSignal run signal process)) rest
      | none => misused ("Illegal number: " ++ String.ofList digits)

def wantedOptions : Octets → List (Char × Bool)
  | [] => []
  | c :: ':' :: rest => (c, true) :: wantedOptions rest
  | c :: rest => (c, false) :: wantedOptions rest

def builtinGetopts (args : List Octets) : Act Nat := do
  match args with
  | wanted :: name :: rest =>
    let s ← shell
    let words := if rest.isEmpty then s.arguments else rest
    let index := (Octets.nat? (← valueOf "OPTIND")).getD 1
    let finish (index place : Nat) (value : Octets) (status : Nat) : Act Nat := do
      assign "OPTIND" (Octets.ofNat index)
      assign name value
      change fun s => { s with optionPlace := place }
      return status
    let current := (words[index - 2]?).getD []
    let goesOn := 1 < index ∧ 0 < s.optionPlace ∧ s.optionPlace < current.length
    let (word, place, index) : Option Octets × Nat × Nat :=
      if goesOn then (some current, s.optionPlace, index)
      else
        match words[index - 1]? with
        | some ('-' :: c :: more) =>
          if c = '-' ∧ more.isEmpty then (none, 0, index + 1)
          else (some ('-' :: c :: more), 1, index + 1)
        | _ => (none, 0, index)
    match word with
    | none => finish index 0 ['?'] 1
    | some word =>
      let letter := (word[place]?).getD '?'
      let next := if place + 1 < word.length then place + 1 else 0
      match (wantedOptions wanted).lookup letter with
      | none =>
        write 2 s!"Illegal option -{letter}\n".toList
        putSetting "OPTARG" none
        finish index next ['?'] 0
      | some false =>
        assign "OPTARG" []
        finish index next [letter] 0
      | some true =>
        let (value, index) : Option Octets × Nat :=
          if next ≠ 0 then (some (word.drop next), index)
          else
            match words[index - 1]? with
            | some value => (some value, index + 1)
            | none => (none, index)
        match value with
        | some value =>
          assign "OPTARG" value
          finish index 0 [letter] 0
        | none =>
          write 2 s!"No arg for -{letter} option\n".toList
          putSetting "OPTARG" none
          finish index 0 ['?'] 0
  | _ => misused "Usage: getopts optstring var [arg]"

def builtinAlias (args : List Octets) : Act Nat := do
  let statuses ← args.mapM fun w => do
    match Text.cutFirst? ['='] w with
    | some (name, meaning) =>
      change fun s => { s with aliases := s.aliases.filter (·.1 ≠ name) ++ [(name, meaning)] }
      pure 0
    | none =>
      match (← shell).aliases.lookup w with
      | some meaning =>
        say (w ++ '=' :: singleQuote meaning ++ ['\n'])
        pure 0
      | none =>
        write 2 ("alias: " ++ w ++ " not found\n")
        pure 1
  return statuses.foldl max 0

def permissionLetters (digit : Nat) : Octets :=
  (if digit / 4 % 2 = 0 then ['r'] else []) ++ (if digit / 2 % 2 = 0 then ['w'] else []) ++
    (if digit % 2 = 0 then ['x'] else [])

def builtinUmask (args : List Octets) : Act Nat := do
  let mask := (← shell).mask
  match args with
  | [] =>
    say (Permissions.fourDigits mask ++ ['\n'])
    return 0
  | ['-', 'S'] :: _ =>
    say ("u=" ++ permissionLetters (mask / 64) ++ ",g=" ++
      permissionLetters (mask / 8 % 8) ++ ",o=" ++ permissionLetters (mask % 8) ++ ['\n'])
    return 0
  | w :: _ =>
    if w.head?.any Char.isDigit then
      if w.all Permissions.isOctal then
        change fun s => { s with mask := Permissions.octal w % 512 }
        return 0
      else misused ("Illegal number: " ++ String.ofList w)
    else
      match Permissions.change? 0 false (511 - mask) w with
      | some allowed =>
        change fun s => { s with mask := 511 - allowed % 512 }
        return 0
      | none => misused ("Illegal mode: " ++ String.ofList w)

def builtin? (name : String) : Option (List Octets → Act Nat) :=
  match name with
  | ":" | "true" => some fun _ => return 0
  | "false" => some fun _ => return 1
  | "echo" => some builtinEcho
  | "printf" => some builtinPrintf
  | "test" => some check
  | "[" => some builtinBracket
  | "cd" | "chdir" => some builtinCd
  | "pwd" => some builtinPwd
  | "read" => some builtinRead
  | "set" => some builtinSet
  | "shift" => some builtinShift
  | "export" => some (builtinMark fun s => { s with exported := true })
  | "readonly" => some (builtinMark fun s => { s with readOnly := true })
  | "local" => some builtinLocal
  | "unset" => some builtinUnset
  | "trap" => some builtinTrap
  | "getopts" => some builtinGetopts
  | "umask" => some builtinUmask
  | "alias" => some builtinAlias
  | "jobs" | "times" => some fun _ => return 0
  | _ => none

end Mutagenesis.Shell
