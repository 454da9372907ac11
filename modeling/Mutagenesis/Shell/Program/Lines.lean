import Mutagenesis.Shell.Pattern
import Mutagenesis.Shell.Printing
import Mutagenesis.Shell.Program

/-!
# Programs for lines

Programs that show, count or cut the lines of files, or of their input if no file is named.
-/

namespace Mutagenesis.Shell

open Work

def orInput (operands : List Octets) : List Octets :=
  if operands.isEmpty then [['-']] else operands

def forInputs (call : Call) (operands : List Octets) (act : Octets → Octets → Work Unit) :
    Work Nat := do
  let outcomes ← (orInput operands).mapM fun path => do
    match ← inputAt path with
    | .ok content =>
      act path content
      return true
    | .error fault =>
      call.complain (plainName path ++ ": " ++ reason fault)
      return false
  return if outcomes.all id then 0 else 1

def lineNumber (width n : Nat) : Octets :=
  let digits := Octets.ofNat n
  List.replicate (width - digits.length) ' ' ++ digits

def linesWithEnds (ending : Char) (cs : Octets) : List Octets :=
  let ls := Octets.linesBy ending cs
  if cs.getLast? = some ending then ls.map (· ++ [ending])
  else ls.dropLast.map (· ++ [ending]) ++ ls.getLast?.toList

def cat : Program := fun call => do
  let (options, operands) ← OptionTable.read { flags := ['n', 'u'] } call 1
  let (status, _) ← (orInput operands).foldlM (fun ((status, number) : Nat × Nat) path => do
    match ← inputAt path with
    | .ok content =>
      let t ← get
      let place := (t.disk.resolve true (Octets.toText path)).toOption
      if path ≠ ['-'] ∧ t.outputPlace.isSome ∧ place = t.outputPlace ∧ !content.isEmpty then
        call.complain (plainName path ++ ": input file is output file")
        return (1, number)
      let ls := linesWithEnds '\n' content
      put (if options.has 'n' then
          ls.zipIdx.flatMap fun (l, i) => lineNumber 6 (number + i) ++ '\t' :: l
        else content)
      return (status, number + ls.length)
    | .error fault =>
      call.complain (plainName path ++ ": " ++ reason fault)
      return (1, number)) (0, 1)
  return status

def tee : Program := fun call => do
  let (options, operands) ← OptionTable.read { flags := ['a'] } call 1
  let input ← takeInput
  put input
  let outcomes ← operands.mapM fun path => do
    let before ← match options.has 'a', ← contentAt path with
      | true, .ok content => pure content
      | _, _ => pure []
    match ← writeFile path (before ++ input) with
    | .ok _ => return true
    | .error fault => call.refuse (plainName path ++ ": " ++ reason fault)
  return if outcomes.all id then 0 else 1

def showParts (call : Call) (options : Options) (operands : List Octets)
    (part : Octets → Octets) : Work Nat := do
  let paths := orInput operands
  let headed := !options.has 'q' && 1 < paths.length
  let outcomes ← paths.zipIdx.mapM fun (path, i) => do
    match ← inputAt path with
    | .ok content =>
      let shown := if path = ['-'] then "standard input".toList else path
      if headed then put ((if i = 0 then [] else ['\n']) ++ "==> " ++ shown ++ " <==\n")
      put (part content)
      return true
    | .error .isFolder =>
      call.refuse ("error reading " ++ quotedName path ++ ": " ++ reason .isFolder)
    | .error fault =>
      call.refuse ("cannot open " ++ quotedName path ++ " for reading: " ++ reason fault)
  return if outcomes.all id then 0 else 1

def oldCount (args : List Octets) : List Octets :=
  match args with
  | ('-' :: d :: digits) :: rest =>
    if d.isDigit ∧ digits.all Char.isDigit then ['-', 'n'] :: (d :: digits) :: rest else args
  | _ => args

def partOptions : OptionTable :=
  { flags := ['q'], valued := ['n', 'c'], long := [("lines", 'n'), ("bytes", 'c')] }

/-- What part of a file is asked for: whether it is counted in bytes, a sign, and how much it is. -/
structure PartCount where
  bytes : Bool
  sign : Option Char
  amount : Nat

def readPart (call : Call) (options : Options) : Work PartCount := do
  let (bytes, given) := match options.value? 'c', options.value? 'n' with
    | some w, _ => (true, w)
    | none, some w => (false, w)
    | none, none => (false, "10")
  let sign := given.head?.filter (· ∈ ['-', '+'])
  let digits := if sign.isSome then given.drop 1 else given
  match Octets.nat? digits with
  | some n => return ⟨bytes, sign, n⟩
  | none =>
    let unit := if bytes then "bytes" else "lines"
    call.fail 1 (s!"invalid number of {unit}: ".toList ++ quotedName digits)

def head : Program := fun call => do
  let (options, operands) ← partOptions.read { call with args := oldCount call.args } 1
  let p ← readPart call options
  let before := (← get).input
  let kept (length : Nat) : Nat := if p.sign = some '-' then length - p.amount else p.amount
  let part (content : Octets) : Octets :=
    if p.bytes then content.take (kept content.length)
    else
      let ls := linesWithEnds '\n' content
      (ls.take (kept ls.length)).flatten
  let status ← showParts call options operands part
  let t ← get
  if t.inputIsFile ∧ t.input.isEmpty ∧ (orInput operands).contains ['-'] then
    set { t with input := before.drop (part before).length }
  return status

def tail : Program := fun call => do
  let (options, operands) ← partOptions.read { call with args := oldCount call.args } 1
  let p ← readPart call options
  let passed (length : Nat) : Nat :=
    if p.sign = some '+' then p.amount - 1 else length - p.amount
  showParts call options operands fun content =>
    if p.bytes then content.drop (passed content.length)
    else
      let ls := linesWithEnds '\n' content
      (ls.drop (passed ls.length)).flatten

def wordCount (inside : Bool) : Octets → Nat
  | [] => 0
  | c :: cs =>
    if isInClass "space" c then wordCount false cs
    else if isInClass "print" c then (if inside then 0 else 1) + wordCount true cs
    else wordCount inside cs

/-- The numbers of lines, of words and of bytes. -/
def countsOf (cs : Octets) : List Nat :=
  [cs.count '\n', wordCount false cs, cs.length]

def wc : Program := fun call => do
  let (options, operands) ← OptionTable.read { flags := ['l', 'w', 'c'] } call 1
  let isWanted := ['l', 'w', 'c'].map fun c => options.isEmpty || options.has c
  let paths := orInput operands
  let t ← get
  let sizes := paths.map fun path =>
    if path = ['-'] then (if t.inputIsFile then some t.input.length else none, true)
    else
      match t.disk.entry true (Octets.toText path) with
      | .ok (.file content) => (some content.toBytes.length, true)
      | .ok _ => (none, true)
      | .error _ => (some 0, false)
  let total := (sizes.filterMap Prod.fst).foldl (· + ·) 0
  let least := if sizes.any (·.1.isNone) then 7 else 1
  let width := if sizes.length = 1 ∧ isWanted.count true = 1 then 1
    else if sizes.head?.any (!·.2) then 1
    else max least (Octets.ofNat total).length
  let report (counts : List Nat) (name : Octets) : Work Unit := do
    let shown := ((counts.zip isWanted).filter Prod.snd).map fun (n, _) => lineNumber width n
    putLine ([' '].intercalate shown ++ (if name.isEmpty then [] else ' ' :: name))
  let (status, sum) ← paths.foldlM (fun (status, sum) path => do
    let name := if operands.isEmpty then [] else path
    match ← inputAt path with
    | .ok content =>
      report (countsOf content) name
      return (status, List.zipWith (· + ·) sum (countsOf content))
    | .error fault =>
      call.complain (plainName path ++ ": " ++ reason fault)
      if fault = .isFolder then report [0, 0, 0] name
      return (1, sum)) (0, [0, 0, 0])
  if 1 < operands.length then report sum "total"
  return status

def rev : Program := fun call =>
  forInputs call call.args fun _ content =>
    put ((linesWithEnds '\n' content).flatMap fun l =>
      if l.getLast? = some '\n' then l.dropLast.reverse ++ ['\n'] else l.reverse)

def joinCycling (all : Octets) : Octets → List Octets → Octets
  | _, [] => []
  | _, [last] => last
  | [], text :: rest => text ++ all.take 1 ++ joinCycling all (all.drop 1) rest
  | d :: ds, text :: rest => text ++ d :: joinCycling all ds rest

def rows : (steps : Nat) → List (List Octets) → List (List Octets)
  | 0, _ => []
  | steps + 1, columns =>
    if columns.all List.isEmpty then []
    else columns.map (·.headD []) :: rows steps (columns.map List.tail)

def paste : Program := fun call => do
  let (options, operands) ← OptionTable.read { flags := ['s'], valued := ['d'] } call 1
  let ds := (options.value? 'd').getD ['\t']
  let columns ← (orInput operands).mapM fun path => do
    match ← inputAt path with
    | .ok content => return Octets.lines content
    | .error fault => call.fail 1 (plainName path ++ ": " ++ reason fault)
  let length := (columns.map List.length).foldl max 0
  (if options.has 's' then columns else rows length columns).forM fun row =>
    putLine (joinCycling ds ds row)
  return 0

def positionRange? (w : Octets) : Option (Option Nat × Option Nat) :=
  match Text.cutFirst? ['-'] w with
  | some (low, high) =>
    let part (cs : Octets) : Option (Option Nat) :=
      if cs.isEmpty then some none else (Octets.nat? cs).map some
    match part low, part high with
    | some none, some none => none
    | some l, some h => some (l, h)
    | _, _ => none
  | none => (Octets.nat? w).map fun n => (some n, some n)

def joinedRanges (ranges : List (Nat × Option Nat)) : List (Nat × Option Nat) :=
  let sorted := ranges.mergeSort fun a b => a.1 ≤ b.1
  (sorted.foldl (fun (done : List (Nat × Option Nat)) r =>
    match done with
    | (low, high) :: rest =>
      if high.all (r.1 ≤ ·) then
        let top := match high, r.2 with
          | some x, some y => some (max x y)
          | _, _ => none
        (low, top) :: rest
      else r :: done
    | [] => [r]) []).reverse

def otherRanges (start : Nat) : List (Nat × Option Nat) → List (Nat × Option Nat)
  | [] => [(start, none)]
  | (low, high) :: rest =>
    let before := if start < low then [(start, some (low - 1))] else []
    match high with
    | some h => before ++ otherRanges (h + 1) rest
    | none => before

def cut : Program := fun call => do
  let (options, operands) ← OptionTable.read
    { flags := ['s', 'C'], valued := ['b', 'c', 'f', 'd', 'o']
      long := [("complement", 'C'), ("output-delimiter", 'o')] } call 1
  let lists := options.filter fun (c, _) => c = ['b'] ∨ c = ['c'] ∨ c = ['f']
  let (fields, list) ← match lists with
    | [] => call.failUsage 1 "you must specify a list of bytes, characters, or fields"
    | [(c, list)] => pure (c == ['f'], list)
    | _ => call.failUsage 1 "only one list may be specified"
  let kind := if fields then "field value" else "byte/character position"
  let ranges ← (Text.pieces ',' list).mapM fun w =>
    match positionRange? w with
    | some (low, high) => pure (low.getD 1, high)
    | none => call.failUsage 1 (s!"invalid {kind} ".toList ++ quotedName w)
  let joined := joinedRanges ranges
  let wanted := if options.has 'C' then otherRanges 1 joined else joined
  let isWanted (n : Nat) : Bool := wanted.any fun (low, high) => low ≤ n && high.all (n ≤ ·)
  let d := ((options.value? 'd').bind List.head?).getD '\t'
  let joint := (options.value? 'o').getD (if fields then [d] else [])
  let cutLine (l : Octets) : Option Octets :=
    if fields then
      if l.contains d then
        let kept := ((Text.pieces d l).zipIdx.filter fun (_, i) => isWanted (i + 1)).map Prod.fst
        some (joint.intercalate kept)
      else if options.has 's' then none else some l
    else
      let parts := wanted.map fun (low, high) =>
        (l.drop (low - 1)).take (high.elim l.length fun h => h + 1 - low)
      some (joint.intercalate (parts.filter (· ≠ [])))
  forInputs call operands fun _ content =>
    put (Octets.ofLines ((Octets.lines content).filterMap cutLine))

/-- A part of a set of characters: a character, a class, or a character that fills up. -/
inductive TrPart where
  | chars (cs : Octets)
  | fill (c : Char)
  | named (name : String)

def trChar : Octets → Option (Char × Octets)
  | [] => none
  | '\\' :: c :: rest =>
    match Escapes.octal 3 (c :: rest), Escapes.letter? c with
    | some (d, rest), _ => some (d, rest)
    | none, some d => some (d, rest)
    | none, none => some (c, rest)
  | c :: rest => some (c, rest)

def charRange (low high : Char) : Octets :=
  (List.range (high.toNat + 1 - low.toNat)).map fun i => Char.ofNat (low.toNat + i)

def allOctets : Octets :=
  (List.range 256).map Char.ofNat

def trParts : (steps : Nat) → Octets → Except Octets (List TrPart)
  | 0, _ => .ok []
  | steps + 1, cs =>
    match cs with
    | [] => .ok []
    | '[' :: ':' :: rest =>
      match Text.cutFirst? ":]" rest with
      | some (name, rest) =>
        if String.ofList name ∈ classNames then do
          return .named (String.ofList name) :: (← trParts steps rest)
        else .error ("invalid character class " ++ quotedName name)
      | none => do return .chars ['['] :: (← trParts steps (':' :: rest))
    | '[' :: c :: '*' :: rest =>
      let digits := rest.takeWhile Char.isDigit
      match rest.drop digits.length with
      | ']' :: rest => do
        let part := match Octets.nat? digits with
          | some (n + 1) => TrPart.chars (List.replicate (n + 1) c)
          | _ => .fill c
        return part :: (← trParts steps rest)
      | _ => do return .chars ['['] :: (← trParts steps (c :: '*' :: rest))
    | _ =>
      match trChar cs with
      | none => .ok []
      | some (low, '-' :: rest) =>
        match trChar rest with
        | none => .ok [.chars [low, '-']]
        | some (high, rest) =>
          if high < low then
            .error ("range-endpoints of '" ++ [low, '-', high] ++
              "' are in reverse collating sequence order")
          else do return .chars (charRange low high) :: (← trParts steps rest)
      | some (c, rest) => do return .chars [c] :: (← trParts steps rest)

def trChars (length : Nat) (parts : List TrPart) : Octets :=
  let plain := parts.flatMap fun
    | .chars cs => cs
    | .fill _ => []
    | .named name => allOctets.filter (isInClass name)
  parts.flatMap fun
    | .chars cs => cs
    | .fill c => List.replicate (length - plain.length) c
    | .named name => allOctets.filter (isInClass name)

def squeezed (among : Octets) : Octets → Octets
  | [] => []
  | c :: cs =>
    if among.contains c ∧ cs.head? = some c then squeezed among cs else c :: squeezed among cs

def tr : Program := fun call => do
  let (options, operands) ← OptionTable.read
    { flags := ['c', 'd', 's'] } call 1
  let complement := options.has 'c'
  let delete := options.has 'd'
  let squeeze := options.has 's'
  let least := if delete = squeeze then 2 else 1
  match operands with
  | [] => call.failUsage 1 "missing operand"
  | first :: rest =>
    if operands.length < least then
      call.failUsage 1 ("missing operand after " ++ quotedName first)
    let parse (w : Octets) : Work (List TrPart) := match trParts (w.length + 1) w with
      | .ok parts => pure parts
      | .error message => call.fail 1 message
    let set := trChars 0 (← parse first)
    let set := if complement then allOctets.filter (!set.contains ·) else set
    let second ← match rest with
      | w :: _ => do pure (some (trChars set.length (← parse w)))
      | [] => pure none
    let translates := !delete && second.isSome
    let input ← takeInput
    let goals := second.getD []
    let last := goals.getLast?.getD ' '
    let translated (c : Char) : Char :=
      match set.reverse.idxOf? c with
      | some i => (goals[set.length - 1 - i]?).getD last
      | none => c
    let out := if delete then input.filter (!set.contains ·)
      else if translates then input.map translated else input
    put (if squeeze then squeezed (if second.isSome then goals else set) out else out)
    return 0

end Mutagenesis.Shell
