import Mutagenesis.Shell.Program.Lines
import Mutagenesis.Shell.Quantity
import Mutagenesis.Shell.Version

/-!
# Programs for sorted lines

Programs that sort lines, or compare lines that are sorted.
-/

namespace Mutagenesis.Shell

open Work

/-- What parts of lines are compared as. -/
inductive SortKind where
  | text
  | number
  | general
  | human
  | month
  | version
  deriving DecidableEq

/-- How parts of lines are compared. -/
structure SortOrder where
  kind : SortKind := .text
  reverse : Bool := false
  foldCase : Bool := false
  skipBlanks : Bool := false
  deriving DecidableEq

def SortOrder.withLetter (o : SortOrder) (letter : Char) : SortOrder :=
  match letter with
  | 'n' => { o with kind := .number }
  | 'g' => { o with kind := .general }
  | 'h' => { o with kind := .human }
  | 'M' => { o with kind := .month }
  | 'V' => { o with kind := .version }
  | 'r' => { o with reverse := true }
  | 'f' => { o with foldCase := true }
  | 'b' => { o with skipBlanks := true }
  | _ => o

def isFieldBlank (c : Char) : Bool :=
  c = ' ' || c = '\t' || c = '\n'

/-- A part of lines that they are compared by: from a character of a field to one of another. -/
structure SortKey where
  startField : Nat
  startChar : Nat
  startBlanks : Bool
  stopField : Option Nat
  stopChar : Nat
  stopBlanks : Bool
  order : SortOrder

def fieldsLength (separator : Option Char) : (count : Nat) → Octets → Nat
  | 0, _ => 0
  | count + 1, cs =>
    match separator with
    | some d =>
      let field := cs.takeWhile (· != d)
      let length := min (field.length + 1) cs.length
      length + fieldsLength separator count (cs.drop length)
    | none =>
      let blanks := cs.takeWhile isFieldBlank
      let field := (cs.drop blanks.length).takeWhile (!isFieldBlank ·)
      let length := blanks.length + field.length
      length + fieldsLength separator count (cs.drop length)

def SortKey.part (k : SortKey) (separator : Option Char) (l : Octets) : Octets :=
  let start := fieldsLength separator (k.startField - 1) l
  let start := if k.startBlanks then start + ((l.drop start).takeWhile isFieldBlank).length
    else start
  let start := start + (k.startChar - 1)
  let stop := match k.stopField with
    | none => l.length
    | some n =>
      if k.stopChar = 0 then
        let length := fieldsLength separator n l
        match separator with
        | some d => if (l.take length).getLast? = some d ∧ n ≤ (l.take length).count d
            then length - 1 else length
        | none => length
      else
        let before := fieldsLength separator (n - 1) l
        let before := if k.stopBlanks then before + ((l.drop before).takeWhile isFieldBlank).length
          else before
        before + k.stopChar
  (l.take stop).drop start

def leadingNumber (cs : Octets) : Bool × Octets × Octets :=
  let cs := cs.dropWhile isFieldBlank
  let (negative, cs) := match cs with
    | '-' :: rest => (true, rest)
    | _ => (false, cs)
  let whole := cs.takeWhile Char.isDigit
  let places := match cs.drop whole.length with
    | '.' :: rest => rest.takeWhile Char.isDigit
    | _ => []
  (negative, whole, places)

def compareNumbers (a b : Octets) : Ordering :=
  let (aSign, aWhole, aPlaces) := leadingNumber a
  let (bSign, bWhole, bPlaces) := leadingNumber b
  let length := max aPlaces.length bPlaces.length
  let value (negative : Bool) (whole places : Octets) : Int :=
    let digits := whole ++ places ++ List.replicate (length - places.length) '0'
    let n : Int := ((Octets.nat? digits).getD 0 : Nat)
    if negative then -n else n
  compare (value aSign aWhole aPlaces) (value bSign bWhole bPlaces)

def compareOctets : Octets → Octets → Ordering
  | [], [] => .eq
  | [], _ :: _ => .lt
  | _ :: _, [] => .gt
  | a :: as, b :: bs => (compare a.toNat b.toNat).then (compareOctets as bs)

def sizeRank (cs : Octets) : Nat :=
  match cs.head? with
  | some c =>
    (['K', 'M', 'G', 'T', 'P', 'E', 'Z', 'Y', 'R', 'Q'].idxOf? (if c = 'k' then 'K' else c)).elim
      0 (· + 1)
  | none => 0

def compareSizes (a b : Octets) : Ordering :=
  let size (cs : Octets) : Int :=
    let (negative, whole, places) := leadingNumber cs
    let length := whole.length + (if places.isEmpty then 0 else places.length + 1)
    let body := cs.dropWhile isFieldBlank
    let rest := body.drop (length + if negative then 1 else 0)
    let isZero := (whole ++ places).all (· == '0')
    let rank : Int := if isZero then 0 else sizeRank rest + 1
    if negative then -rank else rank
  (compare (size a) (size b)).then (compareNumbers a b)

def monthRank (cs : Octets) : Nat :=
  let name := String.ofList (((cs.dropWhile isFieldBlank).take 3).map Char.toUpper)
  (["JAN", "FEB", "MAR", "APR", "MAY", "JUN", "JUL", "AUG", "SEP", "OCT", "NOV", "DEC"].idxOf?
    name).elim 0 (· + 1)

def compareGeneral (a b : Octets) : Ordering :=
  match Quantity.read? a, Quantity.read? b with
  | some x, some y =>
    if x.value.toFloat < y.value.toFloat then .lt
    else if y.value.toFloat < x.value.toFloat then .gt
    else .eq
  | x, y => compare x.isSome y.isSome

def SortOrder.compare (o : SortOrder) (a b : Octets) : Ordering :=
  let seen (cs : Octets) : Octets :=
    let cs := if o.skipBlanks then cs.dropWhile isFieldBlank else cs
    if o.foldCase then cs.map Char.toUpper else cs
  let plain := match o.kind with
    | .number => compareNumbers a b
    | .general => compareGeneral a b
    | .human => compareSizes a b
    | .month => Ord.compare (monthRank a) (monthRank b)
    | .version => Version.compareNames (seen a) (seen b)
    | .text => compareOctets (seen a) (seen b)
  if o.reverse then plain.swap else plain

/-- A way to sort lines. -/
structure Sorter where
  separator : Option Char := none
  keys : List SortKey := []
  order : SortOrder := {}
  stable : Bool := false
  unique : Bool := false

def Sorter.compareKeys (s : Sorter) (a b : Octets) : Ordering :=
  if s.keys.isEmpty then s.order.compare a b
  else s.keys.foldl (fun o k =>
    o.then (k.order.compare (k.part s.separator a) (k.part s.separator b))) .eq

def Sorter.compare (s : Sorter) (a b : Octets) : Ordering :=
  let byKeys := s.compareKeys a b
  if s.stable ∨ s.unique then byKeys
  else byKeys.then (if s.order.reverse then (compareOctets a b).swap else compareOctets a b)

def Sorter.dropRepeated (s : Sorter) : List Octets → List Octets
  | a :: b :: rest =>
    if s.compareKeys a b = .eq then Sorter.dropRepeated s (a :: rest)
    else a :: Sorter.dropRepeated s (b :: rest)
  | ls => ls
termination_by ls => ls.length

def Sorter.sort (s : Sorter) (ls : List Octets) : List Octets :=
  let sorted := ls.mergeSort fun a b => s.compare a b != .gt
  if s.unique then s.dropRepeated sorted else sorted

def sortPosition? (w : Octets) : Option (Nat × Nat × Octets) :=
  let field := w.takeWhile Char.isDigit
  match Octets.nat? field, w.drop field.length with
  | some f, '.' :: rest =>
    let chars := rest.takeWhile Char.isDigit
    (Octets.nat? chars).map fun c => (f, c, rest.drop chars.length)
  | some f, rest => some (f, 0, rest)
  | none, _ => none

def sortKey? (general : SortOrder) (w : Octets) : Option SortKey :=
  let (first, second) := match Text.cutFirst? [','] w with
    | some (a, b) => (a, some b)
    | none => (w, none)
  match sortPosition? first, second.map sortPosition? with
  | some (f, c, letters), stop? =>
    if f = 0 ∨ stop? = some none then none
    else
      let (g, d, moreLetters) := (stop?.getD none).getD (0, 0, [])
      let all := letters ++ moreLetters
      let own := all.foldl SortOrder.withLetter {}
      let order := if all.isEmpty then general else own
      some
        { startField := f, startChar := c
          startBlanks := if all.isEmpty then general.skipBlanks else letters.contains 'b'
          stopField := if second.isSome then some g else none, stopChar := d
          stopBlanks := if all.isEmpty then general.skipBlanks else moreLetters.contains 'b'
          order := { order with skipBlanks := false } }
  | none, _ => none

def Sorter.disorder? (s : Sorter) (number : Nat) : List Octets → Option (Nat × Octets)
  | a :: b :: rest =>
    let o := s.compare a b
    if o = .gt ∨ (s.unique ∧ o = .eq) then some (number + 1, b)
    else s.disorder? (number + 1) (b :: rest)
  | _ => none

def sort : Program := fun call => do
  let (options, operands) ← OptionTable.read
    { flags := ['n', 'r', 'u', 'f', 'b', 'g', 'h', 'M', 'V', 'c', 's']
      valued := ['k', 't', 'o'] } call 2
  let order := options.foldl (fun o (c, _) => o.withLetter (c.headD ' ')) ({} : SortOrder)
  let separator ← match options.value? 't' with
    | some [c] => pure (some c)
    | some w => call.fail 2 ("multi-character tab " ++ quotedName w)
    | none => pure none
  let keys ← (options.values 'k').mapM fun w =>
    match sortKey? order w with
    | some k => pure k
    | none =>
      call.fail 2 ("invalid number at field start: invalid count at start of " ++ quotedName w)
  let sorter : Sorter :=
    { separator := separator, keys := keys, order := order, stable := options.has 's'
      unique := options.has 'u' }
  let contents ← (orInput operands).mapM fun path => do
    match ← inputAt path with
    | .ok content => return Octets.lines content
    | .error fault => call.fail 2 ("cannot read: " ++ plainName path ++ ": " ++ reason fault)
  let ls := contents.flatten
  if options.has 'c' then
    match sorter.disorder? 1 ls with
    | some (n, l) =>
      call.fail 1 ((orInput operands).headD [] ++ ':' :: Octets.ofNat n ++ ": disorder: " ++ l)
    | none => return 0
  let out := Octets.ofLines (sorter.sort ls)
  match options.value? 'o' with
  | none => put out
  | some path =>
    match ← writeFile path out with
    | .ok _ => pure ()
    | .error fault =>
      call.fail 2 ("open failed: " ++ plainName path ++ ": " ++ reason fault)
  return 0

def runsOf (same : Octets → Octets → Bool) : List Octets → List (List Octets)
  | [] => []
  | l :: rest =>
    match runsOf same rest with
    | (m :: ms) :: more => if same l m then (l :: m :: ms) :: more else [l] :: (m :: ms) :: more
    | _ => [[l]]

def uniq : Program := fun call => do
  let (options, operands) ← OptionTable.read { flags := ['c', 'd', 'u', 'i', 'D'] } call 1
  let compared (l : Octets) : Octets := if options.has 'i' then l.map Char.toLower else l
  match ← inputAt (operands.headD ['-']) with
  | .error fault => call.fail 1 (plainName (operands.headD []) ++ ": " ++ reason fault)
  | .ok content =>
    let runs := runsOf (fun a b => compared a == compared b) (Octets.lines content)
    let kept := runs.filter fun run =>
      !((options.has 'd' || options.has 'D') && run.length = 1) &&
        !(options.has 'u' && run.length ≠ 1)
    put (Octets.ofLines (if options.has 'D' then kept.flatten
      else kept.map fun (run : List Octets) =>
        if options.has 'c' then lineNumber 7 run.length ++ ' ' :: run.headD [] else run.headD []))
    return 0

/-- The lines of two sorted files in one order, each with the column it is shown in. -/
def mergedLines : (steps : Nat) → List Octets → List Octets → List (Nat × Octets)
  | steps + 1, a :: as, b :: bs =>
    match compareOctets a b with
    | .eq => (3, a) :: mergedLines steps as bs
    | .lt => (1, a) :: mergedLines steps as (b :: bs)
    | .gt => (2, b) :: mergedLines steps (a :: as) bs
  | _, as, bs => as.map (1, ·) ++ bs.map (2, ·)

def comm : Program := fun call => do
  let (options, operands) ← OptionTable.read { flags := ['1', '2', '3'] } call 1
  match operands with
  | [a, b] =>
    let content (path : Octets) : Work (List Octets) := do
      match ← inputAt path with
      | .ok content => return Octets.lines content
      | .error fault => call.fail 1 (plainName path ++ ": " ++ reason fault)
    let first ← content a
    let second ← content b
    (mergedLines (first.length + second.length) first second).forM fun (n, l) => do
      let indent := (if n ≠ 1 ∧ !options.has '1' then ['\t'] else []) ++
        (if n = 3 ∧ !options.has '2' then ['\t'] else [])
      if !options.has (Char.ofNat ('0'.toNat + n)) then putLine (indent ++ l)
    return 0
  | _ => call.failUsage 1 "missing operand"

end Mutagenesis.Shell
