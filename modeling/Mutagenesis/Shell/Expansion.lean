import Mutagenesis.Shell.Arithmetic
import Mutagenesis.Shell.Machine
import Mutagenesis.Shell.Wildcard

/-!
# What words stand for

A word is turned into characters that still know whether they were quoted and whether they may be
split.
-/

namespace Mutagenesis.Shell

open Act

/-- A character that a word stands for, or what else can be in its place. -/
inductive Glyph where
  | char (c : Char) (quoted split : Bool)
  | nothing
  | fieldEnd
  | softEnd
  deriving DecidableEq

namespace Glyph

def ofOctets (quoted split : Bool) (cs : Octets) : List Glyph :=
  (if quoted then [nothing] else []) ++ cs.map fun c => char c quoted split

def ofValue (quoted : Bool) (cs : Octets) : List Glyph :=
  ofOctets quoted (!quoted) cs

def item? : Glyph → Option (Char × Bool)
  | char c quoted _ => some (c, quoted)
  | fieldEnd | softEnd => some (' ', false)
  | nothing => none

def text (gs : List Glyph) : Octets :=
  gs.filterMap fun g => g.item?.map Prod.fst

def pattern (gs : List Glyph) : Pattern :=
  gs.filterMap item?

end Glyph

def isBlankSeparator (separators : Octets) (g : Glyph) : Bool :=
  match g with
  | .char c _ split => split && separators.contains c && (c = ' ' || c = '\t' || c = '\n')
  | _ => false

def isSeparator (separators : Octets) (g : Glyph) : Bool :=
  match g with
  | .char c _ split => split && separators.contains c
  | _ => false

def afterSeparator (separators : Octets) (blank : Bool) (rest : List Glyph) : List Glyph :=
  let rest := rest.dropWhile (isBlankSeparator separators)
  match rest with
  | g :: more =>
    if blank ∧ isSeparator separators g then more.dropWhile (isBlankSeparator separators) else rest
  | [] => []

def splitFields (separators : Octets) :
    (steps : Nat) → (field : List Glyph) → List Glyph → List (List Glyph)
  | 0, field, _ => [field]
  | _ + 1, field, [] => if field.isEmpty then [] else [field]
  | steps + 1, field, g :: rest =>
    match g with
    | .fieldEnd => field :: splitFields separators steps [] rest
    | .softEnd =>
      if field.isEmpty then splitFields separators steps [] rest
      else field :: splitFields separators steps [] rest
    | _ =>
      if isSeparator separators g then
        let blank := isBlankSeparator separators g
        if blank ∧ field.isEmpty then splitFields separators steps [] rest
        else field :: splitFields separators steps [] (afterSeparator separators blank rest)
      else splitFields separators steps (field ++ [g]) rest

def separators : Act Octets := do
  match ← setting? "IFS" with
  | some setting => return setting.value.getD [' ', '\t', '\n']
  | none => return [' ', '\t', '\n']

def optionLetters : List Char :=
  ['u', 'b', 'a', 'C', 'E', 'V', 'v', 'x', 's', 'n', 'm', 'i', 'I', 'f', 'e']

def joinedArguments : Act Octets := do
  let between := (← separators).take 1
  return between.intercalate (← shell).arguments

def parameter? (name : Octets) : Act (Option Octets) := do
  let s ← shell
  match name with
  | ['?'] => return some (Octets.ofNat s.status)
  | ['#'] => return some (Octets.ofNat s.arguments.length)
  | ['$'] => return some (Octets.ofNat s.process)
  | ['!'] => return s.lastJob.map Octets.ofNat
  | ['-'] => return some (optionLetters.filter s.options.contains)
  | ['0'] => return some s.name
  | ['*'] => return some (← joinedArguments)
  | ['@'] => return some ([' '].intercalate s.arguments)
  | _ =>
    match Octets.nat? name with
    | some 0 => return some s.name
    | some n => return s.arguments[n - 1]?
    | none => return (← setting? name).bind Setting.value

def parameterValue (name : Octets) : Act Octets := do
  match ← parameter? name with
  | some value => return value
  | none =>
    if ← hasOption 'u' then die (name ++ ": parameter not set") else return []

def calculated (expression : Octets) : Act Int := do
  let s ← shell
  let lookup (name : Octets) : Octets := ((s.settings.lookup name).bind Setting.value).getD []
  match Arithmetic.evaluate lookup expression with
  | .ok (value, assigned) =>
    assigned.forM fun (name, n) => assign name (Octets.ofInt n)
    return value
  | .error fault => die (fault.message expression)

def listGlyphs (values : List Octets) (star quoted fields : Bool) : Act (List Glyph) := do
  if !fields ∨ (quoted ∧ star) then
    let between ← if star ∨ !quoted then do pure ((← separators).take 1) else pure [' ']
    return Glyph.ofOctets quoted false (between.intercalate values)
  else
    let ending := if quoted then Glyph.fieldEnd else .softEnd
    return [ending].intercalate (values.map (Glyph.ofValue quoted))

def withoutFinalNewlines (cs : Octets) : Octets :=
  (cs.reverse.dropWhile (· == '\n')).reverse

def homeOf (home : Option Octets) (user : Octets) : Option Octets :=
  if user.isEmpty then home else if user = "root" then some "/root" else none

def tildeGlyphs (home : Option Octets) (last : Bool) (cs : Octets) : List Glyph :=
  let user := (cs.drop 1).takeWhile (· != '/')
  let rest := cs.drop (user.length + 1)
  match if cs.head? = some '~' then homeOf home user else none with
  | some path =>
    if rest.isEmpty ∧ !last then Glyph.ofOctets false false cs
    else Glyph.ofOctets true false path ++ Glyph.ofOctets false false rest
  | none => Glyph.ofOctets false false cs

/-- Where a tilde stands for the home folder. -/
inductive Tilde where
  | nowhere
  | atStart
  | inValue
  deriving DecidableEq

def plainGlyphs (tilde : Tilde) (first last : Bool) (cs : Octets) : Act (List Glyph) := do
  let home := (← setting? "HOME").bind Setting.value
  match tilde with
  | .nowhere => return Glyph.ofOctets false false cs
  | .atStart =>
    if first then return tildeGlyphs home last cs else return Glyph.ofOctets false false cs
  | .inValue =>
    let parts := Text.pieces ':' cs
    let count := parts.length
    let shown := parts.mapIdx fun i part =>
      if i = 0 ∧ !first then Glyph.ofOctets false false part
      else tildeGlyphs home (last || i + 1 < count) part
    return [Glyph.char ':' false false].intercalate shown

/-- The output of a command. -/
abbrev Substitute := Command → Act Octets

mutual

def wordGlyphs (substitute : Substitute) (tilde : Tilde) (fields split : Bool) :
    (steps : Nat) → Word → Act (List Glyph)
  | 0, _ => return []
  | steps + 1, w => do
    let count := w.length
    let parts ← w.zipIdx.mapM fun (piece, i) =>
      match piece with
      | .text cs false =>
        if split then pure (Glyph.ofOctets false true cs)
        else plainGlyphs tilde (i == 0) (i + 1 == count) cs
      | piece => pieceGlyphs substitute fields steps piece
    return parts.flatten

def pieceGlyphs (substitute : Substitute) (fields : Bool) :
    (steps : Nat) → Piece → Act (List Glyph)
  | 0, _ => return []
  | steps + 1, piece => do
    let textOf (w : Word) : Act Octets := do
      return Glyph.text (← wordGlyphs substitute .nowhere false false steps w)
    match piece with
    | .text cs quoted => return Glyph.ofOctets quoted false cs
    | .output body quoted =>
      let cs ← substitute body
      return Glyph.ofValue quoted (withoutFinalNewlines cs)
    | .number expression quoted =>
      let cs ← textOf expression
      return Glyph.ofValue quoted (Octets.ofInt (← calculated cs))
    | .parameter name use quoted => useGlyphs substitute fields name quoted steps use
    | .item name index use quoted =>
      let list := ((← setting? name).getD {}).list
      let key ← textOf index
      let all := key = ['@'] ∨ key = ['*']
      let item ← if all then pure none
        else do
          let n ← calculated key
          pure list[(if n < 0 then n + list.length else n).toNat]?
      match use with
      | .value =>
        if all then listGlyphs list (key = ['*']) quoted fields
        else return Glyph.ofValue quoted (item.getD [])
      | .length =>
        let length := if all then list.length else (item.getD []).length
        return Glyph.ofValue quoted (Octets.ofNat length)
      | _ => die "Bad substitution"
    | .list _ => return []

def useGlyphs (substitute : Substitute) (fields : Bool) (name : Octets) (quoted : Bool) :
    (steps : Nat) → Use → Act (List Glyph)
  | 0, _ => return []
  | steps + 1, use => do
    let value ← parameter? name
    let all := name = ['@'] ∨ name = ['*']
    let value := if all ∧ (← shell).arguments.isEmpty then none else value
    let isSet (empty : Bool) : Bool := value.any fun v => !(empty && v.isEmpty)
    let own : Act (List Glyph) := do
      if all then listGlyphs (← shell).arguments (name = ['*']) quoted fields
      else return Glyph.ofValue quoted (← parameterValue name)
    let other (w : Word) : Act (List Glyph) := do
      let tilde : Tilde := if quoted then .nowhere else .atStart
      let inside ← wordGlyphs substitute tilde fields (!quoted) steps w
      return if quoted then .nothing :: inside else inside
    let otherText (w : Word) : Act Octets := do
      return Glyph.text (← wordGlyphs substitute .atStart false false steps w)
    let trimmed (trim : Pattern → Octets → Octets) (w : Word) : Act (List Glyph) := do
      let value ← if all then joinedArguments else parameterValue name
      let pattern := Glyph.pattern (← wordGlyphs substitute .atStart false false steps w)
      return Glyph.ofValue quoted (trim pattern value)
    match use with
    | .value => own
    | .length =>
      let value ← if all then joinedArguments else parameterValue name
      return Glyph.ofValue quoted (Octets.ofNat value.length)
    | .orElse empty w => if isSet empty then own else other w
    | .ifSet empty w =>
      if isSet empty then other w
      else return if quoted then [.nothing] else []
    | .orAssign empty w =>
      if isSet empty then own
      else if !isName name then die (name ++ ": bad variable name")
      else
        let text ← otherText w
        assign name text
        return Glyph.ofValue quoted text
    | .orFail empty w =>
      if isSet empty then own
      else
        let text ← otherText w
        let reason := if !w.isEmpty then text
          else "parameter not set".toList ++ if empty then " or null".toList else []
        die (name ++ ": " ++ reason)
    | .trimStart longest w => trimmed (Pattern.trimStart · longest) w
    | .trimEnd longest w => trimmed (Pattern.trimEnd · longest) w
    | .bad => die "Bad substitution"

end

def wordDepth : Nat := 1000

def expandText (substitute : Substitute) (tilde : Tilde) (w : Word) : Act Octets := do
  return Glyph.text (← wordGlyphs substitute tilde false false wordDepth w)

def expandPattern (substitute : Substitute) (w : Word) : Act Pattern := do
  return Glyph.pattern (← wordGlyphs substitute .atStart false false wordDepth w)

def matchingPaths (p : Pattern) : Act (List Octets) := do
  if (← hasOption 'f') || !Wildcard.isSpecial p then return [p.map Prod.fst]
  let found := Wildcard.paths (← get).disk p
  return if found.isEmpty then [p.map Prod.fst] else found

def expandFields (substitute : Substitute) (w : Word) : Act (List Octets) := do
  let glyphs ← wordGlyphs substitute .atStart true false wordDepth w
  let fields := splitFields (← separators) (glyphs.length + 1) [] glyphs
  return (← fields.mapM fun field => matchingPaths (Glyph.pattern field)).flatten

end Mutagenesis.Shell
