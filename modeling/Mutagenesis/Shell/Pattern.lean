import Mutagenesis.Shell.Script

/-!
# Patterns

Patterns of the shell: a star stands for any characters, a question mark for one, and brackets for
one of a set.
-/

namespace Mutagenesis.Shell

def isInClass (name : String) (c : Char) : Bool :=
  let n := c.toNat
  match name with
  | "alpha" => c.isAlpha
  | "digit" => c.isDigit
  | "alnum" => c.isAlphanum
  | "upper" => c.isUpper
  | "lower" => c.isLower
  | "space" => c = ' ' || (9 ≤ n && n ≤ 13)
  | "blank" => c = ' ' || c = '\t'
  | "cntrl" => n < 32 || n = 127
  | "graph" => 33 ≤ n && n ≤ 126
  | "print" => 32 ≤ n && n ≤ 126
  | "punct" => 33 ≤ n && n ≤ 126 && !c.isAlphanum
  | "xdigit" => c.isDigit || ('a' ≤ c && c ≤ 'f') || ('A' ≤ c && c ≤ 'F')
  | _ => false

def classNames : List String :=
  ["alpha", "digit", "alnum", "upper", "lower", "space", "blank", "cntrl", "graph", "print",
   "punct", "xdigit"]

abbrev Pattern := List (Char × Bool)

namespace Pattern

/-- A member of a set of characters. -/
inductive Member where
  | range (low high : Char)
  | named (name : String)
  deriving DecidableEq

def Member.has (c : Char) : Member → Bool
  | range low high => low ≤ c && c ≤ high
  | named name => isInClass name c

/-- A part of a pattern. -/
inductive Part where
  | char (c : Char)
  | one
  | many
  | set (negated : Bool) (members : List Member)

def className? (p : Pattern) : Option (String × Pattern) :=
  match p with
  | (':', false) :: rest =>
    let name := (rest.takeWhile (·.1.isAlpha)).map Prod.fst
    match rest.drop name.length with
    | (':', _) :: (']', _) :: after =>
      if String.ofList name ∈ classNames then some (String.ofList name, after) else none
    | _ => none
  | _ => none

def members? (first : Bool) : (steps : Nat) → Pattern → Option (List Member × Pattern)
  | 0, _ => none
  | _ + 1, [] => none
  | steps + 1, (c, quoted) :: rest =>
    if c = ']' ∧ quoted = false ∧ first = false then some ([], rest)
    else
      match if c = '[' ∧ quoted = false then className? rest else none with
      | some (name, after) =>
        (members? false steps after).map fun (members, rest) => (.named name :: members, rest)
      | none =>
        let (c, rest) := match c, quoted, rest with
          | '\\', false, (d, _) :: after => (d, after)
          | _, _, _ => (c, rest)
        match rest with
        | ('-', false) :: (d, dQuoted) :: after =>
          if d = ']' ∧ dQuoted = false then
            (members? false steps rest).map fun (members, rest) => (.range c c :: members, rest)
          else
            let (d, after) := match d, dQuoted, after with
              | '\\', false, (e, _) :: after => (e, after)
              | _, _, _ => (d, after)
            (members? false steps after).map fun (members, rest) => (.range c d :: members, rest)
        | _ => (members? false steps rest).map fun (members, rest) => (.range c c :: members, rest)

def partsFrom : (steps : Nat) → Pattern → List Part
  | 0, _ => []
  | _ + 1, [] => []
  | steps + 1, (c, quoted) :: rest =>
    if quoted then .char c :: partsFrom steps rest
    else
      match c with
      | '*' => .many :: partsFrom steps rest
      | '?' => .one :: partsFrom steps rest
      | '\\' =>
        match rest with
        | (d, _) :: after => .char d :: partsFrom steps after
        | [] => [.char c]
      | '[' =>
        let (negated, inside) := match rest with
          | ('!', false) :: inside => (true, inside)
          | _ => (false, rest)
        match members? true (inside.length + 1) inside with
        | some (members, after) => .set negated members :: partsFrom steps after
        | none => .char c :: partsFrom steps rest
      | _ => .char c :: partsFrom steps rest

def parts (p : Pattern) : List Part :=
  partsFrom (p.length + 1) p

def suffixes : Octets → List Octets
  | [] => [[]]
  | c :: cs => (c :: cs) :: suffixes cs

def fits : List Part → Octets → Bool
  | [], cs => cs.isEmpty
  | .many :: rest, cs => (suffixes cs).any (fits rest)
  | .char d :: rest, c :: cs => c == d && fits rest cs
  | .one :: rest, _ :: cs => fits rest cs
  | .set negated members :: rest, c :: cs => members.any (·.has c) != negated && fits rest cs
  | _ :: _, _ => false

def isMatch (p : Pattern) (cs : Octets) : Bool :=
  fits (p.parts) cs

def isSpecial (p : Pattern) : Bool :=
  (p.parts).any fun
    | .char _ => false
    | _ => true

def unescaped : Pattern → Octets
  | ('\\', false) :: (c, _) :: rest => c :: unescaped rest
  | (c, _) :: rest => c :: unescaped rest
  | [] => []

def trimStart (p : Pattern) (longest : Bool) (cs : Octets) : Octets :=
  let counts := List.range (cs.length + 1)
  let parts := p.parts
  match (if longest then counts.reverse else counts).find? fun n => fits parts (cs.take n) with
  | some n => cs.drop n
  | none => cs

def trimEnd (p : Pattern) (longest : Bool) (cs : Octets) : Octets :=
  let counts := List.range (cs.length + 1)
  let parts := p.parts
  match (if longest then counts else counts.reverse).find? fun n => fits parts (cs.drop n) with
  | some n => cs.take n
  | none => cs

end Pattern

end Mutagenesis.Shell
