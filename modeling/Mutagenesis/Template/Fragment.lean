import Mutagenesis.Text.Blank

/-!
# Fragments

A hole captures a fragment: a piece of source text with balanced brackets and closed string
literals, without a semicolon or a newline outside of them, and without blanks at its ends.
`lengths` lists the lengths of all fragments that a text starts with, shortest first.
-/

set_option autoImplicit false

namespace Mutagenesis.Fragment

def closer? : Char → Option Char
  | '(' => some ')'
  | '[' => some ']'
  | '{' => some '}'
  | _ => none

def isCloser (c : Char) : Bool :=
  c == ')' || c == ']' || c == '}'

/-- Where a scan stands: outside string literals, or inside one, perhaps just after a
backslash. -/
inductive Place where
  | code
  | quoted (escaped : Bool)
  deriving DecidableEq, Repr

/-- The lengths at which a fragment can end, while `taken` characters are behind, `pending`
closing brackets are awaited (innermost first) and the scan stands at `place`. -/
def lengthsFrom (taken : Nat) (pending : List Char) (place : Place) : List Char → List Nat
  | [] => []
  | c :: cs =>
    match place with
    | .quoted escaped =>
      if c = '\n' then []
      else if escaped then lengthsFrom (taken + 1) pending (.quoted false) cs
      else if c = '\\' then lengthsFrom (taken + 1) pending (.quoted true) cs
      else if c = '"' then
        if pending.isEmpty then (taken + 1) :: lengthsFrom (taken + 1) pending .code cs
        else lengthsFrom (taken + 1) pending .code cs
      else lengthsFrom (taken + 1) pending (.quoted false) cs
    | .code =>
      match closer? c with
      | some close => lengthsFrom (taken + 1) (close :: pending) .code cs
      | none =>
        if isCloser c then
          match pending with
          | [] => []
          | awaited :: outer =>
            if awaited ≠ c then []
            else if outer.isEmpty then (taken + 1) :: lengthsFrom (taken + 1) outer .code cs
            else lengthsFrom (taken + 1) outer .code cs
        else if c = '"' then lengthsFrom (taken + 1) pending (.quoted false) cs
        else if pending.isEmpty then
          if c = ';' ∨ c = '\n' then []
          else if Text.isBlank c then lengthsFrom (taken + 1) pending .code cs
          else (taken + 1) :: lengthsFrom (taken + 1) pending .code cs
        else lengthsFrom (taken + 1) pending .code cs

/-- The lengths of the fragments that a text starts with, shortest first. -/
def lengths (cs : List Char) : List Nat :=
  match cs with
  | [] => []
  | c :: _ => if Text.isBlank c then [] else lengthsFrom 0 [] .code cs

/-- The lengths a hole may capture: all of them, or only the longest for the last hole of a
template. -/
def candidates (last : Bool) (cs : List Char) : List Nat :=
  if last then (lengths cs).getLast?.toList else lengths cs

end Mutagenesis.Fragment
