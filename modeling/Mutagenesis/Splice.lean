import Mutagenesis.Mutation
import Mutagenesis.SourceText

/-!
# Applying replacements to a text

Of the replacements of one file, `resolve` keeps those that are in no conflict: the one that starts
earlier goes first, of two that start together the longer one, and each has to start where the last
one kept stops, or later. `splice` puts the kept ones into the text.
-/

set_option autoImplicit false

namespace Mutagenesis

namespace Replacement

def start (r : Replacement) : Location := r.location.span.start

def stop (r : Replacement) : Location := r.location.span.stop

/-- A replacement goes before another one if it starts earlier, or together with it and stops no
earlier. -/
def precedes (a b : Replacement) : Bool :=
  a.start < b.start || (a.start == b.start && b.stop ≤ a.stop)

/-- Puts a replacement in front of the first one that it may precede. -/
def insertInOrder (r : Replacement) : List Replacement → List Replacement
  | [] => [r]
  | x :: rest => if r.precedes x then r :: x :: rest else x :: insertInOrder r rest

/-- The replacements in order; those of equal spans keep their order. -/
def inOrder (rs : List Replacement) : List Replacement :=
  rs.foldr insertInOrder []

/-- Keeps, from replacements in order, each that starts at `free` or later, where the one before it
stopped. -/
def keepFrom (free : Option Location) : List Replacement → List Replacement
  | [] => []
  | r :: rest =>
    if free.any (r.start < ·) then keepFrom free rest else r :: keepFrom (some r.stop) rest

/-- The replacements of a file without conflicts, in the order of the file. -/
def resolve (rs : List Replacement) : List Replacement :=
  keepFrom none (inOrder rs)

end Replacement

namespace SourceText

/-- The text between two offsets; nothing if they are no boundaries of it in order. -/
def between (text : List Char) (start stop : Nat) : List Char :=
  (slice? text start stop).getD []

/-- Puts replacements, in the order of the file, into the text from an offset on. -/
def spliceFrom (text : List Char) (cursor : Nat) :
    List Replacement → Except Fault (List Char)
  | [] => .ok (between text cursor (Text.byteLength text))
  | r :: rest => do
    let start ← formatted .position (offset text r.start)
    let stop ← formatted .position (offset text r.stop)
    if start < cursor ∨ stop < start then .error (.badFormat (.replacement r.location))
    else
      let after ← spliceFrom text stop rest
      return between text cursor start ++ r.text.toList ++ after

/-- The text with the replacements in it that are in no conflict. -/
def splice (text : List Char) (rs : List Replacement) : Except Fault (List Char) :=
  spliceFrom text 0 (Replacement.resolve rs)

end SourceText

end Mutagenesis
