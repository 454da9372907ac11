import Mutagenesis.Numeral
import Mutagenesis.Text.Cut

/-!
# Locations

A location is a line (counted from one) and a column (counted from zero, in bytes). Ranges of
locations are half open. Each has one written form, `line:column`, `start::stop` and
`file@start::stop`, and a reader for it that says what is wrong with a text that is not one.
-/

set_option autoImplicit false

namespace Mutagenesis

/-- A position in a source file: the line counts from one, the column counts bytes from zero. -/
structure Location where
  line : Nat
  column : Nat
  deriving DecidableEq, Repr, Inhabited

namespace Location

/-- Locations compare by line, then by column. -/
def compare (a b : Location) : Ordering :=
  (Ord.compare a.line b.line).then (Ord.compare a.column b.column)

instance : Ord Location := ⟨compare⟩

/-- One location stands before another one: on an earlier line, or earlier on the same line. -/
instance : LT Location :=
  ⟨fun a b => a.line < b.line ∨ a.line = b.line ∧ a.column < b.column⟩

/-- One location stands before another one or is the same. -/
instance : LE Location :=
  ⟨fun a b => a.line < b.line ∨ a.line = b.line ∧ a.column ≤ b.column⟩

instance (a b : Location) : Decidable (a < b) :=
  inferInstanceAs (Decidable (a.line < b.line ∨ a.line = b.line ∧ a.column < b.column))

instance (a b : Location) : Decidable (a ≤ b) :=
  inferInstanceAs (Decidable (a.line < b.line ∨ a.line = b.line ∧ a.column ≤ b.column))

theorem lt_iff {a b : Location} :
    a < b ↔ a.line < b.line ∨ a.line = b.line ∧ a.column < b.column := Iff.rfl

theorem le_iff {a b : Location} :
    a ≤ b ↔ a.line < b.line ∨ a.line = b.line ∧ a.column ≤ b.column := Iff.rfl

instance : Std.IsLinearOrder Location where
  le_refl a := le_iff.mpr (by omega)
  le_trans a b c hab hbc := by
    rw [le_iff] at *
    omega
  le_antisymm := by
    rintro ⟨la, ca⟩ ⟨lb, cb⟩ hab hba
    simp only [le_iff] at hab hba
    rw [mk.injEq]
    omega
  le_total a b := by
    rw [le_iff, le_iff]
    omega

instance : Std.LawfulOrderLT Location where
  lt_iff a b := by
    rw [lt_iff, le_iff, le_iff]
    omega

/-- The written form `line:column`. -/
def write (l : Location) : List Char :=
  Numeral.write l.line ++ ':' :: Numeral.write l.column

/-- The written form `line:column`. -/
def text (l : Location) : String :=
  String.ofList l.write

end Location

/-- A half-open range of locations: from `start` up to, but not including, `stop`. -/
structure Span where
  start : Location
  stop : Location
  deriving DecidableEq, Repr, Inhabited

namespace Span

/-- The location is at or after the start and before the stop. -/
def contains (r : Span) (l : Location) : Bool :=
  r.start ≤ l && l < r.stop

/-- The written form `start::stop`. -/
def write (r : Span) : List Char :=
  r.start.write ++ ':' :: ':' :: r.stop.write

/-- The written form `start::stop`. -/
def text (r : Span) : String :=
  String.ofList r.write

end Span

/-- A span of text in a named file. -/
structure FileSpan where
  file : String
  span : Span
  deriving DecidableEq, Repr, Inhabited

namespace FileSpan

/-- The written form `file@start::stop`. -/
def write (r : FileSpan) : List Char :=
  r.file.toList ++ '@' :: r.span.write

/-- The written form `file@start::stop`. -/
def text (r : FileSpan) : String :=
  String.ofList r.write

end FileSpan

/-- What can be wrong with the written form of a location, a span or a file span. -/
inductive LocationFault where
  /-- No colon divides line and column. -/
  | noColumn (given : String)
  /-- The part before the colon is no numeral. -/
  | badLine (given : String)
  /-- The part after the colon is no numeral. -/
  | badColumn (given : String)
  /-- The line is zero. -/
  | lineZero (given : String)
  /-- No double colon divides start and stop. -/
  | noStop (given : String)
  /-- The stop stands before the start. -/
  | reversed (given : String)
  /-- No at sign divides file and span. -/
  | noSpan (given : String)
  /-- Nothing stands before the last at sign. -/
  | noFile (given : String)
  deriving DecidableEq, Repr

def LocationFault.message : LocationFault → String
  | noColumn given => s!"expected 'line:column', got '{given}'"
  | badLine given => s!"bad line number in location '{given}'"
  | badColumn given => s!"bad column number in location '{given}'"
  | lineZero given => s!"line numbers start at 1: '{given}'"
  | noStop given => s!"expected 'start::stop', got '{given}'"
  | reversed given => s!"range stops before it starts: '{given}'"
  | noSpan given => s!"expected 'file@range', got '{given}'"
  | noFile given => s!"missing filename in '{given}'"

/-- Reads `line:column`; a bad line is reported before a bad column, and both before line zero. -/
def Location.read (cs : List Char) : Except LocationFault Location :=
  match Text.cutFirst? [':'] cs with
  | none => .error (.noColumn (String.ofList cs))
  | some (lineText, columnText) =>
    match Numeral.read? lineText with
    | none => .error (.badLine (String.ofList cs))
    | some line =>
      match Numeral.read? columnText with
      | none => .error (.badColumn (String.ofList cs))
      | some column =>
        if line = 0 then .error (.lineZero (String.ofList cs)) else .ok ⟨line, column⟩

/-- Reads `start::stop`, split at the first double colon; the stop may not stand before the
start. -/
def Span.read (cs : List Char) : Except LocationFault Span :=
  match Text.cutFirst? [':', ':'] cs with
  | none => .error (.noStop (String.ofList cs))
  | some (startText, stopText) => do
    let start ← Location.read startText
    let stop ← Location.read stopText
    if stop < start then .error (.reversed (String.ofList cs)) else .ok ⟨start, stop⟩

/-- Reads `file@start::stop`, split at the last at sign, so the file may hold at signs itself. -/
def FileSpan.read (cs : List Char) : Except LocationFault FileSpan :=
  match Text.cutLast? '@' cs with
  | none => .error (.noSpan (String.ofList cs))
  | some (file, spanText) =>
    if file.isEmpty then .error (.noFile (String.ofList cs))
    else do
      let span ← Span.read spanText
      .ok ⟨String.ofList file, span⟩

end Mutagenesis
