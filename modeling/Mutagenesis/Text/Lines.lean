/-!
# Lines of a text

`lines` cuts a text after each newline; the pieces keep their newline, and only the last one can
lack it, so they give back the text when joined.
-/

set_option autoImplicit false

namespace Mutagenesis.Text

/-- The lines of a text, each with its newline. -/
def lines : List Char → List (List Char)
  | [] => []
  | c :: cs =>
    if c = '\n' then [c] :: lines cs
    else
      match lines cs with
      | [] => [[c]]
      | line :: rest => (c :: line) :: rest

@[simp]
theorem flatten_lines (cs : List Char) : (lines cs).flatten = cs := by
  induction cs with
  | nil => rfl
  | cons c cs ih =>
    unfold lines
    split
    · simp [ih]
    · split
      · next h => simp [h] at ih; simp [← ih]
      · next h => simp [h] at ih; simp [← ih]

/-- A line without its newline, and without a carriage return before that. -/
def withoutLineEnd (line : List Char) : List Char :=
  match line.reverse with
  | '\n' :: '\r' :: rest => rest.reverse
  | '\n' :: rest => rest.reverse
  | _ => line

/-- The lines of a text without their line ends. -/
def bareLines (cs : List Char) : List (List Char) :=
  (lines cs).map withoutLineEnd

end Mutagenesis.Text
