import Mutagenesis.FileEdits
import Mutagenesis.Snapshot
import Mutagenesis.Text.Lines

/-!
# Reports for people

What the command line prints when it is not asked for JSON, line by line. Parts of a line may be
painted.
-/

set_option autoImplicit false

namespace Mutagenesis.Report

/-- How a part of a line is painted. -/
inductive Paint where
  | red
  | green
  | magenta
  | cyan
  | bold
  | dim
  deriving DecidableEq, Repr

def Paint.code : Paint → String
  | red => "31"
  | green => "32"
  | magenta => "35"
  | cyan => "36"
  | bold => "1"
  | dim => "2"

def sequence (code : String) : String :=
  "\x1b[" ++ code ++ "m"

/-- Paints a text, an empty one too, if painting is on. -/
def paint (colour : Bool) (paints : List Paint) (text : String) : String :=
  if colour then String.join (paints.map fun p => sequence p.code) ++ text ++ sequence "0"
  else text

/-- The text of lines, each ended by a newline. -/
def joined (lines : List String) : String :=
  String.join (lines.map (· ++ "\n"))

def success (colour : Bool) (what : String) : List String :=
  [paint colour [.green, .bold] "✓" ++ " " ++ what]

/-- Something failed; for a failed build, what the build wrote follows. -/
def fault (colour : Bool) (f : Fault) : List String :=
  let first := paint colour [.red, .bold] "✗" ++ s!" {f.message} [{f.kind}]"
  match f with
  | .buildFailure output =>
    first :: (Text.bareLines output.toList).map fun line =>
      "  " ++ paint colour [.dim] (String.ofList line)
  | _ => [first]

def languages (colour : Bool) (ls : List Language) : List String :=
  ls.map fun l =>
    paint colour [.cyan, .bold] l.name ++ " " ++
      paint colour [.dim] (" ".intercalate l.endings.names)

/-- An operator with its languages, and its transformations. -/
def operator (colour : Bool) (o : Operator) : List String :=
  let languages := "[" ++ ", ".intercalate o.languages.names ++ "]"
  (paint colour [.cyan, .bold] o.name ++ " " ++ paint colour [.dim] languages) ::
    o.transformations.zipIdx.map fun (t, index) =>
      "  " ++ paint colour [.dim] ("#" ++ Numeral.text index) ++
        s!" {t.matchTemplate} → {t.resultTemplate}"

def operators (colour : Bool) (os : List Operator) : List String :=
  os.flatMap (operator colour)

def snapshot (s : Snapshot) : String :=
  s.name ++ " " ++ s.buildCommand.getD "-"

def applied (m : Mutation) : String :=
  m.operator ++ "#" ++ Numeral.text m.index

/-- Mutations with their arguments, and their number. -/
def mutations (colour : Bool) (ms : List Mutation) : List String :=
  if ms.isEmpty then ["no mutations found"]
  else
    let rows := ms.map fun m =>
      let arguments := m.arguments.entries.map fun (name, value) => name ++ "=" ++ value
      "  " ++ m.location.text ++ " " ++ paint colour [.magenta] (applied m) ++ " " ++
        paint colour [.dim] (" ".intercalate arguments)
    rows ++ ["", Numeral.text ms.length ++ " mutations"]

/-- Replacements, file by file. -/
def replacements (colour : Bool) (edits : List FileEdits) : List String :=
  edits.flatMap fun e =>
    paint colour [.bold] e.file :: e.replacements.map fun r =>
      "  " ++ r.location.span.text ++ " → " ++ paint colour [.magenta] r.text

def diffPaint? (line : List Char) : Option Paint :=
  match line with
  | '-' :: '-' :: '-' :: _ | '+' :: '+' :: '+' :: _ => some .bold
  | '@' :: '@' :: _ => some .cyan
  | '-' :: _ => some .red
  | '+' :: _ => some .green
  | _ => none

def diff (colour : Bool) (text : List Char) : List String :=
  (Text.bareLines text).map fun line =>
    match diffPaint? line with
    | some p => paint colour [p] (String.ofList line)
    | none => String.ofList line

/-- A mutant with its base and its snapshot, and its mutations. -/
def mutant (colour : Bool) (m : Mutant) : List String :=
  (paint colour [.cyan, .bold] m.id.text ++ " " ++ paint colour [.dim] ("base=" ++ m.base) ++ " " ++
    paint colour [.dim] ("snapshot=" ++ m.id.snapshotName)) ::
    m.mutations.map fun mutation => "  " ++ mutation.location.text ++ " " ++ applied mutation

end Mutagenesis.Report
