import Mutagenesis.Catalogue
import Mutagenesis.LineDiff.Unified
import Mutagenesis.Splice

/-!
# From mutations to changed files

A mutation becomes the replacement that its transformation's result template gives. The
replacements of a list of mutations, grouped by file, change the texts of the files, and the
difference is written as a unified diff.
-/

set_option autoImplicit false

namespace Mutagenesis

def Catalogue.replacement (c : Catalogue) (m : Mutation) : Except Fault Replacement := do
  let operator ← c.operators.get m.operator
  let transformation ← operator.transformation m.index
  let text ← formatted .template
    (Template.substitute transformation.resultTemplate.toList m.arguments.get?)
  return ⟨m.location, String.ofList text⟩

/-- The replacements of a file. -/
structure FileEdits where
  file : String
  replacements : List Replacement
  deriving DecidableEq, Repr

namespace FileEdits

/-- Adds a replacement to those of its file; a new file comes last. -/
def add (file : String) (r : Replacement) : List FileEdits → List FileEdits
  | [] => [⟨file, [r]⟩]
  | e :: rest =>
    if e.file = file then ⟨file, e.replacements ++ [r]⟩ :: rest else e :: add file r rest

/-- The replacements of mutations, grouped by file, in the order in which the files first came. -/
def ofMutations (c : Catalogue) (ms : List Mutation) : Except Fault (List FileEdits) :=
  ms.foldlM (fun edits m => do return add m.location.file (← c.replacement m) edits) []

/-- The diff of a file with the text; none if the replacements leave the text as it is. -/
def diff (e : FileEdits) (compare : LineDiff.Comparison) (text : List Char) :
    Except Fault (List Char) := do
  let changed ← SourceText.splice text e.replacements
  let script := compare (LineDiff.splitLines text) (LineDiff.splitLines changed)
  return if text = changed then [] else LineDiff.unified e.file text changed script

end FileEdits

end Mutagenesis
