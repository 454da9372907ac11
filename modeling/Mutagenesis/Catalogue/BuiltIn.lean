import Mutagenesis.Catalogue

/-!
# The built-in catalogue

Six languages, and operators for their arithmetic, relational and boolean operators, for boolean
literals, conditions, negations and loop control.
-/

set_option autoImplicit false

namespace Mutagenesis.Catalogue

def language (name : String) (endings : List String) : Language :=
  ⟨name, .ofList endings⟩

/-- A transformation without constraints. -/
def swap (found instead : String) : Transformation :=
  ⟨found, instead, []⟩

def operator (name : String) (languages : List String) (transformations : List Transformation) :
    Operator :=
  ⟨name, .ofList languages, transformations⟩

def builtInLanguages : List Language :=
  [language "c" [".c", ".h"],
   language "cpp" [".cpp", ".cc", ".cxx", ".hpp", ".hh"],
   language "java" [".java"],
   language "javascript" [".js", ".mjs", ".cjs"],
   language "python" [".py"],
   language "rust" [".rs"]]

def builtInOperators : List Operator :=
  [operator "flip-arithmetic-operator" ["c", "cpp", "java", "javascript", "python", "rust"]
     [swap ":[x] + :[y]" ":[x] - :[y]",
      swap ":[x] - :[y]" ":[x] + :[y]",
      ⟨":[x] * :[y]", ":[x] / :[y]", [.isSingleTerm "x"]⟩,
      swap ":[x] / :[y]" ":[x] * :[y]"],
   operator "flip-relational-operator" ["c", "cpp", "java", "javascript", "python", "rust"]
     [swap ":[x] < :[y]" ":[x] <= :[y]",
      swap ":[x] <= :[y]" ":[x] < :[y]",
      swap ":[x] > :[y]" ":[x] >= :[y]",
      swap ":[x] >= :[y]" ":[x] > :[y]",
      swap ":[x] == :[y]" ":[x] != :[y]",
      swap ":[x] != :[y]" ":[x] == :[y]"],
   operator "flip-boolean-operator" ["c", "cpp", "java", "javascript", "rust"]
     [swap ":[x] && :[y]" ":[x] || :[y]",
      swap ":[x] || :[y]" ":[x] && :[y]"],
   operator "flip-boolean-operator-python" ["python"]
     [swap ":[x] and :[y]" ":[x] or :[y]",
      swap ":[x] or :[y]" ":[x] and :[y]"],
   operator "flip-boolean-literal" ["c", "cpp", "java", "javascript", "rust"]
     [swap "true" "false",
      swap "false" "true"],
   operator "negate-if-condition" ["c", "cpp", "java", "javascript"]
     [swap "if (:[c])" "if (!(:[c]))"],
   operator "negate-if-condition-python" ["python"]
     [swap "if :[c]:" "if not (:[c]):"],
   operator "remove-unary-negation" ["c", "cpp", "java", "javascript", "rust"]
     [⟨"-:[x]", ":[x]",
       [.isSingleTerm "x", .precededBy (.ofList ["=", "(", ",", "return"])]⟩],
   operator "delete-loop-control" ["c", "cpp", "java", "javascript", "rust"]
     [⟨"break;", ";", [.precededBy (.ofList [";", "\x7b", "\x7d"])]⟩,
      ⟨"continue;", ";", [.precededBy (.ofList [";", "\x7b", "\x7d"])]⟩]]

def builtInLayer : Layer :=
  ⟨some (.text "1.0"), builtInLanguages, builtInOperators⟩

def builtIn : Except Fault Catalogue :=
  empty.extend builtInLayer

end Mutagenesis.Catalogue
