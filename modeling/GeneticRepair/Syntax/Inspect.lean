import GeneticRepair.Numeric.Decimal
import GeneticRepair.Syntax.Store
import GeneticRepair.Text.Quoted

/-!
# `Syntax/Inspect.lean` — nodes and marks for inspection

One-line texts that show a node or a mark to a person.
-/

set_option autoImplicit false

namespace GeneticRepair

def NodeKind.name : NodeKind → String
  | .file => "File"
  | .typeDeclaration => "TypeDeclaration"
  | .method => "Method"
  | .constructor => "Constructor"
  | .field => "Field"
  | .atomicStatement => "AtomicStatement"
  | .compositeStatement => "CompositeStatement"
  | .leaf => "Leaf"
  | .other => "Other"

def NodeKind.ofName? (name : String) : Option NodeKind :=
  [file, typeDeclaration, method, constructor, field, atomicStatement, compositeStatement, leaf,
    other].find? (·.name = name)

/-- A name and its fields between braces. -/
def braced (name : String) (fields : List String) : String :=
  name ++ " \x7b " ++ String.intercalate ", " fields ++ " \x7d"

def SortedSet.inspect (s : SortedSet String) : String :=
  "\x7b" ++ String.intercalate ", " (s.toList.map Text.quoted) ++ "\x7d"

/-- The text of a mark; attributes are left out. -/
def Mark.inspect (m : Mark Float) : String :=
  let covering := match m.coveredBy with
    | none => "None"
    | some classes => "Some(" ++ classes.inspect ++ ")"
  braced "Annotations"
    ["suspiciousness: " ++ Decimal.inspect m.suspicion, "covered_by: " ++ covering, ".."]

def Node.inspect (n : Node) (m : Mark Float) : String :=
  match n with
  | .leaf _ text position =>
    braced "Leaf" ["text: " ++ Text.quoted text, s!"line: {position.line}"]
  | .inner _ kind _ children =>
    braced "Inner"
      ["kind: " ++ kind.name, s!"children: {children.length}",
        "suspiciousness: " ++ Decimal.inspect m.suspicion]

end GeneticRepair
