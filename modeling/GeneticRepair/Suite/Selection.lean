import GeneticRepair.Suite.TestId

/-!
# `Suite/Selection.lean` — which tests to run

A selection names the test classes of a run, or all of them, and says whether coverage is wanted.
-/

set_option autoImplicit false

namespace GeneticRepair

/-- The test classes to run. -/
structure Selection where
  /-- The selected classes; `none` selects every class. -/
  classes : Option (SortedSet String)
  /-- Whether to record which lines each test covers. -/
  wantsCoverage : Bool
deriving DecidableEq

namespace Selection

def everything (wantsCoverage : Bool) : Selection := ⟨none, wantsCoverage⟩

/-- Some classes, without coverage. -/
def ofClasses (classes : SortedSet String) : Selection := ⟨some classes, false⟩

def selectsAll (s : Selection) : Bool := s.classes.isNone

def selects (s : Selection) (className : String) : Bool :=
  match s.classes with
  | none => true
  | some classes => className ∈ classes

end Selection

end GeneticRepair
