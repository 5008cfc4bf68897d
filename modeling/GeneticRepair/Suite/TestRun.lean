import GeneticRepair.Suite.Selection
import GeneticRepair.Suspicion.Coverage
import GeneticRepair.Text.Elapsed

/-!
# `Suite/TestRun.lean` — running tests

What running the tests of a program yields: results with or without coverage, or a reason why there
are none. Only a reason that casts doubt on the test suite itself stops a search; a program that
does not compile or hangs is merely unfit.
-/

set_option autoImplicit false

namespace GeneticRepair

structure TestRun where
  /-- The results in the order of execution. -/
  results : List TestResult
  /-- The covered lines, if they were recorded. -/
  coverage : Option Coverage

inductive TestRunError where
  | doesNotCompile (detail : String)
  | cannotRun (detail : String)
  /-- A test class ran out of time; the results up to then are kept. -/
  | timedOut (className : String) (elapsed : Elapsed) (completed : List TestResult)
  /-- The reported tests cannot be those of the suite. -/
  | inconsistent (detail : String)
deriving DecidableEq

namespace TestRunError

def message : TestRunError → String
  | .doesNotCompile detail => s!"compilation failed: {detail}"
  | .cannotRun detail => s!"test execution failed: {detail}"
  | .timedOut className elapsed _ =>
    "test class " ++ className ++ " timed out after " ++ elapsed.text
  | .inconsistent detail => s!"test universe integrity violated: {detail}"

/-- Whether a search can go on after it. -/
def isBenign : TestRunError → Bool
  | .inconsistent _ => false
  | _ => true

end TestRunError

end GeneticRepair
