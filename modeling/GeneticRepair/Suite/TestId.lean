import GeneticRepair.Collection.SortedSet

/-!
# `Suite/TestId.lean` — tests and their results

A test is a method of a test class. Tests are ordered by class, then by method.
-/

set_option autoImplicit false

namespace GeneticRepair

structure TestId where
  className : String
  method : String
deriving DecidableEq, Repr, Inhabited

namespace TestId

instance : Ord TestId := ⟨compareLex (compareOn className) (compareOn method)⟩

instance : Std.TransOrd TestId :=
  inferInstanceAs (Std.TransCmp (compareLex (compareOn className) (compareOn method)))

instance : Std.LawfulEqOrd TestId where
  eq_of_compare {a b} h := by
    have ⟨hc, hm⟩ := Ordering.then_eq_eq.1 (show (compare a.className b.className).then
      (compare a.method b.method) = .eq from h)
    cases a; cases b
    congr
    · exact Std.LawfulEqOrd.eq_of_compare hc
    · exact Std.LawfulEqOrd.eq_of_compare hm

def text (t : TestId) : String := t.className ++ "#" ++ t.method

end TestId

/-- What a failing test reports. -/
structure Failure where
  message : String
  /-- The stack trace, if one was captured. -/
  trace : Option String
deriving DecidableEq

structure TestResult where
  id : TestId
  /-- Why it failed; `none` for a pass. -/
  failure : Option Failure
deriving DecidableEq

namespace TestResult

def pass (id : TestId) : TestResult := ⟨id, none⟩

def fail (id : TestId) (message : String) : TestResult := ⟨id, some ⟨message, none⟩⟩

/-- Adds a stack trace to a failure; a pass has none. -/
def withTrace (r : TestResult) (trace : String) : TestResult :=
  { r with failure := r.failure.map fun f => { f with trace := some trace } }

def hasPassed (r : TestResult) : Bool := r.failure.isNone

end TestResult

end GeneticRepair
