import GeneticRepair.Suite.TestId

/-!
# `Suspicion/Coverage.lean` — covered lines

A location is a line of a class; coverage says which locations each test executed.
-/

set_option autoImplicit false

namespace GeneticRepair

structure CodeLine where
  className : String
  /-- The line, from one. -/
  line : Nat
deriving DecidableEq, Repr, Inhabited

namespace CodeLine

instance : Ord CodeLine := ⟨compareLex (compareOn className) (compareOn line)⟩

instance : Std.TransOrd CodeLine :=
  inferInstanceAs (Std.TransCmp (compareLex (compareOn className) (compareOn line)))

instance : Std.LawfulEqOrd CodeLine where
  eq_of_compare {a b} h := by
    have ⟨hc, hl⟩ := Ordering.then_eq_eq.1 (show (compare a.className b.className).then
      (compare a.line b.line) = .eq from h)
    cases a; cases b
    congr
    · exact Std.LawfulEqOrd.eq_of_compare hc
    · exact Std.LawfulEqOrd.eq_of_compare hl

def text (l : CodeLine) : String := s!"{l.className}:{l.line}"

end CodeLine

abbrev Coverage := List (TestId × SortedSet CodeLine)

namespace Coverage

/-- The lines that a test executes; `none` if nothing was recorded for it. -/
def linesOf (c : Coverage) (id : TestId) : Option (SortedSet CodeLine) := c.lookup id

/-- Records the lines of a test, in place of what was recorded for it before. -/
def record (c : Coverage) (id : TestId) (lines : SortedSet CodeLine) : Coverage :=
  (id, lines) :: c.filter (·.1 ≠ id)

end Coverage

end GeneticRepair
