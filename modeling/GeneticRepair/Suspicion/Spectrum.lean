import GeneticRepair.Numeric.Scalar

/-!
# `Suspicion/Spectrum.lean` — program spectra

The spectrum of a line counts the failing and the passing tests that execute it and those that do
not. Its suspicion is the Ochiai coefficient: the failing tests that execute the line over the
geometric mean of all failing tests and all tests that execute it.
-/

set_option autoImplicit false

namespace GeneticRepair

structure Spectrum where
  failingHits : Nat
  failingMisses : Nat
  passingHits : Nat
  passingMisses : Nat
deriving DecidableEq, Repr

namespace Spectrum

/-- The counts of a line from those of its tests and of all tests. -/
def ofTotals (failingHits totalFailing passingHits totalPassing : Nat) : Spectrum :=
  ⟨failingHits, totalFailing - failingHits,
    passingHits, totalPassing - passingHits⟩

variable {α : Type} [Scalar α] [Root α]

/-- The Ochiai coefficient; zero if no test fails or none executes the line. -/
def ochiai (c : Spectrum) : α :=
  let ef : α := (c.failingHits : α)
  let allFailing := ef + (c.failingMisses : α)
  let allCovering := ef + (c.passingHits : α)
  if allFailing ≤ 0 then 0
  else if allCovering ≤ 0 then 0
  else ef / Root.sqrt (allFailing * allCovering)

end Spectrum

end GeneticRepair
