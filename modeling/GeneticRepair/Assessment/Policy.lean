import GeneticRepair.Scratch.Area
import GeneticRepair.Suite.Universe
import GeneticRepair.Suspicion.Policy

/-!
# `Assessment/Policy.lean` — how variants are scored

The fitness of a variant is a weighted sum of the negative and the positive tests that pass. Since a
repair is about the negative tests, their weight must not be zero.
-/

set_option autoImplicit false

namespace GeneticRepair

/-- How variants are run and scored. -/
structure FitnessPolicy (α : Type) where
  negativeWeight : α
  positiveWeight : α
  /-- Whether to run only the test classes that cover a changed compilation unit. -/
  incremental : Bool
  /-- The folder for scratch folders; `none` leaves the choice to the library. -/
  scratchRoot : Option FilePath

namespace FitnessPolicy

variable {α : Type} [Scalar α]

/-- Negative tests count ten times as much as positive ones, and only affected classes are run. -/
def standard : FitnessPolicy α := ⟨((10 : Nat) : α), 1, true, none⟩

def isWeight (w : α) : Bool := Scalar.isFinite w && !(w < 0)

/-- Checks the negative weight, then the positive one, then that repaired tests count. -/
def validate (p : FitnessPolicy α) : Except SettingFault Unit :=
  if !isWeight p.negativeWeight then .error (.badWeight "negative_weight")
  else if !isWeight p.positiveWeight then .error (.badWeight "positive_weight")
  else if p.negativeWeight ≤ 0 then .error .zeroNegativeWeight
  else .ok ()

def scratchArea (p : FitnessPolicy α) : ScratchArea := ⟨p.scratchRoot.getD ["scratch"]⟩

/-- The fitness for some passing tests. -/
def weigh (p : FitnessPolicy α) (counts : Universe.PassCounts) : α :=
  p.negativeWeight * (counts.negative : α) + p.positiveWeight * (counts.positive : α)

def maximum (p : FitnessPolicy α) (u : Universe) : α :=
  p.weigh ⟨u.negative.size, u.positive.size⟩

/-- The fitness of the program under repair: its positive tests pass. -/
def baselineFitness (p : FitnessPolicy α) (u : Universe) : α :=
  p.positiveWeight * (u.positive.size : α)

/-- The fitness and the failing tests of executed results. -/
def score (p : FitnessPolicy α) (u : Universe) (executed : List TestResult) :
    Except IntegrityFault (α × SortedSet TestId) := do
  let outcomes := u.mergedOutcomes executed
  let counts ← u.passCounts outcomes
  let fitness := p.weigh counts
  if p.maximum u + Scalar.tolerance < fitness then
    throw (.fitnessAboveMaximum (Scalar.text fitness) (Scalar.text (p.maximum u)))
  return (fitness, Universe.failures outcomes)

end FitnessPolicy

end GeneticRepair
