import Mathlib.Algebra.Order.Field.Rat
import Mathlib.Tactic.Linarith
import GeneticRepair.Assessment.Evaluator
import GeneticRepair.Numeric.Rational
import GeneticRepair.Proofs.Suite.Outcomes

/-!
# `Proofs/Assessment/Scoring.lean` — fitness is a function of the failing set

A variant gets its fitness in four ways: as the program under repair, by taking over that program's
outcome, as zero when nothing ran, and from the results of a test run. Each way computes fitness and
failing set apart from each other. That they fit together is one predicate, `Exact`: the failing
tests are tests, and the fitness is the weight of the others. The lemmas here say that each of the
four ways establishes it, over exact arithmetic.

* `score_eq`: after a successful check, scoring never fails under an admissible policy.
* `exact_of_score`: whatever scoring gives is exact.
-/

set_option autoImplicit false

namespace GeneticRepair

namespace FitnessPolicy

variable {α : Type} [Scalar α]

/-- The fitness if exactly the given tests fail. -/
def worth (p : FitnessPolicy α) (u : Universe) (failing : SortedSet TestId) : α :=
  p.weigh (u.passing failing)

/-- The fitness and the failing tests of one program fit together. -/
structure Exact (p : FitnessPolicy α) (u : Universe) (fitness : α) (failing : SortedSet TestId) :
    Prop where
  known : ∀ id ∈ failing, id ∈ u.all
  fitness_eq : fitness = p.worth u failing

/-- Without a failing test nothing is missing. -/
theorem worth_empty (p : FitnessPolicy α) (u : Universe) : p.worth u ∅ = p.maximum u := by
  have hall (sort : SortedSet TestId) : sort.filter (· ∉ (∅ : SortedSet TestId)) = sort := by
    refine SortedSet.ext fun id => ?_
    rw [SortedSet.mem_filter]
    exact ⟨And.left, fun h => ⟨h, decide_eq_true (SortedSet.not_mem_empty id)⟩⟩
  rw [worth, Universe.passing, hall, hall]
  rfl

theorem score_of_complete {p : FitnessPolicy α} {u : Universe} {results : List TestResult}
    (hc : u.Complete (u.mergedOutcomes results)) :
    p.score u results =
      let failing := Universe.failures (u.mergedOutcomes results)
      if p.maximum u + Scalar.tolerance < p.worth u failing then
        .error (.fitnessAboveMaximum (Scalar.text (p.worth u failing))
          (Scalar.text (p.maximum u)))
      else .ok (p.worth u failing, failing) := by
  rw [score, Universe.passCounts_eq hc]
  simp only [bind, Except.bind, pure, Except.pure]
  by_cases h : p.maximum u + Scalar.tolerance <
      p.worth u (Universe.failures (u.mergedOutcomes results))
  · rw [if_pos h]
    exact if_pos h
  · rw [if_neg h]
    exact if_neg h

/-- A score that is given at all is exact. -/
theorem exact_of_score {p : FitnessPolicy α} {u : Universe} {results : List TestResult}
    (hc : u.Complete (u.mergedOutcomes results)) {fitness : α} {failing : SortedSet TestId}
    (h : p.score u results = .ok (fitness, failing)) : p.Exact u fitness failing := by
  rw [score_of_complete hc] at h
  simp only [] at h
  split at h
  · cases h
  · obtain ⟨rfl, rfl⟩ := Prod.mk.inj (Except.ok.inj h)
    exact ⟨fun id hid => Universe.failures_subset hc hid, rfl⟩

/-! ## Exact arithmetic -/

theorem tolerance_eq : (Scalar.tolerance : Rat) = 1 / 1000000000 := by norm_num [Scalar.tolerance]

theorem weigh_eq (p : FitnessPolicy Rat) (counts : Universe.PassCounts) :
    p.weigh counts =
      p.negativeWeight * (counts.negative : Rat) + p.positiveWeight * (counts.positive : Rat) := rfl

theorem validate_eq_ok_iff {p : FitnessPolicy Rat} :
    p.validate = .ok () ↔ 0 < p.negativeWeight ∧ 0 ≤ p.positiveWeight := by
  have hfinite : ∀ w : Rat, Scalar.isFinite w = true := fun _ => rfl
  rw [validate]
  simp only [isWeight, hfinite, Bool.true_and, Bool.not_not, decide_eq_true_eq]
  split
  · rename_i h
    exact ⟨nofun, fun ⟨hn, _⟩ => by linarith⟩
  · split
    · exact ⟨nofun, fun ⟨_, hp⟩ => by linarith⟩
    · split
      · exact ⟨nofun, fun ⟨hn, _⟩ => by linarith⟩
      · exact ⟨fun _ => ⟨by linarith, by linarith⟩, fun _ => rfl⟩

/-- No failing set is worth more than none failing. -/
theorem worth_le_maximum {p : FitnessPolicy Rat} (hp : p.validate = .ok ()) (u : Universe)
    (failing : SortedSet TestId) : p.worth u failing ≤ p.maximum u := by
  obtain ⟨hn, hpos⟩ := validate_eq_ok_iff.mp hp
  rw [worth, maximum, weigh_eq, weigh_eq]
  have h1 : ((u.passing failing).negative : Rat) ≤ (u.negative.size : Rat) :=
    Nat.cast_le.mpr Universe.size_filter_le
  have h2 : ((u.passing failing).positive : Rat) ≤ (u.positive.size : Rat) :=
    Nat.cast_le.mpr Universe.size_filter_le
  exact add_le_add (mul_le_mul_of_nonneg_left h1 hn.le) (mul_le_mul_of_nonneg_left h2 hpos)

theorem score_eq {p : FitnessPolicy Rat} (hp : p.validate = .ok ()) {u : Universe}
    {results : List TestResult} (hc : u.Complete (u.mergedOutcomes results)) :
    p.score u results =
      .ok (p.worth u (Universe.failures (u.mergedOutcomes results)),
        Universe.failures (u.mergedOutcomes results)) := by
  have hle := worth_le_maximum hp u (Universe.failures (u.mergedOutcomes results))
  have htol : (0 : Rat) < Scalar.tolerance := by norm_num [tolerance_eq]
  rw [score_of_complete hc]
  exact if_neg (by linarith)

end FitnessPolicy

end GeneticRepair
