import GeneticRepair.Proofs.Assessment.Evaluation
import GeneticRepair.Proofs.Assessment.Offers
import GeneticRepair.Proofs.Suite.Timeouts

/-!
# `Proofs/Assessment/Integrity.lean` — when an evaluation blames the executor

An integrity fault stops a search for good, so it must be the executor's doing: it said so itself,
named a class that does not exist, or reported results that cannot be those of the suite. `Broken`
says that of an answer. The evaluator finds out in several places, some of which look at what it has
computed itself, and those never fire: over exact arithmetic, what passes the check of the results
is counted and scored (`rate_of_valid`).

The maximum is computed when the baseline is recorded and compared with fitness later; that both are
taken under the same weights is an invariant of the evaluator (`Initialized.scores`).

* `integrity_iff`: an evaluation fails with an integrity fault exactly for a broken answer, and else
  gives a fitness between zero and the maximum.
-/

set_option autoImplicit false

namespace GeneticRepair

/-! ## Broken answers -/

namespace Universe

/-- Results that cannot be those of the selected tests. -/
inductive Contradicted (u : Universe) (selection : Selection) (results : List TestResult) : Prop
  | unknown {r : TestResult} (reported : r ∈ results) (new : r.id ∉ u.all)
  | repeated (twice : ¬ (results.map (·.id)).Nodup)
  | missing {id : TestId} (known : id ∈ u.all) (selected : selection.selects id.className = true)
    (unreported : id ∉ results.map (·.id))

/-- Answers of an executor that does not keep to the suite. -/
inductive Broken (u : Universe) (selection : Selection) : Except TestRunError TestRun → Prop
  | reported (detail : String) : Broken u selection (.error (.inconsistent detail))
  | unknownTimeout {className : String} (elapsed : Elapsed) (completed : List TestResult)
    (unknown : className ∉ u.classes) :
    Broken u selection (.error (.timedOut className elapsed completed))
  | results {run : TestRun} (contradicted : u.Contradicted selection run.results) :
    Broken u selection (.ok run)
  | completed {className : String} {elapsed : Elapsed} {completed results : List TestResult}
    (expanded : u.completeTimeout className elapsed completed selection = .ok results)
    (contradicted : u.Contradicted selection results) :
    Broken u selection (.error (.timedOut className elapsed completed))

variable {u : Universe} {selection : Selection}

theorem eq_of_outcomes {u v : Universe} (h : u.outcomes = v.outcomes) : u = v := by
  cases u
  cases v
  cases h
  rfl

/-- The check finds every contradiction, and nothing else. -/
theorem validate_eq_ok_iff_not_contradicted {results : List TestResult} :
    u.validate results selection = .ok () ↔ ¬ u.Contradicted selection results := by
  rw [validate_eq_ok_iff]
  constructor
  · rintro ⟨hn, hk, ha⟩ hc
    cases hc with
    | unknown reported new => exact new (hk _ reported)
    | repeated twice => exact twice hn
    | missing known selected unreported => exact unreported (ha _ known selected)
  · intro hc
    refine ⟨by_contra fun h => hc (.repeated h), fun r hr => by_contra fun h => hc (.unknown hr h),
      fun id hid hsel => by_contra fun h => hc (.missing hid hsel h)⟩

end Universe

/-! ## Judging -/

namespace FitnessPolicy

variable {p : FitnessPolicy Rat}

theorem worth_nonneg (hp : p.validate = .ok ()) (u : Universe) (failing : SortedSet TestId) :
    0 ≤ p.worth u failing := by
  obtain ⟨hn, hpos⟩ := validate_eq_ok_iff.mp hp
  rw [worth, weigh_eq]
  exact add_nonneg (mul_nonneg hn.le (Nat.cast_nonneg _)) (mul_nonneg hpos (Nat.cast_nonneg _))

/-- Checked results are counted and scored without a complaint. -/
theorem score_of_valid (hp : p.validate = .ok ()) {u : Universe} {selection : Selection}
    {results : List TestResult} (hv : u.validate results selection = .ok ()) :
    ∃ counts fitness failing, u.passCounts (u.mergedOutcomes results) = .ok counts ∧
      p.score u results = .ok (fitness, failing) ∧ 0 ≤ fitness ∧ fitness ≤ p.maximum u := by
  obtain ⟨hn, hk, -⟩ := Universe.validate_eq_ok_iff.mp hv
  have hc := Universe.complete_mergedOutcomes hn hk
  exact ⟨_, _, _, Universe.passCounts_eq hc, score_eq hp hc, worth_nonneg hp u _,
    worth_le_maximum hp u _⟩

end FitnessPolicy

namespace Baseline

variable {policy : FitnessPolicy Rat}

/-- Rating fails for contradicted results, and only for these. -/
theorem rate_cases (base : Baseline Rat) (hp : policy.validate = .ok ()) (selection : Selection)
    (run : TestRun) :
    (∃ fault, base.rate policy selection run = .error fault) ∧
        base.tests.Contradicted selection run.results ∨
      (∃ fitness failing, base.rate policy selection run = .ok (.scored fitness failing run) ∧
        0 ≤ fitness ∧ fitness ≤ policy.maximum base.tests) ∧
        ¬ base.tests.Contradicted selection run.results := by
  cases hv : base.tests.validate run.results selection with
  | error fault =>
    refine .inl ⟨⟨fault, by rw [rate, hv]; rfl⟩, by_contra fun hc => ?_⟩
    rw [Universe.validate_eq_ok_iff_not_contradicted.mpr hc] at hv
    cases hv
  | ok _ =>
    refine .inr ⟨⟨_, _, rate_of_valid hp hv, FitnessPolicy.worth_nonneg hp _ _,
      FitnessPolicy.worth_le_maximum hp _ _⟩, ?_⟩
    exact Universe.validate_eq_ok_iff_not_contradicted.mp hv

/-- Judging fails for broken answers, and only for these. -/
theorem judge_cases (base : Baseline Rat) (hp : policy.validate = .ok ()) (selection : Selection)
    (outcome : Except TestRunError TestRun) :
    (∃ fault, base.judge policy selection outcome = .error fault) ∧
        base.tests.Broken selection outcome ∨
      ((∃ failure, base.judge policy selection outcome = .ok (.collapsed failure)) ∨
        ∃ fitness failing run, base.judge policy selection outcome =
          .ok (.scored fitness failing run) ∧ 0 ≤ fitness ∧ fitness ≤ policy.maximum base.tests) ∧
        ¬ base.tests.Broken selection outcome := by
  -- results are rated as they are, and after a timeout as they are completed
  cases outcome with
  | ok run =>
    obtain ⟨hfault, hc⟩ | ⟨⟨fitness, failing, hscored⟩, hc⟩ := rate_cases base hp selection run
    · exact .inl ⟨hfault, .results hc⟩
    · exact .inr ⟨.inr ⟨fitness, failing, run, hscored⟩, fun | .results h => hc h⟩
  | error e =>
    cases e with
    | doesNotCompile detail => exact .inr ⟨.inl ⟨_, rfl⟩, nofun⟩
    | cannotRun detail => exact .inr ⟨.inl ⟨_, rfl⟩, nofun⟩
    | inconsistent detail => exact .inl ⟨⟨_, rfl⟩, .reported detail⟩
    | timedOut className elapsed completed =>
      by_cases hknown : className ∈ base.tests.classes
      · obtain ⟨added, hexpanded, -⟩ :=
          Universe.completeTimeout_eq hknown elapsed completed selection
        have hjudge : base.judge policy selection (.error (.timedOut className elapsed completed)) =
            base.rate policy selection ⟨completed ++ added, none⟩ := by
          rw [judge, hexpanded]
          rfl
        rw [hjudge]
        obtain ⟨hfault, hc⟩ | ⟨⟨fitness, failing, hscored⟩, hc⟩ :=
          rate_cases base hp selection ⟨completed ++ added, none⟩
        · exact .inl ⟨hfault, .completed hexpanded hc⟩
        · refine .inr ⟨.inr ⟨fitness, failing, _, hscored⟩, fun h => ?_⟩
          cases h with
          | unknownTimeout _ _ unknown => exact unknown hknown
          | completed expanded contradicted =>
            rw [hexpanded] at expanded
            obtain rfl := Except.ok.inj expanded
            exact hc contradicted
      · have hexpanded := Universe.completeTimeout_of_unknown hknown elapsed completed selection
        refine .inl ⟨⟨.unknownTimeout className, ?_⟩, .unknownTimeout elapsed completed hknown⟩
        rw [judge, hexpanded]
        rfl

end Baseline

/-! ## Evaluators with a baseline -/

/-- An evaluator whose first run has succeeded, and whatever it has been used for since:
evaluations, offers and further first runs, each on a store, a disk and a memory of its own. -/
inductive Evaluator.Initialized [Root Rat] : Evaluator Rat → Prop
  | established {ω : Type} {executor : Executor Rat ω} {root : Node} {b b' : Bench Rat ω}
    {a : Assessment Rat} (first : b.establish executor root = (.ok a, b')) :
    Initialized b'.evaluator
  | failedAgain {ω : Type} {executor : Executor Rat ω} {root : Node} {b b' : Bench Rat ω}
    {fault : RepairFault} (before : Initialized b.evaluator)
    (again : b.establish executor root = (.error fault, b')) : Initialized b'.evaluator
  | evaluated {ω : Type} {executor : Executor Rat ω} {v : Variant Rat} {b : Bench Rat ω}
    (before : Initialized b.evaluator) : Initialized (b.evaluate executor v).2.evaluator
  | offered {e : Evaluator Rat} {v : Variant Rat} (before : Initialized e) :
    Initialized (e.offer v).2

/-- A baseline whose figures were taken under the policy, which is admissible. -/
structure Evaluator.Scores (e : Evaluator Rat) (base : Baseline Rat) : Prop where
  baseline_eq : e.baseline = some base
  fits : base.Fits e.policy
  admissible : e.policy.validate = .ok ()

theorem Evaluator.Initialized.scores [Root Rat] {e : Evaluator Rat} (h : e.Initialized) :
    ∃ base, e.Scores base := by
  induction h with
  | @established ω executor root b b' a first =>
    obtain ⟨base, hevaluator, -, hfits, -⟩ := Bench.fits_of_establish first
    have hvalid := Bench.validate_of_establish first
    rw [hevaluator]
    exact ⟨base, rfl, hfits, Evaluator.policy_of_validate hvalid⟩
  | failedAgain before again ih =>
    rw [Bench.evaluator_of_establish again]
    exact ih
  | evaluated before ih =>
    obtain ⟨base, hbase, hfits, hvalid⟩ := ih
    rw [Bench.evaluator_evaluate hbase]
    exact ⟨base, hbase, hfits, hvalid⟩
  | @offered e v before ih =>
    obtain ⟨base, hbase, hfits, hvalid⟩ := ih
    rw [Evaluator.offer_eq]
    exact ⟨base, hbase, hfits, hvalid⟩

/-! ## Evaluating -/

namespace Bench

variable {ω : Type} {executor : Executor Rat ω} {v : Variant Rat} {b b' : Bench Rat ω}
  {base : Baseline Rat} {selection : Selection} {wanted : Bool}
  {outcome : Except TestRunError TestRun}

theorem trial_of_run {id : Nat} {root : Node} {dir : ScratchFolder} {disk disk' disk'' : Disk}
    {memory : ω} (hprepare : b.evaluator.policy.scratchArea.prepare id b.disk = .ok (dir, disk))
    (hrun : executor.run root selection dir b.store (disk, b.memory) = (outcome, (disk', memory)))
    (hdiscard : dir.discard disk' = .ok disk'') :
    b.trial executor id root selection =
      (.ok outcome, { b with disk := disk'', memory := memory }) := by
  rw [trial, hprepare]
  simp only [hrun, hdiscard]

variable [Root Rat]

/-- Once the tests have run, an evaluation fails for a broken answer and only for one. -/
theorem evaluate_cases (hscores : b.evaluator.Scores base)
    (hplan : RetestPlan.choose b.evaluator.policy b.store base.root v = .retest selection wanted)
    (htrial : b.count.trial executor v.id v.root selection = (.ok outcome, b')) :
    (∃ fault, (b.evaluate executor v).1 = .error (.integrity fault)) ∧
        base.tests.Broken selection outcome ∨
      (∃ a v', (b.evaluate executor v).1 = .ok (a, v') ∧
        0 ≤ a.fitness ∧ a.fitness ≤ base.maximum) ∧ ¬ base.tests.Broken selection outcome := by
  obtain ⟨hbase, hfits, hadmissible⟩ := hscores
  rw [evaluate_of_trial hbase hplan htrial, hfits.maximum_eq]
  obtain ⟨⟨fault, h⟩, hbroken⟩ | ⟨⟨failure, h⟩ | ⟨fitness, failing, run, h, hbounds⟩, hsound⟩ :=
    base.judge_cases hadmissible selection outcome
  · rw [h]
    exact .inl ⟨⟨fault, rfl⟩, hbroken⟩
  · rw [h]
    refine .inr ⟨⟨_, _, rfl, le_refl 0, ?_⟩, hsound⟩
    rw [← FitnessPolicy.worth_empty]
    exact FitnessPolicy.worth_nonneg hadmissible _ _
  · rw [h]
    exact .inr ⟨⟨_, _, rfl, hbounds⟩, hsound⟩

/-- After a first run, and with scratch storage at hand, an evaluation that runs tests fails with an
integrity fault exactly if the executor does not keep to the suite; otherwise it gives a fitness
between zero and the maximum. Results that pass the check are counted and scored, so the checks
behind it never fire. -/
theorem integrity_iff {dir : ScratchFolder} {disk disk' disk'' : Disk} {memory : ω}
    (hinitialized : b.evaluator.Initialized) (hbase : b.evaluator.baseline = some base)
    (hplan : RetestPlan.choose b.evaluator.policy b.store base.root v = .retest selection wanted)
    (hprepare : b.evaluator.policy.scratchArea.prepare v.id b.disk = .ok (dir, disk))
    (hrun : executor.run v.root selection dir b.store (disk, b.memory) =
      (outcome, (disk', memory)))
    (hdiscard : dir.discard disk' = .ok disk'') :
    ((∃ fault, (b.evaluate executor v).1 = .error (.integrity fault)) ↔
        base.tests.Broken selection outcome) ∧
      (¬ base.tests.Broken selection outcome → ∃ a v', (b.evaluate executor v).1 = .ok (a, v') ∧
        0 ≤ a.fitness ∧ a.fitness ≤ base.maximum) ∧
      ∀ results, base.tests.validate results selection = .ok () →
        ∃ counts fitness failing,
          base.tests.passCounts (base.tests.mergedOutcomes results) = .ok counts ∧
            b.evaluator.policy.score base.tests results = .ok (fitness, failing) ∧
            0 ≤ fitness ∧ fitness ≤ base.maximum := by
  obtain ⟨base', hscores⟩ := hinitialized.scores
  obtain rfl : base' = base := Option.some.inj (hscores.baseline_eq.symm.trans hbase)
  have htrial := trial_of_run (b := b.count) hprepare hrun hdiscard
  -- the cases exclude one another, so each direction is read off one of them
  refine ⟨?_, fun hsound => ?_, fun results hvalid => ?_⟩
  · obtain ⟨hfault, hbroken⟩ | ⟨⟨a, v', h, -⟩, hsound⟩ := evaluate_cases hscores hplan htrial
    · exact ⟨fun _ => hbroken, fun _ => hfault⟩
    · refine ⟨fun ⟨fault, hfault⟩ => ?_, fun hbroken => absurd hbroken hsound⟩
      rw [h] at hfault
      cases hfault
  · obtain ⟨-, hbroken⟩ | ⟨hscored, -⟩ := evaluate_cases hscores hplan htrial
    · exact absurd hbroken hsound
    · exact hscored
  · rw [hscores.fits.maximum_eq]
    exact FitnessPolicy.score_of_valid hscores.admissible hvalid

end Bench

/-! ## A class that hangs -/

namespace Hanging

def hangs : Except TestRunError TestRun :=
  .error (.timedOut "Slow" ⟨10, 0⟩ [.pass ⟨"Quick", "works"⟩])

/-- Two classes; one of them hangs in every run but the first. -/
def executor : Executor Rat Unit where
  run _ selection _ _ before :=
    if selection.wantsCoverage then
      (.ok ⟨[.pass ⟨"Quick", "works"⟩, .fail ⟨"Slow", "fails"⟩ "broken"], none⟩, before)
    else (hangs, before)

def program : Node := .leaf 0 "x" ⟨1, 1⟩

def bench : Bench Rat Unit :=
  ⟨.new { FitnessPolicy.standard with incremental := false } .keepAll, ⟨#[.fresh []]⟩, ⟨[]⟩, ()⟩

def suite : Universe :=
  ⟨[(⟨"Quick", "works"⟩, true), (⟨"Slow", "fails"⟩, false)], by decide⟩

theorem completeTimeout_suite :
    suite.completeTimeout "Slow" ⟨10, 0⟩ [.pass ⟨"Quick", "works"⟩] (.everything false) =
      .ok [.pass ⟨"Quick", "works"⟩, .fail ⟨"Slow", "fails"⟩ "timeout after 10s"] := by
  decide +kernel

theorem not_broken_hangs : ¬ suite.Broken (.everything false) hangs := by
  intro h
  cases h with
  | unknownTimeout _ _ unknown => exact unknown (by decide)
  | completed expanded contradicted =>
    rw [completeTimeout_suite] at expanded
    obtain rfl := Except.ok.inj expanded
    exact Universe.validate_eq_ok_iff_not_contradicted.mp (by decide) contradicted

end Hanging

open Hanging Bench in
/-- The completed results pass the check: the class that hangs fails, as it did at first. -/
theorem integrity_iff_hanging :
    ∃ (_ : Root Rat) (b : Bench Rat Unit) (base : Baseline Rat) (dir : ScratchFolder)
      (disk disk' : Disk),
      b.evaluator.Initialized ∧ b.evaluator.baseline = some base ∧
        RetestPlan.choose b.evaluator.policy b.store base.root (.new 1 program) =
          .retest (.everything false) false ∧
        b.evaluator.policy.scratchArea.prepare 1 b.disk = .ok (dir, disk) ∧
        executor.run program (.everything false) dir b.store (disk, b.memory) =
          (hangs, (disk, b.memory)) ∧
        dir.discard disk = .ok disk' ∧
        ¬ base.tests.Broken (.everything false) hangs ∧
        ∃ a v', (b.evaluate executor (.new 1 program)).1 = .ok (a, v') ∧
          0 ≤ a.fitness ∧ a.fitness ≤ base.maximum := by
  let _ : Root Rat := ⟨fun q => (q.num.toNat.sqrt : Rat) / (q.den.sqrt : Rat)⟩
  obtain ⟨a, base, b, hestablish, hevaluator, -, houtcomes, hd, -⟩ :=
    establish_of_fileless (b := bench) executor program Disk.fileless_empty (fun _ _ => rfl)
      (by decide) (by decide) (by decide)
  have hbase : b.evaluator.baseline = some base := congrArg Evaluator.baseline hevaluator
  have hplan : RetestPlan.choose b.evaluator.policy b.store base.root (.new 1 program) =
      .retest (.everything false) false := by
    rw [hevaluator]
    rfl
  obtain ⟨disk, hprepare, hdisk, hdir⟩ :=
    ScratchArea.prepare_of_fileless hd b.evaluator.policy.scratchArea 1
  obtain ⟨disk', hdiscard, -⟩ := ScratchFolder.discard_of_fileless hdisk hdir
  have hsuite : base.tests = suite := Universe.eq_of_outcomes houtcomes
  have hsound : ¬ base.tests.Broken (.everything false) hangs := hsuite ▸ not_broken_hangs
  have hrun : executor.run program (.everything false)
      (b.evaluator.policy.scratchArea.folder 1) b.store (disk, b.memory) =
        (hangs, (disk, b.memory)) := rfl
  have hall := integrity_iff (v := .new 1 program) (.established hestablish) hbase hplan hprepare
    hrun hdiscard
  exact ⟨inferInstance, b, base, _, disk, disk', .established hestablish, hbase, hplan, hprepare,
    rfl, hdiscard, hsound, hall.2.1 hsound⟩

end GeneticRepair
