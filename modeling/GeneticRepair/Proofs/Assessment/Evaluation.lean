import GeneticRepair.Proofs.Assessment.Scoring
import GeneticRepair.Proofs.Scratch.Folders

/-!
# `Proofs/Assessment/Evaluation.lean` — what an evaluation can do

`Bench.evaluate` is read here once and for all: `Evaluation` lists its five ways out, each with the
plan, the trial and the judgement that lead there, and `evaluation` says there is no sixth. Later
proofs take an evaluation apart with `cases` and never unfold it.

The first run gets the same treatment in `Establishment`.

* `evaluator_evaluate`: an evaluation changes nothing about the evaluator but its counter.
* `exact_of_evaluate`: what it reports is exact, and is what the variant carries afterwards.
-/

set_option autoImplicit false

namespace GeneticRepair

/-! ## The four ways to a fitness -/

/-- The figures of a baseline are those that its policy gives its tests. -/
structure Baseline.Fits {α : Type} [Scalar α] (policy : FitnessPolicy α) (base : Baseline α) :
    Prop where
  fitness_eq : base.fitness = policy.baselineFitness base.tests
  maximum_eq : base.maximum = policy.maximum base.tests

namespace FitnessPolicy

/-- The first run: the negative tests fail and the others pass. -/
theorem exact_baseline (p : FitnessPolicy Rat) (u : Universe) :
    p.Exact u (p.baselineFitness u) u.negative := by
  refine ⟨fun id hid => Universe.mem_all_iff.mpr (.inl hid), ?_⟩
  have hneg : u.negative.filter (· ∉ u.negative) = ∅ := by
    refine SortedSet.ext fun id => ?_
    simp only [SortedSet.mem_filter, decide_eq_true_eq]
    exact ⟨fun h => absurd h.1 h.2, fun h => absurd h (SortedSet.not_mem_empty id)⟩
  have hpos : u.positive.filter (· ∉ u.negative) = u.positive := by
    refine SortedSet.ext fun id => ?_
    simp only [SortedSet.mem_filter, decide_eq_true_eq]
    exact ⟨And.left, fun h => ⟨h, fun h' => Universe.not_mem_positive_of_mem_negative h' h⟩⟩
  have hzero : (∅ : SortedSet TestId).size = 0 := rfl
  rw [worth, Universe.passing, hneg, hpos, weigh_eq, hzero, Nat.cast_zero, mul_zero, zero_add]
  rfl

/-- Nothing ran: every test fails. -/
theorem exact_collapse (p : FitnessPolicy Rat) (u : Universe) : p.Exact u 0 u.all := by
  refine ⟨fun id hid => hid, ?_⟩
  have hnone : ∀ sort : SortedSet TestId, (∀ id ∈ sort, id ∈ u.all) →
      sort.filter (· ∉ u.all) = ∅ := by
    intro sort hs
    refine SortedSet.ext fun id => ?_
    simp only [SortedSet.mem_filter, decide_eq_true_eq]
    exact ⟨fun h => absurd (hs id h.1) h.2, fun h => absurd h (SortedSet.not_mem_empty id)⟩
  have hzero : (∅ : SortedSet TestId).size = 0 := rfl
  rw [worth, Universe.passing, hnone _ fun id h => Universe.mem_all_iff.mpr (.inl h),
    hnone _ fun id h => Universe.mem_all_iff.mpr (.inr h), weigh_eq, hzero, Nat.cast_zero, mul_zero,
    mul_zero, add_zero]

end FitnessPolicy

theorem Evaluator.policy_of_validate {α : Type} [Scalar α] {e : Evaluator α}
    (h : e.validate = .ok ()) :
    e.policy.validate = .ok () := by
  rw [Evaluator.validate] at h
  cases hpolicy : e.policy.validate with
  | error fault =>
    rw [hpolicy] at h
    cases h
  | ok _ => rfl

namespace Baseline

variable {α : Type} [Scalar α] {base : Baseline α} {policy : FitnessPolicy α}
  {selection : Selection}

theorem rate_eq_scored {run run' : TestRun} {fitness : α} {failing : SortedSet TestId}
    (h : base.rate policy selection run = .ok (.scored fitness failing run')) :
    run' = run ∧ base.tests.validate run.results selection = .ok () ∧
      policy.score base.tests run.results = .ok (fitness, failing) := by
  rw [rate] at h
  cases hv : base.tests.validate run.results selection with
  | error e => rw [hv] at h; cases h
  | ok _ =>
    rw [hv] at h
    simp only [bind, Except.bind] at h
    cases hs : policy.score base.tests run.results with
    | error e => rw [hs] at h; cases h
    | ok scored =>
      rw [hs] at h
      obtain ⟨rfl, rfl, rfl⟩ := Judgement.scored.inj (Except.ok.inj h)
      exact ⟨rfl, rfl, rfl⟩

theorem exact_of_rate {run run' : TestRun} {fitness : α} {failing : SortedSet TestId}
    (h : base.rate policy selection run = .ok (.scored fitness failing run')) :
    policy.Exact base.tests fitness failing := by
  obtain ⟨-, hv, hs⟩ := rate_eq_scored h
  obtain ⟨hn, hk, -⟩ := Universe.validate_eq_ok_iff.mp hv
  exact FitnessPolicy.exact_of_score (Universe.complete_mergedOutcomes hn hk) hs

/-- Results that pass the check get a fitness, under admissible weights. -/
theorem rate_of_valid {base : Baseline Rat} {policy : FitnessPolicy Rat}
    (hp : policy.validate = .ok ()) {run : TestRun}
    (hv : base.tests.validate run.results selection = .ok ()) :
    base.rate policy selection run =
      .ok (.scored (policy.worth base.tests
          (Universe.failures (base.tests.mergedOutcomes run.results)))
        (Universe.failures (base.tests.mergedOutcomes run.results)) run) := by
  obtain ⟨hn, hk, -⟩ := Universe.validate_eq_ok_iff.mp hv
  rw [rate, hv, FitnessPolicy.score_eq hp (Universe.complete_mergedOutcomes hn hk)]
  rfl

/-- A judgement with a fitness is exact, also when the results of a timeout were completed. -/
theorem exact_of_judge {outcome : Except TestRunError TestRun} {run : TestRun} {fitness : α}
    {failing : SortedSet TestId}
    (h : base.judge policy selection outcome = .ok (.scored fitness failing run)) :
    policy.Exact base.tests fitness failing := by
  cases outcome with
  | ok run => exact exact_of_rate h
  | error e =>
    cases e with
    | timedOut className elapsed completed =>
      rw [judge] at h
      cases hc : base.tests.completeTimeout className elapsed completed selection with
      | error fault => rw [hc] at h; cases h
      | ok results =>
        rw [hc] at h
        exact exact_of_rate h
    | doesNotCompile detail => cases h
    | cannotRun detail => cases h
    | inconsistent detail => cases h

end Baseline

namespace Bench

variable {α ω : Type}

/-! ## What a trial and a localization leave alone -/

/-- A trial works on the disk and the memory of the executor, and reports what the executor says
unless its folder cannot be made or removed. -/
theorem trial_outcome (executor : Executor α ω) (id : Nat) (root : Node) (selection : Selection)
    (b : Bench α ω) :
    ∃ outcome disk memory,
      b.trial executor id root selection = (outcome, { b with disk := disk, memory := memory }) ∧
        ((∃ fault, outcome = .error fault) ∨
          ∃ dir before, outcome = .ok (executor.run root selection dir b.store before).1) := by
  rw [trial]
  split
  · rename_i fault _
    exact ⟨_, b.disk, b.memory, rfl, .inl ⟨fault, rfl⟩⟩
  · rename_i dir disk _
    simp only []
    split
    · rename_i fault _
      exact ⟨_, _, _, rfl, .inl ⟨fault, rfl⟩⟩
    · exact ⟨_, _, _, rfl, .inr ⟨dir, (disk, b.memory), rfl⟩⟩

/-- On a disk without plain files a trial always gets to its answer. -/
theorem trial_of_fileless {executor : Executor α ω} {root : Node} {selection : Selection}
    {b : Bench α ω} {outcome : Except TestRunError TestRun} {memory : ω}
    (hd : b.disk.Fileless)
    (hrun : ∀ dir disk, executor.run root selection dir b.store (disk, b.memory) =
      (outcome, (disk, memory))) (id : Nat) :
    ∃ disk, disk.Fileless ∧ b.trial executor id root selection =
      (.ok outcome, { b with disk := disk, memory := memory }) := by
  obtain ⟨d, hprepare, hd', hdir⟩ :=
    ScratchArea.prepare_of_fileless hd b.evaluator.policy.scratchArea id
  obtain ⟨d', hdiscard, hd''⟩ := ScratchFolder.discard_of_fileless hd' hdir
  refine ⟨d', hd'', ?_⟩
  rw [trial, hprepare]
  simp only [hrun, hdiscard]

theorem trial_frame (executor : Executor α ω) (id : Nat) (root : Node) (selection : Selection)
    (b : Bench α ω) :
    (b.trial executor id root selection).2.evaluator = b.evaluator ∧
      (b.trial executor id root selection).2.store = b.store := by
  obtain ⟨outcome, disk, memory, h, -⟩ := trial_outcome executor id root selection b
  rw [h]
  exact ⟨rfl, rfl⟩

theorem evaluator_of_trial {executor : Executor α ω} {id : Nat} {root : Node}
    {selection : Selection} {b b' : Bench α ω}
    {outcome : Except StorageFault (Except TestRunError TestRun)}
    (h : b.trial executor id root selection = (outcome, b')) : b'.evaluator = b.evaluator := by
  have hf := (trial_frame executor id root selection b).1
  rwa [h] at hf

theorem store_of_trial {executor : Executor α ω} {id : Nat} {root : Node} {selection : Selection}
    {b b' : Bench α ω} {outcome : Except StorageFault (Except TestRunError TestRun)}
    (h : b.trial executor id root selection = (outcome, b')) : b'.store = b.store := by
  have hf := (trial_frame executor id root selection b).2
  rwa [h] at hf

variable [Scalar α] [Root α]

/-- A localization works on the marks. -/
theorem evaluator_localize (root : Node) (run : TestRun) (b : Bench α ω) :
    (b.localize root run).2.evaluator = b.evaluator := by
  rw [localize]
  split
  · rfl
  · rfl

theorem outside_localize (root : Node) (run : TestRun) (b : Bench α ω) :
    (b.localize root run).2.disk = b.disk ∧ (b.localize root run).2.memory = b.memory := by
  rw [localize]
  split
  · exact ⟨rfl, rfl⟩
  · exact ⟨rfl, rfl⟩

theorem relocalize_frame (wanted : Bool) (run : TestRun) (v : Variant α) (b : Bench α ω) :
    (b.relocalize wanted run v).2.evaluator = b.evaluator ∧
      ∃ stale, (b.relocalize wanted run v).1 = { v with stale := stale } := by
  rw [relocalize]
  split
  · exact ⟨evaluator_localize v.root run b, false, rfl⟩
  · exact ⟨rfl, v.stale, rfl⟩

/-! ## The ways out of an evaluation -/

/-- How an evaluation against a baseline comes to its answer. -/
inductive Evaluation (executor : Executor α ω) (v : Variant α) (b : Bench α ω)
    (base : Baseline α) :
    Except RepairFault (Assessment α × Variant α) × Bench α ω → Prop where
  | inherited (plan : RetestPlan.choose b.evaluator.policy b.store base.root v = .inherit) :
    Evaluation executor v b base
      (.ok (⟨base.fitness, base.tests.negative, 0, true, none⟩,
        v.assess base.fitness base.tests.negative), b.count)
  | unstored {selection : Selection} {wanted : Bool} {fault : StorageFault} {b' : Bench α ω}
    (plan : RetestPlan.choose b.evaluator.policy b.store base.root v = .retest selection wanted)
    (trial : b.count.trial executor v.id v.root selection = (.error fault, b')) :
    Evaluation executor v b base (.error (.storage fault), b')
  | refused {selection : Selection} {wanted : Bool} {outcome : Except TestRunError TestRun}
    {fault : IntegrityFault} {b' : Bench α ω}
    (plan : RetestPlan.choose b.evaluator.policy b.store base.root v = .retest selection wanted)
    (trial : b.count.trial executor v.id v.root selection = (.ok outcome, b'))
    (verdict : base.judge b.evaluator.policy selection outcome = .error fault) :
    Evaluation executor v b base (.error (.integrity fault), b')
  | collapsed {selection : Selection} {wanted : Bool} {outcome : Except TestRunError TestRun}
    {failure : String} {b' : Bench α ω}
    (plan : RetestPlan.choose b.evaluator.policy b.store base.root v = .retest selection wanted)
    (trial : b.count.trial executor v.id v.root selection = (.ok outcome, b'))
    (verdict : base.judge b.evaluator.policy selection outcome = .ok (.collapsed failure)) :
    Evaluation executor v b base
      (.ok (⟨0, base.tests.all, 0, !selection.selectsAll, some failure⟩,
        v.assess 0 base.tests.all), b')
  | scored {selection : Selection} {wanted : Bool} {outcome : Except TestRunError TestRun}
    {fitness : α} {failing : SortedSet TestId} {run : TestRun} {b' : Bench α ω}
    (plan : RetestPlan.choose b.evaluator.policy b.store base.root v = .retest selection wanted)
    (trial : b.count.trial executor v.id v.root selection = (.ok outcome, b'))
    (verdict : base.judge b.evaluator.policy selection outcome =
      .ok (.scored fitness failing run)) :
    Evaluation executor v b base
      (.ok (⟨fitness, failing, run.results.length, !selection.selectsAll, none⟩,
        (b'.relocalize wanted run v).1.assess fitness failing), (b'.relocalize wanted run v).2)

theorem evaluation (executor : Executor α ω) (v : Variant α) {b : Bench α ω} {base : Baseline α}
    (hb : b.evaluator.baseline = some base) :
    Evaluation executor v b base (b.evaluate executor v) := by
  rw [evaluate, hb]
  simp only []
  cases hplan : RetestPlan.choose b.count.evaluator.policy b.count.store base.root v with
  | inherit => exact .inherited hplan
  | retest selection wanted =>
    simp only []
    rcases htrial : b.count.trial executor v.id v.root selection with ⟨fault | outcome, b'⟩
    · exact .unstored hplan htrial
    · simp only []
      cases hj : base.judge b.count.evaluator.policy selection outcome with
      | error fault => exact .refused hplan htrial hj
      | ok judgement =>
        cases judgement with
        | collapsed failure => exact .collapsed hplan htrial hj
        | scored fitness failing run => exact .scored hplan htrial hj

/-- What an evaluation answers once the tests have run. -/
theorem evaluate_of_trial {executor : Executor α ω} {v : Variant α} {b b' : Bench α ω}
    {base : Baseline α} {selection : Selection} {wanted : Bool}
    {outcome : Except TestRunError TestRun} (hb : b.evaluator.baseline = some base)
    (hplan : RetestPlan.choose b.evaluator.policy b.store base.root v = .retest selection wanted)
    (htrial : b.count.trial executor v.id v.root selection = (.ok outcome, b')) :
    (b.evaluate executor v).1 = match base.judge b.evaluator.policy selection outcome with
      | .error fault => .error (.integrity fault)
      | .ok (.collapsed failure) =>
        .ok (⟨0, base.tests.all, 0, !selection.selectsAll, some failure⟩,
          v.assess 0 base.tests.all)
      | .ok (.scored fitness failing run) =>
        .ok (⟨fitness, failing, run.results.length, !selection.selectsAll, none⟩,
          (b'.relocalize wanted run v).1.assess fitness failing) := by
  have hplan' :
      RetestPlan.choose b.count.evaluator.policy b.count.store base.root v =
        .retest selection wanted := hplan
  rw [evaluate, hb]
  simp only [hplan', htrial]
  rw [show b.count.evaluator.policy = b.evaluator.policy from rfl]
  rcases base.judge b.evaluator.policy selection outcome with fault | ⟨failure | _⟩
  · rfl
  · rfl
  · rfl

/-- An evaluation is counted, whatever comes of it, and leaves the rest of the evaluator alone. -/
theorem evaluator_evaluate {executor : Executor α ω} {v : Variant α} {b : Bench α ω}
    {base : Baseline α} (hb : b.evaluator.baseline = some base) :
    (b.evaluate executor v).2.evaluator = b.count.evaluator := by
  have h := evaluation executor v hb
  generalize b.evaluate executor v = answer at h
  cases h with
  | inherited plan => rfl
  | unstored plan trial => exact evaluator_of_trial trial
  | refused plan trial verdict => exact evaluator_of_trial trial
  | collapsed plan trial verdict => exact evaluator_of_trial trial
  | scored plan trial verdict =>
    exact (relocalize_frame _ _ v _).1.trans (evaluator_of_trial trial)

/-- An evaluation leaves the best variant alone, even if there is no baseline. -/
theorem best_evaluate (executor : Executor α ω) (v : Variant α) (b : Bench α ω) :
    (b.evaluate executor v).2.evaluator.best = b.evaluator.best := by
  cases hb : b.evaluator.baseline with
  | none =>
    unfold evaluate
    rw [hb]
  | some base =>
    rw [evaluator_evaluate hb]
    rfl

/-- An evaluation writes what it reports into the variant, and it may take note of a
localization. -/
theorem assessed_of_evaluate {executor : Executor α ω} {v v' : Variant α} {b b' : Bench α ω}
    {a : Assessment α} (h : b.evaluate executor v = (.ok (a, v'), b')) :
    ∃ stale, v' = { v.assess a.fitness a.failing with stale := stale } := by
  cases hb : b.evaluator.baseline with
  | none =>
    rw [evaluate, hb] at h
    cases h
  | some base =>
    have hev := evaluation executor v hb
    rw [h] at hev
    cases hev with
    | inherited plan => exact ⟨v.stale, rfl⟩
    | collapsed plan trial verdict => exact ⟨v.stale, rfl⟩
    | @scored selection wanted outcome fitness failing run _ plan trial verdict =>
      obtain ⟨stale, hv⟩ := (relocalize_frame wanted run v _).2
      rw [hv]
      exact ⟨stale, rfl⟩

/-- An evaluation reports an exact pair and writes it into the variant. -/
theorem exact_of_evaluate [Root Rat] {executor : Executor Rat ω} {v v' : Variant Rat}
    {b b' : Bench Rat ω} {base : Baseline Rat} {a : Assessment Rat}
    (hb : b.evaluator.baseline = some base) (hf : base.Fits b.evaluator.policy)
    (h : b.evaluate executor v = (.ok (a, v'), b')) :
    b.evaluator.policy.Exact base.tests a.fitness a.failing ∧
      ∃ stale, v' = { v.assess a.fitness a.failing with stale := stale } := by
  refine ⟨?_, assessed_of_evaluate h⟩
  have hev := evaluation executor v hb
  rw [h] at hev
  cases hev with
  | inherited plan =>
    rw [hf.fitness_eq]
    exact FitnessPolicy.exact_baseline _ _
  | collapsed plan trial verdict => exact FitnessPolicy.exact_collapse _ _
  | scored plan trial verdict => exact Baseline.exact_of_judge verdict

/-! ## The first run -/

/-- How a first run ends: in a fault, or with a baseline taken from its results. -/
inductive Establishment (executor : Executor α ω) (root : Node) (b : Bench α ω) :
    Except RepairFault (Assessment α) × Bench α ω → Prop where
  | failed {fault : RepairFault} {b' : Bench α ω} (same : b'.evaluator = b.evaluator)
    (unmarked : b'.store = b.store) : Establishment executor root b (.error fault, b')
  | adopted {run : TestRun} {u : Universe} {b' : Bench α ω}
    (valid : b.evaluator.validate = .ok ())
    (trial : b.trial executor 0 root (.everything true) = (.ok (.ok run), b'))
    (recorded : Universe.ofFirstRun run.results = .ok u) :
    Establishment executor root b (.ok (b'.adopt root run u).1, (b'.adopt root run u).2)

theorem establishment (executor : Executor α ω) (root : Node) (b : Bench α ω) :
    Establishment executor root b (b.establish executor root) := by
  rw [establish]
  cases hvalid : b.evaluator.validate with
  | error fault => exact .failed rfl rfl
  | ok _ =>
    simp only []
    rcases htrial : b.trial executor 0 root (.everything true) with ⟨answer, b'⟩
    have hsame := evaluator_of_trial htrial
    have hunmarked := store_of_trial htrial
    rcases answer with fault | ⟨e | run⟩
    · exact .failed hsame hunmarked
    · cases e with
      | inconsistent detail => exact .failed hsame hunmarked
      | doesNotCompile detail => exact .failed hsame hunmarked
      | timedOut className elapsed completed => exact .failed hsame hunmarked
      | cannotRun detail => exact .failed hsame hunmarked
    · simp only []
      split
      · exact .failed hsame hunmarked
      · split
        · exact .failed hsame hunmarked
        · rename_i u hu
          exact .adopted hvalid htrial hu

theorem establish_of_trial {executor : Executor α ω} {root : Node} {b b' : Bench α ω}
    {run : TestRun} {u : Universe} (hvalid : b.evaluator.validate = .ok ())
    (htrial : b.trial executor 0 root (.everything true) = (.ok (.ok run), b'))
    (hu : Universe.ofFirstRun run.results = .ok u) (hne : run.results ≠ []) :
    b.establish executor root = (.ok (b'.adopt root run u).1, (b'.adopt root run u).2) := by
  rw [establish, hvalid]
  simp only [htrial, hu, List.isEmpty_iff, hne, if_false]

/-- A first run that fails leaves the evaluator as it was. -/
theorem evaluator_of_establish {executor : Executor α ω} {root : Node} {b b' : Bench α ω}
    {fault : RepairFault} (h : b.establish executor root = (.error fault, b')) :
    b'.evaluator = b.evaluator := by
  have hes := establishment executor root b
  rw [h] at hes
  cases hes with
  | failed same unmarked => exact same

theorem adopt_eq (root : Node) (run : TestRun) (u : Universe) (b : Bench α ω) :
    (b.adopt root run u).1 =
        ⟨b.evaluator.policy.baselineFitness u, u.negative, run.results.length, false, none⟩ ∧
      (b.adopt root run u).2.evaluator =
        { b.evaluator with
          baseline := some ⟨root, u, b.evaluator.policy.maximum u,
            b.evaluator.policy.baselineFitness u, (b.localize root run).1⟩ } ∧
      (b.adopt root run u).2.store = (b.localize root run).2.store := by
  refine ⟨rfl, ?_, rfl⟩
  simp only [adopt, evaluator_localize]

/-- A first run that succeeds leaves a baseline whose figures fit. -/
theorem fits_of_establish {executor : Executor α ω} {root : Node} {b b' : Bench α ω}
    {a : Assessment α} (h : b.establish executor root = (.ok a, b')) :
    ∃ base, b'.evaluator = { b.evaluator with baseline := some base } ∧ base.root = root ∧
      base.Fits b.evaluator.policy ∧
      a.fitness = b.evaluator.policy.baselineFitness base.tests ∧
      a.failing = base.tests.negative := by
  have hes := establishment executor root b
  rw [h] at hes
  cases hes with
  | @adopted run u adopter valid trial recorded =>
    obtain ⟨ha, he, -⟩ := adopt_eq root run u adopter
    rw [ha, he, evaluator_of_trial trial]
    exact ⟨_, rfl, rfl, ⟨rfl, rfl⟩, rfl, rfl⟩

/-- A first run succeeds under admissible settings only. -/
theorem validate_of_establish {executor : Executor α ω} {root : Node} {b b' : Bench α ω}
    {a : Assessment α} (h : b.establish executor root = (.ok a, b')) :
    b.evaluator.validate = .ok () := by
  have hes := establishment executor root b
  rw [h] at hes
  cases hes with
  | adopted valid trial recorded => exact valid

/-- On a disk without plain files, results without repetition make a baseline. -/
theorem establish_of_fileless (executor : Executor α ω) (root : Node) {b : Bench α ω}
    {run : TestRun} {memory : ω} (hd : b.disk.Fileless)
    (hrun : ∀ dir disk, executor.run root (.everything true) dir b.store (disk, b.memory) =
      (.ok run, (disk, memory)))
    (hvalid : b.evaluator.validate = .ok ()) (hne : run.results ≠ [])
    (hnodup : (run.results.map (·.id)).Nodup) :
    ∃ a base b', b.establish executor root = (.ok a, b') ∧
      b'.evaluator = { b.evaluator with baseline := some base } ∧ base.root = root ∧
      base.tests.outcomes = run.results.map (fun r => (r.id, r.hasPassed)) ∧
      b'.disk.Fileless ∧ b'.memory = memory := by
  obtain ⟨disk, hdisk, htrial⟩ := trial_of_fileless hd hrun 0
  obtain ⟨u, hrecorded, hu⟩ := Universe.ofFirstRun_of_nodup hnodup
  have hestablish := establish_of_trial hvalid htrial hrecorded hne
  obtain ⟨-, hevaluator, -⟩ := adopt_eq root run u { b with disk := disk, memory := memory }
  obtain ⟨hd', hm'⟩ := outside_localize root run { b with disk := disk, memory := memory }
  exact ⟨_, _, _, hestablish, hevaluator, rfl, hu, hd' ▸ hdisk, hm'⟩

end Bench

end GeneticRepair
