import GeneticRepair.Proofs.Assessment.Evaluation

/-!
# `Proofs/Assessment/Verdicts.lean` — evaluations that can be repeated

Most variants do not wait for a localization. The evaluation of such a variant writes no mark, and
if test runs answer by what they are given (`Executor.AnswersBy`), be it in one folder or another
(`Executor.Repeatable`), then what comes of it can be told in advance: `Bench.verdict` reads nothing
that evaluations change. Whatever else has been evaluated before, an evaluation gives the verdict,
unless scratch storage fails (`evaluate_verdict`).
-/

set_option autoImplicit false

namespace GeneticRepair

variable {α ω τ : Type} [Scalar α]

/-- A variant that does not wait for a localization does not get one. -/
theorem RetestPlan.wanted_eq_false {policy : FitnessPolicy α} {store : Store α} {baseline : Node}
    {v : Variant α} (hv : v.stale = false) {selection : Selection} {wanted : Bool}
    (h : choose policy store baseline v = .retest selection wanted) : wanted = false := by
  unfold choose at h
  rw [hv] at h
  simp only [Bool.false_eq_true, if_false] at h
  split at h
  · exact (RetestPlan.retest.inj h).2.symm
  · split at h
    · exact (RetestPlan.retest.inj h).2.symm
    · cases h
    · split at h
      · exact (RetestPlan.retest.inj h).2.symm
      · exact (RetestPlan.retest.inj h).2.symm

/-- Results of test runs do not depend on what was run before, nor where. Test runs do not touch the
part of the memory that the clock is read from. -/
structure Executor.Repeatable (executor : Executor α ω)
    (answers : Node → Selection → Store α → Except TestRunError TestRun) (clock : ω → τ) :
    Prop where
  answers_eq : ∀ root selection dir store before,
    (executor.run root selection dir store before).1 = answers root selection store
  clock_eq : ∀ root selection dir store before,
    clock (executor.run root selection dir store before).2.2 = clock before.2

/-- What an executor answers is a function of what it is given: the program, the selected tests, the
folder and the marks. -/
def Executor.AnswersBy (executor : Executor α ω)
    (answers : Node → Selection → ScratchFolder → Store α → Except TestRunError TestRun) : Prop :=
  ∀ root selection dir store before,
    (executor.run root selection dir store before).1 = answers root selection dir store

/-- What an executor answers is a function of what it is given, and its test runs do not touch the
part of the memory that the clock is read from. -/
structure Executor.Steadfast (executor : Executor α ω)
    (answers : Node → Selection → ScratchFolder → Store α → Except TestRunError TestRun)
    (clock : ω → τ) : Prop where
  answersBy : executor.AnswersBy answers
  clock_eq : ∀ root selection dir store before,
    clock (executor.run root selection dir store before).2.2 = clock before.2

omit [Scalar α] in
/-- An executor for which the folder makes no difference. -/
theorem Executor.Repeatable.steadfast {executor : Executor α ω}
    {answers : Node → Selection → Store α → Except TestRunError TestRun} {clock : ω → τ}
    (h : executor.Repeatable answers clock) :
    executor.Steadfast (fun root selection _ store => answers root selection store) clock :=
  ⟨h.answers_eq, h.clock_eq⟩

omit [Scalar α] in
/-- A clock that stands still tells of no test run. -/
theorem Executor.AnswersBy.steadfast {executor : Executor α ω}
    {answers : Node → Selection → ScratchFolder → Store α → Except TestRunError TestRun}
    (h : executor.AnswersBy answers) : executor.Steadfast answers fun _ => () :=
  ⟨h, fun _ _ _ _ _ => rfl⟩

/-- The environment has failed: test results contradict each other, or scratch storage is gone. -/
def RepairFault.IsBreakdown : RepairFault → Prop
  | .integrity _ => True
  | .storage _ => True
  | _ => False

namespace Bench

variable {answers : Node → Selection → ScratchFolder → Store α → Except TestRunError TestRun}
  {clock : ω → τ}

/-- The bench some evaluations later, with what evaluations and offers may change. -/
def later (b : Bench α ω) (count : Nat) (best : Option (Variant α)) (disk : Disk) (memory : ω) :
    Bench α ω where
  evaluator := { b.evaluator with best := best, evaluations := b.evaluator.evaluations + count }
  store := b.store
  disk := disk
  memory := memory

/-- What the judgement on its tests makes of a variant. -/
def judged (base : Baseline α) (v : Variant α) : Judgement α → Variant α
  | .collapsed _ => v.assess 0 base.tests.all
  | .scored fitness failing _ => v.assess fitness failing

/-- What a variant comes out with if it is evaluated against the baseline and storage holds. -/
def verdict (b : Bench α ω) (base : Baseline α)
    (answers : Node → Selection → ScratchFolder → Store α → Except TestRunError TestRun)
    (v : Variant α) : Except IntegrityFault (Variant α) :=
  match RetestPlan.choose b.evaluator.policy b.store base.root v with
  | .inherit => .ok (v.assess base.fitness base.tests.negative)
  | .retest selection _ =>
    let dir := b.evaluator.policy.scratchArea.folder v.id
    (base.judge b.evaluator.policy selection (answers v.root selection dir b.store)).map
      (judged base v)

/-- The verdict on a variant whose tests are run. -/
theorem verdict_of_judge {b : Bench α ω} {base : Baseline α} {v : Variant α}
    {selection : Selection} {wanted : Bool} {judgement : Except IntegrityFault (Judgement α)}
    (hplan : RetestPlan.choose b.evaluator.policy b.store base.root v = .retest selection wanted)
    (hjudge : base.judge b.evaluator.policy selection
      (answers v.root selection (b.evaluator.policy.scratchArea.folder v.id) b.store) =
        judgement) :
    b.verdict base answers v = judgement.map (judged base v) := by
  rw [verdict, hplan, ← hjudge]

theorem stale_of_verdict {b : Bench α ω} {base : Baseline α} {v w : Variant α}
    (h : b.verdict base answers v = .ok w) : w.stale = v.stale := by
  unfold verdict at h
  split at h
  · obtain rfl := Except.ok.inj h
    rfl
  · obtain ⟨judgement, -, rfl⟩ := exists_of_map_eq_ok h
    cases judgement with
    | collapsed failure => rfl
    | scored fitness failing run => rfl

omit [Scalar α] in
/-- A trial that storage lets through says the same every time. -/
theorem trial_answers {executor : Executor α ω} (h : executor.Steadfast answers clock) {id : Nat}
    {root : Node} {selection : Selection} {b b' : Bench α ω}
    {outcome : Except StorageFault (Except TestRunError TestRun)}
    (htrial : b.trial executor id root selection = (outcome, b')) :
    ∃ disk memory, b' = { b with disk := disk, memory := memory } ∧
      clock memory = clock b.memory ∧
      ∀ said, outcome = .ok said →
        said = answers root selection (b.evaluator.policy.scratchArea.folder id) b.store := by
  unfold trial at htrial
  split at htrial
  · obtain ⟨rfl, rfl⟩ := Prod.mk.inj htrial
    exact ⟨b.disk, b.memory, rfl, rfl, nofun⟩
  · next dir disk hprepared =>
    obtain rfl := ScratchArea.folder_of_prepare hprepared
    let dir := b.evaluator.policy.scratchArea.folder id
    have hclock := h.clock_eq root selection dir b.store (disk, b.memory)
    have hanswers := h.answersBy root selection dir b.store (disk, b.memory)
    simp only [] at htrial
    split at htrial
    · obtain ⟨rfl, rfl⟩ := Prod.mk.inj htrial
      exact ⟨_, _, rfl, hclock, nofun⟩
    · obtain ⟨rfl, rfl⟩ := Prod.mk.inj htrial
      exact ⟨_, _, rfl, hclock, fun said hsaid => Except.ok.inj hsaid ▸ hanswers⟩

variable [Root α]

/-- The evaluation of a variant that does not wait for a localization writes no mark, and what it
hands back is the same program, which does not wait either. -/
theorem evaluate_of_localized (executor : Executor α ω) {v : Variant α} (hv : v.stale = false)
    (b : Bench α ω) :
    (b.evaluate executor v).2.store = b.store ∧
      ∀ a v', (b.evaluate executor v).1 = .ok (a, v') → v'.stale = false ∧ v'.root = v.root := by
  cases hb : b.evaluator.baseline with
  | none =>
    unfold evaluate
    rw [hb]
    exact ⟨rfl, nofun⟩
  | some base =>
    have hstore {selection : Selection}
        {outcome : Except StorageFault (Except TestRunError TestRun)} {b' : Bench α ω}
        (trial : b.count.trial executor v.id v.root selection = (outcome, b')) :
        b'.store = b.store := by
      have hkept := (trial_frame executor v.id v.root selection b.count).2
      rwa [trial] at hkept
    have hev := evaluation executor v hb
    generalize b.evaluate executor v = answer at hev
    cases hev with
    | inherited plan =>
      refine ⟨rfl, ?_⟩
      rintro a v' ⟨⟩
      exact ⟨hv, rfl⟩
    | unstored plan trial => exact ⟨hstore trial, nofun⟩
    | refused plan trial verdict => exact ⟨hstore trial, nofun⟩
    | collapsed plan trial verdict =>
      refine ⟨hstore trial, ?_⟩
      rintro a v' ⟨⟩
      exact ⟨hv, rfl⟩
    | scored plan trial verdict =>
      obtain rfl := RetestPlan.wanted_eq_false hv plan
      refine ⟨hstore trial, ?_⟩
      rintro a v' ⟨⟩
      exact ⟨hv, rfl⟩

/-- An evaluation gives the verdict, or storage fails. It is counted, and the clock does not see
it. -/
theorem evaluate_verdict {executor : Executor α ω} (h : executor.Steadfast answers clock)
    {b : Bench α ω} {base : Baseline α} (hb : b.evaluator.baseline = some base) {v : Variant α}
    (hv : v.stale = false) :
    ∃ answer disk memory,
      b.evaluate executor v = (answer, b.later 1 b.evaluator.best disk memory) ∧
        clock memory = clock b.memory ∧
        ((∃ fault, answer = .error (.storage fault)) ∨
          answer.map (·.2) = (b.verdict base answers v).mapError .integrity) := by
  have hev := evaluation executor v hb
  generalize b.evaluate executor v = evaluated at hev
  cases hev with
  | inherited plan =>
    refine ⟨_, b.disk, b.memory, rfl, rfl, .inr ?_⟩
    rw [verdict, plan]
    rfl
  | unstored plan trial =>
    obtain ⟨disk, memory, rfl, hclock, -⟩ := trial_answers h trial
    exact ⟨_, disk, memory, rfl, hclock, .inl ⟨_, rfl⟩⟩
  | refused plan trial judged =>
    obtain ⟨disk, memory, rfl, hclock, hsaid⟩ := trial_answers h trial
    obtain rfl := hsaid _ rfl
    refine ⟨_, disk, memory, rfl, hclock, .inr ?_⟩
    rw [verdict_of_judge plan judged]
    rfl
  | collapsed plan trial judged =>
    obtain ⟨disk, memory, rfl, hclock, hsaid⟩ := trial_answers h trial
    obtain rfl := hsaid _ rfl
    refine ⟨_, disk, memory, rfl, hclock, .inr ?_⟩
    rw [verdict_of_judge plan judged]
    rfl
  | scored plan trial judged =>
    obtain ⟨disk, memory, rfl, hclock, hsaid⟩ := trial_answers h trial
    obtain rfl := hsaid _ rfl
    obtain rfl := RetestPlan.wanted_eq_false hv plan
    refine ⟨_, disk, memory, rfl, hclock, .inr ?_⟩
    rw [verdict_of_judge plan judged]
    rfl

theorem establish_of_unstored {executor : Executor α ω} {root : Node} {b b' : Bench α ω}
    {fault : StorageFault} (hvalid : b.evaluator.validate = .ok ())
    (htrial : b.trial executor 0 root (.everything true) = (.error fault, b')) :
    b.establish executor root = (.error (.storage fault), b') := by
  rw [establish, hvalid, htrial]

/-- Under admissible policies a first run fails because of the environment or of the program. -/
theorem fault_of_establish {executor : Executor α ω} {root : Node} {b : Bench α ω}
    {fault : RepairFault} (hvalid : b.evaluator.validate = .ok ())
    (h : (b.establish executor root).1 = .error fault) :
    fault.IsBreakdown ∨ ∃ cause, fault = .unfitBaseline cause := by
  rcases htrial : b.trial executor 0 root (.everything true) with ⟨storage | e | run, b'⟩
  all_goals
    unfold establish at h
    rw [hvalid, htrial] at h
  · obtain rfl := Except.error.inj h
    exact .inl trivial
  · cases e with
    | inconsistent detail =>
      obtain rfl := Except.error.inj h
      exact .inl trivial
    | _ =>
      obtain rfl := Except.error.inj h
      exact .inr ⟨_, rfl⟩
  · simp only [] at h
    split at h
    · obtain rfl := Except.error.inj h
      exact .inr ⟨_, rfl⟩
    · split at h
      · obtain rfl := Except.error.inj h
        exact .inl trivial
      · cases h

/-- The clock does not see an evaluation, whatever comes of it. -/
theorem clock_evaluate {executor : Executor α ω} (h : executor.Steadfast answers clock)
    (v : Variant α) (b : Bench α ω) :
    clock (b.evaluate executor v).2.memory = clock b.memory := by
  have htried {selection : Selection} {b' : Bench α ω}
      {outcome : Except StorageFault (Except TestRunError TestRun)}
      (htrial : b.count.trial executor v.id v.root selection = (outcome, b')) :
      clock b'.memory = clock b.memory := by
    obtain ⟨disk, memory, rfl, hclock, -⟩ := trial_answers h htrial
    exact hclock
  cases hb : b.evaluator.baseline with
  | none =>
    unfold evaluate
    rw [hb]
  | some base =>
    have hev := evaluation executor v hb
    generalize b.evaluate executor v = evaluated at hev
    cases hev with
    | inherited plan => rfl
    | unstored plan trial => exact htried trial
    | refused plan trial judged => exact htried trial
    | collapsed plan trial judged => exact htried trial
    | @scored selection wanted outcome fitness failing run b' plan trial judged =>
      have hkept : (b'.relocalize wanted run v).2.memory = b'.memory := by
        unfold relocalize
        split
        · exact (outside_localize v.root run b').2
        · rfl
      rw [hkept]
      exact htried trial

/-- The clock does not see the first run either. -/
theorem clock_establish {executor : Executor α ω} (h : executor.Steadfast answers clock)
    (root : Node) (b : Bench α ω) :
    clock (b.establish executor root).2.memory = clock b.memory := by
  have hadopt (run : TestRun) (u : Universe) (b : Bench α ω) :
      (b.adopt root run u).2.memory = b.memory := by
    unfold adopt localize
    cases run.coverage with
    | none => rfl
    | some coverage => rfl
  unfold establish
  cases b.evaluator.validate with
  | error fault => rfl
  | ok _ =>
    rcases htrial : b.trial executor 0 root (.everything true) with ⟨outcome, b'⟩
    obtain ⟨disk, memory, rfl, hclock, -⟩ := trial_answers h htrial
    rcases outcome with fault | e | run
    · exact hclock
    · cases e with
      | _ => exact hclock
    · simp only []
      split
      · exact hclock
      · split
        · exact hclock
        · rw [hadopt]
          exact hclock

end Bench

end GeneticRepair
