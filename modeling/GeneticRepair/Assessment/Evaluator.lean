import GeneticRepair.Assessment.Retest
import GeneticRepair.Fault
import GeneticRepair.Suspicion.Localization

/-!
# `Assessment/Evaluator.lean` — evaluating variants

The evaluator first runs all tests of the program under repair, which fixes the test universe and
localizes faults. Variants are then scored against that baseline. A variant that does not compile or
whose tests cannot be run has fitness zero; only a contradiction to the universe or a failure of
scratch storage is an error. The evaluator also keeps the best variant it was offered.

Tests are run by an executor, which sees the program, the selected tests, its scratch folder and the
marks, and may change files and its own memory.
-/

set_option autoImplicit false

namespace GeneticRepair

/-- Runs the tests of programs. Its memory is of the type `ω`. -/
structure Executor (α ω : Type) where
  /-- Runs the selected tests of a program in a scratch folder. -/
  run : Node → Selection → ScratchFolder → Store α → Disk × ω →
    Except TestRunError TestRun × (Disk × ω)

structure Assessment (α : Type) where
  fitness : α
  failing : SortedSet TestId
  executed : Nat
  /-- Whether outcomes of the baseline were taken over without running all classes. -/
  incremental : Bool
  /-- Why there are no results, if there are none. -/
  failure : Option String

/-- The program under repair and what its first run showed. -/
structure Baseline (α : Type) where
  root : Node
  tests : Universe
  maximum : α
  fitness : α
  /-- The localization of its faults, if the run recorded coverage. -/
  report : Option (SuspicionReport α)

/-- Scores variants of a program. -/
structure Evaluator (α : Type) where
  policy : FitnessPolicy α
  suspicion : SuspicionPolicy α
  /-- The program under repair, once it has been run. -/
  baseline : Option (Baseline α)
  best : Option (Variant α)
  evaluations : Nat

namespace Evaluator

variable {α : Type} [Scalar α]

def new (policy : FitnessPolicy α) (suspicion : SuspicionPolicy α) : Evaluator α :=
  ⟨policy, suspicion, none, none, 0⟩

/-- Checks the scoring of variants, then that of statements. -/
def validate (e : Evaluator α) : Except SettingFault Unit := do
  e.policy.validate
  e.suspicion.validate

/-- Keeps a variant if it is fitter than the best one so far; says whether it is. A variant without
fitness never is. -/
def offer (e : Evaluator α) (v : Variant α) : Bool × Evaluator α :=
  match v.fitness with
  | none => (false, e)
  | some fitness =>
    let improves : Bool := match e.best.bind (·.fitness) with
      | none => true
      | some incumbent => incumbent < fitness
    (improves, if improves then { e with best := some v } else e)

end Evaluator

/-- What the outcome of a test run means for a variant. -/
inductive Judgement (α : Type) where
  | collapsed (failure : String)
  | scored (fitness : α) (failing : SortedSet TestId) (run : TestRun)

namespace Baseline

variable {α : Type} [Scalar α]

/-- Scores results that are those of the selected tests. -/
def rate (base : Baseline α) (policy : FitnessPolicy α) (selection : Selection)
    (run : TestRun) : Except IntegrityFault (Judgement α) := do
  base.tests.validate run.results selection
  let (fitness, failing) ← policy.score base.tests run.results
  return .scored fitness failing run

/-- Judges the outcome of a test run. A timeout still yields results: the tests that did not finish
fail. -/
def judge (base : Baseline α) (policy : FitnessPolicy α) (selection : Selection) :
    Except TestRunError TestRun → Except IntegrityFault (Judgement α)
  | .ok run => base.rate policy selection run
  | .error (.timedOut className elapsed completed) => do
    let results ← base.tests.completeTimeout className elapsed completed selection
    base.rate policy selection ⟨results, none⟩
  | .error (.inconsistent detail) => .error (.reported detail)
  | .error e => .ok (.collapsed e.message)

end Baseline

/-- An evaluator together with everything a test run can touch. -/
structure Bench (α ω : Type) where
  evaluator : Evaluator α
  store : Store α
  disk : Disk
  memory : ω

namespace Bench

variable {α ω : Type} [Scalar α]

/-- Runs tests in a scratch folder of their own, which is removed afterwards whatever came out. -/
def trial (executor : Executor α ω) (id : Nat) (root : Node) (selection : Selection)
    (b : Bench α ω) : Except StorageFault (Except TestRunError TestRun) × Bench α ω :=
  match b.evaluator.policy.scratchArea.prepare id b.disk with
  | .error fault => (.error fault, b)
  | .ok (dir, disk) =>
    let (outcome, disk, memory) := executor.run root selection dir b.store (disk, b.memory)
    -- a folder that cannot be removed hides what the run reported
    match dir.discard disk with
    | .error fault => (.error fault, { b with disk := disk, memory := memory })
    | .ok disk => (.ok outcome, { b with disk := disk, memory := memory })

def count (b : Bench α ω) : Bench α ω :=
  { b with evaluator := { b.evaluator with evaluations := b.evaluator.evaluations + 1 } }

def offer (b : Bench α ω) (v : Variant α) : Bench α ω :=
  { b with evaluator := (b.evaluator.offer v).2 }

variable [Root α]

def localize (root : Node) (run : TestRun) (b : Bench α ω) :
    Option (SuspicionReport α) × Bench α ω :=
  match run.coverage with
  | none => (none, b)
  | some coverage =>
    let (report, store) :=
      Localization.localize b.evaluator.suspicion root run.results coverage b.store
    (some report, { b with store := store })

/-- Makes a program the baseline, given the results of its first run. -/
def adopt (root : Node) (run : TestRun) (u : Universe) (b : Bench α ω) :
    Assessment α × Bench α ω :=
  let policy := b.evaluator.policy
  let (report, b) := b.localize root run
  let fitness := policy.baselineFitness u
  let baseline : Baseline α := ⟨root, u, policy.maximum u, fitness, report⟩
  (⟨fitness, u.negative, run.results.length, false, none⟩,
    { b with evaluator := { b.evaluator with baseline := some baseline } })

/-- Runs all tests of the program under repair with coverage. If that yields no usable results, an
earlier baseline stays. -/
def establish (executor : Executor α ω) (root : Node) (b : Bench α ω) :
    Except RepairFault (Assessment α) × Bench α ω :=
  match b.evaluator.validate with
  | .error fault => (.error (.badSetting fault), b)
  | .ok () =>
    match b.trial executor 0 root (.everything true) with
    | (.error fault, b) => (.error (.storage fault), b)
    | (.ok (.error (.inconsistent detail)), b) =>
      (.error (.integrity (.reported detail)), b)
    | (.ok (.error cause), b) => (.error (.unfitBaseline cause), b)
    | (.ok (.ok run), b) =>
      if run.results.isEmpty then
        (.error (.unfitBaseline (.cannotRun "baseline run reported no tests")), b)
      else
        match Universe.ofFirstRun run.results with
        | .error fault => (.error (.integrity fault), b)
        | .ok u =>
          let (assessment, b) := b.adopt root run u
          (.ok assessment, b)

/-- Localizes faults anew if the plan asks for it and there is coverage. -/
def relocalize (wanted : Bool) (run : TestRun) (v : Variant α) (b : Bench α ω) :
    Variant α × Bench α ω :=
  if wanted && run.coverage.isSome then
    (v.markLocalized, (b.localize v.root run).2)
  else (v, b)

/-- Scores a variant and hands it back with its fitness and failing tests. -/
def evaluate (executor : Executor α ω) (v : Variant α) (b : Bench α ω) :
    Except RepairFault (Assessment α × Variant α) × Bench α ω :=
  match b.evaluator.baseline with
  | none => (.error .noBaseline, b)
  | some base =>
    let b := b.count
    let policy := b.evaluator.policy
    match RetestPlan.choose policy b.store base.root v with
    | .inherit =>
      let failing := base.tests.negative
      (.ok (⟨base.fitness, failing, 0, true, none⟩, v.assess base.fitness failing), b)
    | .retest selection wanted =>
      match b.trial executor v.id v.root selection with
      | (.error fault, b) => (.error (.storage fault), b)
      | (.ok outcome, b) =>
        match base.judge policy selection outcome with
        | .error fault => (.error (.integrity fault), b)
        | .ok (.collapsed failure) =>
          let failing := base.tests.all
          (.ok (⟨0, failing, 0, !selection.selectsAll, some failure⟩, v.assess 0 failing), b)
        | .ok (.scored fitness failing run) =>
          let (v, b) := b.relocalize wanted run v
          (.ok (⟨fitness, failing, run.results.length, !selection.selectsAll, none⟩,
            v.assess fitness failing), b)

end Bench

end GeneticRepair
