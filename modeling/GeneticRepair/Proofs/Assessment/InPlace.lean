import GeneticRepair.Proofs.Assessment.Evaluation

/-!
# `Proofs/Assessment/InPlace.lean` — evaluations that work on a variant in place

`Bench.evaluate` hands a new variant back, and none if it fails; nothing can be said about what a
failure leaves of the old one. Callers that own the variant see it written to while the evaluation
is under way, and what has been written stays if the evaluation then fails. `Bench.evaluateHeld` is
that evaluation, write by write. It comes to the same (`evaluateHeld_eq`), which says in particular
that every fault is found before the first write.

* `unwritten_of_fault`: a failure leaves no trace but a counted evaluation.
-/

set_option autoImplicit false

namespace GeneticRepair

namespace Bench

variable {α ω : Type}

/-- Evaluations of a variant that is kept next to the evaluator. -/
abbrev OnHeld (α ω : Type) := ExceptT RepairFault (StateM (Variant α × Bench α ω))

/-- One step after another; a fault ends an evaluation with all that has been written so far. -/
theorem bind_run {β γ : Type} (x : OnHeld α ω β) (f : β → OnHeld α ω γ)
    (held : Variant α × Bench α ω) :
    (x >>= f).run held = match x.run held with
      | (.ok a, held') => (f a).run held'
      | (.error fault, held') => (.error fault, held') := by
  have h : (x >>= f).run held = ExceptT.bindCont f (x.run held).1 (x.run held).2 := rfl
  rw [h]
  rcases x.run held with ⟨fault | a, held'⟩
  · rfl
  · rfl

theorem get_run (held : Variant α × Bench α ω) :
    (get : OnHeld α ω (Variant α × Bench α ω)).run held = (.ok held, held) := rfl

/-- Writes to the variant. -/
def rewrite (f : Variant α → Variant α) : OnHeld α ω Unit := modify fun (v, b) => (f v, b)

/-- Runs the tests of the variant. -/
def attempt (executor : Executor α ω) (selection : Selection) :
    OnHeld α ω (Except TestRunError TestRun) := do
  let (v, b) ← get
  let (answer, b) := b.trial executor v.id v.root selection
  set (v, b)
  match answer with
  | .error fault => throw (.storage fault)
  | .ok outcome => return outcome

theorem attempt_run (executor : Executor α ω) (selection : Selection) (v : Variant α)
    (b : Bench α ω) :
    (attempt executor selection).run (v, b) =
      match b.trial executor v.id v.root selection with
      | (.error fault, b') => (.error (.storage fault), (v, b'))
      | (.ok outcome, b') => (.ok outcome, (v, b')) := by
  rw [attempt, bind_run, get_run]
  simp only []
  rcases b.trial executor v.id v.root selection with ⟨fault | outcome, b'⟩
  · rfl
  · rfl

variable [Scalar α] [Root α]

/-- Scores a variant and writes its fitness and failing tests to it. -/
def evaluateHeld (executor : Executor α ω) : OnHeld α ω (Assessment α) := do
  match (← get).2.evaluator.baseline with
  | none => throw .noBaseline
  | some base =>
    modify fun (v, b) => (v, b.count)
    let (v, b) ← get
    let policy := b.evaluator.policy
    match RetestPlan.choose policy b.store base.root v with
    | .inherit =>
      rewrite (·.assess base.fitness base.tests.negative)
      return ⟨base.fitness, base.tests.negative, 0, true, none⟩
    | .retest selection wanted =>
      let outcome ← attempt executor selection
      match base.judge policy selection outcome with
      | .error fault => throw (.integrity fault)
      | .ok (.collapsed failure) =>
        rewrite (·.assess 0 base.tests.all)
        return ⟨0, base.tests.all, 0, !selection.selectsAll, some failure⟩
      | .ok (.scored fitness failing run) =>
        modify fun (v, b) => b.relocalize wanted run v
        rewrite (·.assess fitness failing)
        return ⟨fitness, failing, run.results.length, !selection.selectsAll, none⟩

/-- The answer of an evaluation whose caller keeps the old variant if there is no new one. -/
def keeping (v : Variant α) :
    Except RepairFault (Assessment α × Variant α) × Bench α ω →
      Except RepairFault (Assessment α) × (Variant α × Bench α ω)
  | (.ok (a, v'), b) => (.ok a, (v', b))
  | (.error fault, b) => (.error fault, (v, b))

theorem evaluateHeld_eq (executor : Executor α ω) (v : Variant α) (b : Bench α ω) :
    (evaluateHeld executor).run (v, b) = keeping v (b.evaluate executor v) := by
  rw [evaluateHeld, evaluate, bind_run, get_run]
  simp only []
  cases hb : b.evaluator.baseline with
  | none => rfl
  | some base =>
    have hcount : (modify fun (v, b) => (v, b.count) : OnHeld α ω PUnit).run (v, b) =
        (.ok ⟨⟩, (v, b.count)) := rfl
    simp only []
    rw [bind_run, hcount]
    simp only []
    rw [bind_run, get_run]
    simp only []
    cases RetestPlan.choose b.count.evaluator.policy b.count.store base.root v with
    | inherit => rfl
    | retest selection wanted =>
      -- up to the verdict nothing has been written to the variant
      simp only []
      rw [bind_run, attempt_run]
      rcases b.count.trial executor v.id v.root selection with ⟨fault | outcome, b'⟩
      · rfl
      · simp only []
        rcases base.judge b.count.evaluator.policy selection outcome with fault | ⟨failure | _⟩
        · rfl
        · rfl
        · rfl

/-! ## What a fault leaves -/

/-- A failed evaluation has been counted if there is a baseline, and has done nothing else to the
evaluator and the marks. -/
theorem frame_of_fault {executor : Executor α ω} {v : Variant α} {b b' : Bench α ω}
    {fault : RepairFault} (h : b.evaluate executor v = (.error fault, b')) :
    b'.store = b.store ∧
      b'.evaluator = if b.evaluator.baseline.isSome then b.count.evaluator else b.evaluator := by
  cases hb : b.evaluator.baseline with
  | none =>
    rw [evaluate, hb] at h
    obtain ⟨-, rfl⟩ := Prod.mk.inj h
    exact ⟨rfl, rfl⟩
  | some base =>
    have hevaluator : (b.evaluate executor v).2.evaluator = b.count.evaluator :=
      evaluator_evaluate hb
    have hev := evaluation executor v hb
    rw [h] at hev hevaluator
    refine ⟨?_, hevaluator⟩
    cases hev with
    | unstored plan trial => exact (store_of_trial trial).trans rfl
    | refused plan trial verdict => exact (store_of_trial trial).trans rfl

/-- A first run that fails leaves no mark. -/
theorem store_of_establish {executor : Executor α ω} {root : Node} {b b' : Bench α ω}
    {fault : RepairFault} (h : b.establish executor root = (.error fault, b')) :
    b'.store = b.store := by
  have hes := establishment executor root b
  rw [h] at hes
  cases hes with
  | failed same unmarked => exact unmarked

/-- Faults come before writes. An evaluation that fails leaves the variant it works on, the marks,
the baseline and the best variant as they were, and has been counted at most; a first run that fails
leaves all of the evaluator and all marks as they were. -/
theorem unwritten_of_fault (executor : Executor α ω) (v : Variant α) (b : Bench α ω) :
    (evaluateHeld executor).run (v, b) = keeping v (b.evaluate executor v) ∧
      (∀ fault v' b', (evaluateHeld executor).run (v, b) = (.error fault, (v', b')) →
        v' = v ∧ b'.store = b.store ∧
          b'.evaluator = if b.evaluator.baseline.isSome then b.count.evaluator else b.evaluator) ∧
      ∀ root fault b', b.establish executor root = (.error fault, b') →
        b'.evaluator = b.evaluator ∧ b'.store = b.store := by
  refine ⟨evaluateHeld_eq executor v b, fun fault v' b' h => ?_, fun root fault b' h => ?_⟩
  · rw [evaluateHeld_eq] at h
    rcases hev : b.evaluate executor v with ⟨fault' | ⟨a, w⟩, b''⟩
    · rw [hev] at h
      obtain ⟨hfault, hheld⟩ := Prod.mk.inj h
      obtain ⟨rfl, rfl⟩ := Prod.mk.inj hheld
      exact ⟨rfl, frame_of_fault hev⟩
    · rw [hev] at h
      cases h
  · exact ⟨evaluator_of_establish h, store_of_establish h⟩

end Bench

/-! ## An executor that loses its tests -/

namespace Relapse

/-- The first run succeeds, and the suite is not the same afterwards. -/
def executor : Executor Rat Bool where
  run _ _ _ _ before :=
    if before.2 then (.error (.inconsistent "the suite has changed"), before)
    else (.ok ⟨[.pass ⟨"Test", "works"⟩, .fail ⟨"Test", "fails"⟩ "broken"], none⟩, (before.1, true))

def program : Node := .leaf 0 "x" ⟨1, 1⟩

def bench : Bench Rat Bool :=
  ⟨.new { FitnessPolicy.standard with incremental := false } .keepAll, ⟨#[.fresh []]⟩, ⟨[]⟩, false⟩

end Relapse

open Relapse Bench in
/-- After the first run, a variant cannot be evaluated and the program cannot be run again. -/
theorem unwritten_of_fault_relapse :
    ∃ (_ : Root Rat) (v v' : Variant Rat) (b b₁ b₂ : Bench Rat Bool) (fault : RepairFault),
      b.evaluator.baseline.isSome = true ∧
        (evaluateHeld executor).run (v, b) = (.error fault, (v', b₁)) ∧
        b.establish executor program = (.error fault, b₂) ∧
        (v' = v ∧ b₁.store = b.store ∧ b₁.evaluator = b.count.evaluator) ∧
        b₂.evaluator = b.evaluator ∧ b₂.store = b.store := by
  let _ : Root Rat := ⟨fun q => (q.num.toNat.sqrt : Rat) / (q.den.sqrt : Rat)⟩
  obtain ⟨-, base, b, -, hevaluator, -, -, hd, hm⟩ :=
    establish_of_fileless (b := bench) executor program Disk.fileless_empty (fun _ _ => rfl)
      (by decide) (by decide) (by decide)
  have hbase : b.evaluator.baseline = some base := congrArg Evaluator.baseline hevaluator
  have hvalid : b.evaluator.validate = .ok () := by
    rw [hevaluator]
    exact (by decide : bench.evaluator.validate = .ok ())
  have hrun (root : Node) (selection : Selection) (s : Store Rat) (dir : ScratchFolder)
      (disk : Disk) : executor.run root selection dir s (disk, b.memory) =
        (.error (.inconsistent "the suite has changed"), (disk, true)) := by
    rw [hm]
    rfl
  obtain ⟨disk, -, hagain⟩ := trial_of_fileless hd (hrun program (.everything true) b.store) 0
  obtain ⟨disk', -, hnext⟩ :=
    trial_of_fileless (b := b.count) hd (hrun program (.everything false) b.store) 1
  have hestablish : b.establish executor program =
      (.error (.integrity (.reported "the suite has changed")),
        { b with disk := disk, memory := true }) := by
    rw [establish, hvalid]
    simp only [hagain]
  have hplan : RetestPlan.choose b.count.evaluator.policy b.count.store base.root
      (.new 1 program) = .retest (.everything false) false := by
    rw [count, hevaluator]
    rfl
  have hevaluate := evaluate_of_trial (v := .new 1 program) hbase hplan hnext
  generalize hanswer : b.evaluate executor (.new 1 program) = answer at hevaluate
  obtain ⟨_, b₁⟩ := answer
  obtain rfl := hevaluate
  have hheld : (evaluateHeld executor).run (.new 1 program, b) =
      (.error (.integrity (.reported "the suite has changed")), (.new 1 program, b₁)) := by
    rw [evaluateHeld_eq, hanswer]
    rfl
  obtain ⟨-, hintact, hsame⟩ := unwritten_of_fault executor (.new 1 program) b
  obtain ⟨hv, hs, he⟩ := hintact _ _ _ hheld
  rw [hbase] at he
  exact ⟨inferInstance, _, _, b, _, _, _, by rw [hbase]; rfl, hheld, hestablish, ⟨hv, hs, he⟩,
    hsame program _ _ hestablish⟩

end GeneticRepair
