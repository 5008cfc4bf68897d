import GeneticRepair.Proofs.Evolution.Steps
import GeneticRepair.Proofs.Evolution.Veil
import GeneticRepair.Proofs.Scratch.Folders

/-!
# `Proofs/Evolution/Logging.lean` — writing down folders

Which folders a run uses is known to its executor only. `Executor.logged` is the same executor with
a list of the folders that it has been given. The list is behind a veil: a run with it is the run
without it (`logged_next`, step by step), and a step adds at most the folder of the one variant that
it tests (`Stage.trying`).
-/

set_option autoImplicit false

namespace GeneticRepair

variable {α ω : Type}

/-- The executor, with a list of the folders in which it has run tests. -/
def Executor.logged (executor : Executor α ω) : Executor α (ω × List ScratchFolder) :=
  ⟨fun root selection dir store x =>
    let (outcome, disk, memory) := executor.run root selection dir store (x.1, x.2.1)
    (outcome, disk, memory, x.2.2 ++ [dir])⟩

def Oracle.logged (oracle : Oracle α ω) : Oracle α (ω × List ScratchFolder) :=
  ⟨fun root failing x =>
    let (answer, store, memory) := oracle.propose root failing (x.1, x.2.1)
    (answer, store, memory, x.2.2)⟩

def Collaborators.logged (c : Collaborators α ω) : Collaborators α (ω × List ScratchFolder) where
  executor := c.executor.logged
  oracle := c.oracle.map Oracle.logged
  cancelled x :=
    let (yes, memory) := c.cancelled x.1
    (yes, memory, x.2)
  schedule := c.schedule
  seed := c.seed

/-- What has been written down is behind a veil. -/
def Veil.log (log : List ScratchFolder) : Veil α ω (ω × List ScratchFolder) :=
  ⟨id, id, (·, log), id, id, id⟩

theorem Veil.consults_logged (c : Collaborators α ω) (log : List ScratchFolder) :
    (Veil.log log).Consults c.oracle c.logged.oracle := by
  unfold Collaborators.logged
  cases c.oracle with
  | none => trivial
  | some oracle => exact fun root failing store memory => rfl

/-- The log after the folder with a number may have been used. -/
def Used (area : ScratchArea) (id : Option Nat) (log log' : List ScratchFolder) : Prop :=
  log' = log ∨ ∃ i, id = some i ∧ log' = log ++ [area.folder i]

namespace Bench

theorem logged_trial (executor : Executor α ω) (id : Nat) (root : Node) (selection : Selection)
    (b : Bench α ω) (log : List ScratchFolder) :
    ∃ log', Used b.evaluator.policy.scratchArea (some id) log log' ∧
      ((Veil.log log).overBench b).trial executor.logged id root selection =
        ((b.trial executor id root selection).1,
          (Veil.log log').overBench (b.trial executor id root selection).2) := by
  unfold trial
  cases hprepare : b.evaluator.policy.scratchArea.prepare id b.disk with
  | error fault =>
    refine ⟨log, .inl rfl, ?_⟩
    simp only [Veil.overBench, Veil.log, id_eq, hprepare]
  | ok prepared =>
    obtain ⟨dir, disk⟩ := prepared
    obtain rfl := ScratchArea.folder_of_prepare hprepare
    refine ⟨_, .inr ⟨id, rfl, rfl⟩, ?_⟩
    simp only [Veil.overBench, Veil.log, id_eq, hprepare, Executor.logged]
    split
    · rfl
    · rfl

end Bench

/-- The veils over a log to which the folder with a number may have been added. -/
def Veil.Logs (area : ScratchArea) (id : Nat) (log : List ScratchFolder)
    (φ : Veil α ω (ω × List ScratchFolder)) : Prop :=
  ∃ log', Used area (some id) log log' ∧ φ = .log log'

theorem Veil.Logs.faithful {area : ScratchArea} {id : Nat} {log : List ScratchFolder}
    {φ : Veil α ω (ω × List ScratchFolder)} (h : φ.Logs area id log) : φ.Faithful := by
  obtain ⟨log', -, rfl⟩ := h
  exact ⟨fun _ => rfl, fun _ => rfl, fun _ => rfl, fun _ => rfl, fun _ _ => rfl⟩

section

variable [Scalar α] [Root α]

theorem Bench.logged_evaluate (executor : Executor α ω) (v : Variant α) (b : Bench α ω)
    (log : List ScratchFolder) :
    ∃ log', Used b.evaluator.policy.scratchArea (some v.id) log log' ∧
      ((Veil.log log).overBench b).evaluate executor.logged v =
        ((b.evaluate executor v).1, (Veil.log log').overBench (b.evaluate executor v).2) := by
  have htrial : ∀ selection, ∃ φ' : Veil α ω (ω × List ScratchFolder),
      φ'.Logs b.evaluator.policy.scratchArea v.id log ∧
        (Veil.log log).Tries φ' executor executor.logged v.id v.root selection b.count := by
    intro selection
    obtain ⟨log', hused, htries⟩ := logged_trial executor v.id v.root selection b.count log
    exact ⟨_, ⟨log', hused, rfl⟩, htries⟩
  obtain ⟨_, ⟨log', hused, rfl⟩, heq⟩ :=
    Veil.veiled_evaluate _ (fun _ h => h.faithful) ⟨log, .inl rfl, rfl⟩ htrial
  exact ⟨log', hused, heq⟩

theorem Bench.logged_establish (executor : Executor α ω) (root : Node) (b : Bench α ω)
    (log : List ScratchFolder) :
    ∃ log', Used b.evaluator.policy.scratchArea (some 0) log log' ∧
      ((Veil.log log).overBench b).establish executor.logged root =
        ((b.establish executor root).1,
          (Veil.log log').overBench (b.establish executor root).2) := by
  obtain ⟨log', hused, htrial⟩ := logged_trial executor 0 root (.everything true) b log
  have hgood : ∀ φ : Veil α ω (ω × List ScratchFolder),
      φ.Logs b.evaluator.policy.scratchArea 0 log → φ.Faithful := fun _ h => h.faithful
  obtain ⟨_, ⟨log', hused, rfl⟩, heq⟩ :=
    Veil.veiled_establish _ hgood ⟨log, .inl rfl, rfl⟩ ⟨_, ⟨log', hused, rfl⟩, htrial⟩
  exact ⟨log', hused, heq⟩

end

namespace Search

/-! ## What a step writes down -/

/-- The number of the variant that the next step tests, if it tests one. -/
def Stage.trying : Stage α → Option Nat
  | .fresh _ => some 0
  | .rating _ _ (v :: _) => if v.fitness.isSome then none else some v.id
  | .batch _ _ _ ((_, v) :: _) => some v.id
  | _ => none

variable [Scalar α]

variable {settings : Settings α} {c : Collaborators α ω} {log : List ScratchFolder}
  {course : Course α}

theorem blind_giveUp (outcome : Outcome) (course : Course α) :
    (Veil.log log).Blind (giveUp outcome course : StateM (Search α ω) (Stage α))
      (giveUp outcome course) := fun _ => rfl

theorem blind_closing (course : Course α) (population : List (Variant α))
    (fix : Option (Variant α)) :
    (Veil.log log).Blind (closing course population fix : StateM (Search α ω) (Stage α))
      (closing course population fix) := by
  cases fix with
  | none => exact fun _ => rfl
  | some fix => exact fun _ => rfl

theorem blind_embark (original : Variant α) (maximum : α) :
    (Veil.log log).Blind (embark settings original maximum : StateM (Search α ω) (Stage α))
      (embark settings original maximum) := by
  refine .bind (fun _ => rfl) fun _ => .bind (fun _ => rfl) fun _ => ?_
  split
  · exact fun _ => rfl
  · exact .pure _

theorem logged_offers (vs : List (Variant α)) (b : Bench α ω) :
    vs.foldl Bench.offer ((Veil.log log).overBench b) =
      (Veil.log log).overBench (vs.foldl Bench.offer b) := by
  induction vs generalizing b with
  | nil => rfl
  | cons v vs ih => exact ih (b.offer v)

variable [Root α]

/-- A step does behind the log what it does without, and writes down at most the folder of the
variant that it tests. -/
def Logs (settings : Settings α) (c : Collaborators α ω) (log : List ScratchFolder)
    (stage : Stage α) (s : Search α ω) : Prop :=
  ∃ log', Used s.bench.evaluator.policy.scratchArea stage.trying log log' ∧
    stage.next settings c.logged ((Veil.log log).over s) =
      ((stage.next settings c s).1, (Veil.log log').over (stage.next settings c s).2)

/-- A step that tests nothing. -/
theorem Logs.of_blind {stage : Stage α} {s : Search α ω}
    (h : (Veil.log log).Blind (stage.next settings c) (stage.next settings c.logged)) :
    Logs settings c log stage s :=
  ⟨log, .inl rfl, h s⟩

theorem logs_fresh (root : Node) (s : Search α ω) : Logs settings c log (.fresh root) s := by
  cases hvalid : settings.validate with
  | error fault =>
    refine ⟨log, .inl rfl, ?_⟩
    rw [Stage.next, Stage.next, opening, opening, hvalid]
    rfl
  | ok _ =>
    obtain ⟨log', hused, hlogged⟩ := Bench.logged_establish c.executor root s.bench log
    refine ⟨log', hused, ?_⟩
    rw [Stage.next, Stage.next]
    rcases hes : s.bench.establish c.executor root with ⟨fault | a, b⟩
    · rw [hes] at hlogged
      have hes' : ((Veil.log log).over s).bench.establish c.logged.executor root = _ := hlogged
      rw [opening, opening, hvalid]
      simp only []
      rw [bind_apply, bind_apply, bind_apply (modify _), bind_apply nextNumber, restart_eq,
        restart_eq, bind_apply, bind_apply, onBench_outset hes, onBench_outset hes']
      cases fault with
      | _ => rfl
    · rw [hes] at hlogged
      have hes' : ((Veil.log log).over s).bench.establish c.logged.executor root = _ := hlogged
      cases hb : b.evaluator.baseline with
      | none =>
        rw [opening_of_no_baseline hvalid hes hb, opening_of_no_baseline hvalid hes' hb]
        rfl
      | some base =>
        have hembark : (Veil.log log').Blind
            (embark settings ((Variant.new 0 root).assess a.fitness a.failing) base.maximum :
              StateM (Search α ω) (Stage α)) _ := blind_embark _ _
        have hembarked := hembark (outset (settings.seed.getD c.seed) b)
        rw [opening_of_ok hvalid hes hb, opening_of_ok hvalid hes' hb]
        have hstage := congrArg Prod.fst hembarked
        have hsearch := congrArg Prod.snd hembarked
        exact Prod.ext (Prod.ext hstage rfl) hsearch

theorem logs_between (population : List (Variant α)) (s : Search α ω) :
    Logs settings c log (.between course population) s := by
  refine .of_blind ?_
  rw [Stage.next, Stage.next]
  cases course.remaining with
  | zero => exact (blind_giveUp .exhausted course).bind fun _ => .pure _
  | succ remaining =>
    have hasked : (Veil.log log).Blind (isCancelled c) (isCancelled c.logged) := fun _ => rfl
    have hentered : (Veil.log log).Blind (enter course.generation : StateM (Search α ω) Unit)
        (enter course.generation) := fun _ => rfl
    refine hasked.bind fun cancelled => ?_
    cases cancelled with
    | true => exact (blind_giveUp .cancelled course).bind fun _ => .pure _
    | false =>
      exact hentered.bind fun _ =>
        (Veil.blind_selectParents settings population).bind fun _ => .pure _

theorem logs_crossing (bred parents : List (Variant α)) (s : Search α ω) :
    Logs settings c log (.crossing course bred parents) s := by
  refine .of_blind ?_
  match parents with
  | [] => exact (Veil.blind_refill settings course.original (bred ++ [])).bind fun _ => .pure _
  | [a] => exact (Veil.blind_refill settings course.original (bred ++ [a])).bind fun _ => .pure _
  | a :: b :: rest => exact (Veil.blind_crossPair a b).bind fun _ => .pure _

theorem logs_varying (done todo : List (Variant α)) (s : Search α ω) :
    Logs settings c log (.varying course done todo) s := by
  refine .of_blind ?_
  cases todo with
  | nil => exact .pure _
  | cons v todo =>
    exact (Veil.blind_vary settings (Veil.consults_logged c log) v).bind fun _ => .pure _

theorem logs_rating (done todo : List (Variant α)) (s : Search α ω) :
    Logs settings c log (.rating course done todo) s := by
  cases todo with
  | nil => exact .of_blind ((blind_closing course done none).bind fun _ => .pure _)
  | cons v todo =>
    by_cases hv : v.fitness.isSome = true
    · refine .of_blind ?_
      rw [Stage.next, Stage.next, if_pos hv, if_pos hv]
      exact .pure _
    · obtain ⟨log', hused, hlogged⟩ := Bench.logged_evaluate c.executor v s.bench log
      refine ⟨log', ?_, ?_⟩
      · rw [Stage.trying, if_neg hv]
        exact hused
      · rw [Stage.next, Stage.next, if_neg hv, if_neg hv, bind_apply, bind_apply]
        rcases hev : s.bench.evaluate c.executor v with ⟨e | ⟨a, v'⟩, b⟩
        · rw [hev] at hlogged
          have hev' : ((Veil.log log).over s).bench.evaluate c.logged.executor v = _ := hlogged
          rw [evaluateNext_of_error hev, evaluateNext_of_error hev']
          rfl
        · rw [hev] at hlogged
          have hev' : ((Veil.log log).over s).bench.evaluate c.logged.executor v = _ := hlogged
          rw [evaluateNext_of_ok hev, evaluateNext_of_ok hev']
          simp only []
          split
          · rfl
          · rfl

theorem logs_batch (generation : List (Variant α))
    (results : List (Nat × Except RepairFault (Variant α))) (jobs : List (Nat × Variant α))
    (s : Search α ω) : Logs settings c log (.batch course generation results jobs) s := by
  cases jobs with
  | nil =>
    refine .of_blind (.bind (fun _ => rfl) fun _ => ?_)
    cases settle results 0 generation with
    | error e => exact .pure _
    | ok evaluated =>
      refine .bind (fun s => ?_) fun _ => (blind_closing course evaluated _).bind fun _ => .pure _
      rw [onBench, onBench]
      simp only [Veil.over, logged_offers]
  | cons entry jobs =>
    obtain ⟨job, v⟩ := entry
    obtain ⟨log', hused, hlogged⟩ := Bench.logged_evaluate c.executor v s.bench log
    refine ⟨log', hused, ?_⟩
    rcases hev : s.bench.evaluate c.executor v with ⟨answer, b⟩
    rw [hev] at hlogged
    have hev' : ((Veil.log log).over s).bench.evaluate c.logged.executor v = _ := hlogged
    rw [Stage.next, Stage.next, bind_apply, bind_apply, onBench_eq hev rfl, onBench_eq hev' rfl]
    rfl

theorem logged_next (stage : Stage α) (s : Search α ω) : Logs settings c log stage s := by
  cases stage with
  | fresh root => exact logs_fresh root s
  | between course population => exact logs_between population s
  | crossing course bred parents => exact logs_crossing bred parents s
  | varying course done todo => exact logs_varying done todo s
  | rating course done todo => exact logs_rating done todo s
  | batch course generation results jobs => exact logs_batch generation results jobs s
  | _ => exact .of_blind (.pure _)

end Search

end GeneticRepair
