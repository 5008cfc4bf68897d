import GeneticRepair.Proofs.Evolution.Modes

/-!
# `Proofs/Evolution/Glances.lean` — what a run sees of its flag

A run looks at its flag before each generation that it is about to work on, and nowhere else. What
it sees there is all that the flag can do to it: a run that never finds it set is the same as one
without a flag (`run_unflagged`).

A flag may depend on how often it has been looked at. If nobody else touches the clock by which this
is counted, the clock shows the number of the generation (`sees_of_clock`).
-/

set_option autoImplicit false

namespace GeneticRepair

/-- The same team with a flag that is never set. What looking at it does to the memory stays. -/
def Collaborators.unflagged {α ω : Type} (c : Collaborators α ω) : Collaborators α ω :=
  { c with cancelled := fun memory => (false, (c.cancelled memory).2) }

namespace Search

variable {α ω : Type} [Scalar α] [Root α]

/-- If a run is about to look at its flag: the generation that it looks before, and what it sees. -/
def Moment.glance (c : Collaborators α ω) (m : Moment α ω) : Option (Nat × Bool) :=
  match m.stage with
  | .between course _ =>
    if course.remaining = 0 then none else some (course.generation, (isCancelled c m.search).1)
  | _ => none

/-- Wherever a run looks at its flag, it finds what is said of that generation. -/
def Sees (settings : Settings α) (c : Collaborators α ω) (root : Node) (s : Search α ω)
    (flag : Nat → Bool) : Prop :=
  ∀ n generation seen, ((step settings c)^[n] (start root s)).glance c = some (generation, seen) →
    seen = flag generation

variable {settings : Settings α} {c : Collaborators α ω}

omit [Scalar α] [Root α] in
theorem glance_between {m : Moment α ω} {course : Course α} {population : List (Variant α)}
    (h : m.stage = .between course population) (hmore : course.remaining ≠ 0) :
    m.glance c = some (course.generation, (isCancelled c m.search).1) := by
  rw [Moment.glance, h]
  exact if_neg hmore

omit [Scalar α] [Root α] in
theorem exists_of_glance {m : Moment α ω} {generation : Nat} {seen : Bool}
    (h : m.glance c = some (generation, seen)) :
    ∃ course population, m.stage = .between course population ∧ course.generation = generation ∧
      (isCancelled c m.search).1 = seen := by
  unfold Moment.glance at h
  split at h
  · next course population hstage =>
    split at h
    · cases h
    · obtain ⟨hgeneration, hseen⟩ := Prod.mk.inj (Option.some.inj h)
      exact ⟨course, population, hstage, hgeneration, hseen⟩
  · cases h

/-- From some step on a run is over. -/
theorem exists_over (settings : Settings α) (c : Collaborators α ω) (root : Node)
    (s : Search α ω) :
    ∃ last, ∀ n, last ≤ n →
      ((step settings c)^[n] (start root s)).search = (run settings c root s).2 ∧
        ((step settings c)^[n] (start root s)).stage = .over (run settings c root s).1 := by
  obtain ⟨last, ratings, hlast⟩ := iterate_step_start settings c root s
  refine ⟨last, fun n hn => ?_⟩
  rw [iterate_of_le (congrArg Moment.stage hlast) hn, hlast]
  exact ⟨rfl, rfl⟩

/-! ## A flag that is never set -/

/-- A run without a flag never finds one set. -/
theorem sees_of_uncancelled (h : ∀ memory, (c.cancelled memory).1 = false)
    (settings : Settings α) (root : Node) (s : Search α ω) :
    Sees settings c root s fun _ => false := by
  intro n generation seen hseen
  obtain ⟨course, population, -, -, rfl⟩ := exists_of_glance hseen
  exact h _

theorem next_unflagged {stage : Stage α} {s : Search α ω}
    (h : ∀ course population, stage = .between course population → course.remaining ≠ 0 →
      (isCancelled c s).1 = false) :
    stage.next settings c.unflagged s = stage.next settings c s := by
  match stage with
  | .between course population =>
    rw [Stage.next, Stage.next]
    cases hleft : course.remaining with
    | zero => rfl
    | succ remaining =>
      have hseen := h course population rfl (by rw [hleft]; exact Nat.succ_ne_zero remaining)
      have hasked : isCancelled c.unflagged s = (false, (isCancelled c s).2) := rfl
      simp only []
      rw [bind_apply, bind_apply, hasked, hseen]
  | .fresh root => rfl
  | .crossing course bred [] => rfl
  | .crossing course bred [a] => rfl
  | .crossing course bred (a :: b :: rest) => rfl
  | .varying course done [] => rfl
  | .varying course done (v :: todo) => rfl
  | .rating course done [] => rfl
  | .rating course done (v :: todo) => rfl
  | .batch course generation results [] => rfl
  | .batch course generation results (job :: jobs) => rfl
  | .over result => rfl

/-- A run that never finds its flag set goes on as if there were none. -/
theorem run_unflagged {root : Node} {s : Search α ω}
    (h : Sees settings c root s fun _ => false) :
    run settings c.unflagged root s = run settings c root s := by
  have hmoments (n : Nat) : (step settings c.unflagged)^[n] (start root s) =
      (step settings c)^[n] (start root s) := by
    induction n with
    | zero => rfl
    | succ n ih =>
      rw [Function.iterate_succ_apply', Function.iterate_succ_apply', ih, step, step,
        next_unflagged fun course population hm hleft => h n _ _ (glance_between hm hleft)]
  obtain ⟨last, hlast⟩ := exists_over settings c root s
  obtain ⟨last', hlast'⟩ := exists_over settings c.unflagged root s
  obtain ⟨hsame, hover⟩ := hlast (max last last') (le_max_left _ _)
  obtain ⟨hsame', hover'⟩ := hlast' (max last last') (le_max_right _ _)
  rw [hmoments] at hsame' hover'
  exact Prod.ext (Stage.over.inj (hover'.symm.trans hover)) (hsame'.symm.trans hsame)

/-! ## A flag that is set by the clock -/

/-- A clock that counts how often a team has looked at its flag, and the flag that is set by it.
Neither the executor nor the oracle touches the clock. -/
structure Clocked (c : Collaborators α ω)
    (replies : Node → Selection → ScratchFolder → Store α → Except TestRunError TestRun)
    (clock : ω → Nat) (flag : Nat → Bool) : Prop where
  executor : c.executor.Steadfast replies clock
  oracle : ∀ oracle, c.oracle = some oracle → ∀ root failing before,
    clock (oracle.propose root failing before).2.2 = clock before.2
  seen : ∀ memory, (c.cancelled memory).1 = flag (clock memory + 1)
  counted : ∀ memory, clock (c.cancelled memory).2 = clock memory + 1

/-- The time that the clock shows at a stage: the number of the generation that is being worked
on. -/
def Stage.Timed (time : Nat) : Stage α → Prop
  | .fresh _ => time = 0
  | .between course _ => course.generation = time + 1
  | .crossing course _ _ => course.generation = time
  | .varying course _ _ => course.generation = time
  | .rating course _ _ => course.generation = time
  | .batch course _ _ _ => course.generation = time
  | .over _ => True

/-- A moment is reached in time. -/
abbrev Timely (clock : ω → Nat) (after : (Stage α × Option (Rating α)) × Search α ω) : Prop :=
  after.1.1.Timed (clock after.2.bench.memory)

omit [Scalar α] [Root α] in
/-- What does not look at the memory does not change it either. -/
theorem memory_of_blind {β : Type} {x : StateM (Search α ω) β}
    (hx : ∀ disk memory, (Veil.elsewhere disk memory).Blind x x) (s : Search α ω) :
    (x s).2.bench.memory = s.bench.memory :=
  (congrArg (·.bench.memory) ((hx s.bench.disk s.bench.memory).own (s := s) rfl)).symm

omit [Scalar α] [Root α] in
theorem memory_consult (oracle : Oracle α ω) (v : Variant α) (s : Search α ω) :
    (consult oracle v s).2.bench.memory =
      (oracle.propose v.root v.failing (s.bench.store, s.bench.memory)).2.2 := by
  rcases hproposed : oracle.propose v.root v.failing (s.bench.store, s.bench.memory)
    with ⟨answer, store, memory⟩
  rw [consult_of_propose hproposed]
  rcases answer with e | root
  · rfl
  · cases root with
    | _ => rfl

variable {replies : Node → Selection → ScratchFolder → Store α → Except TestRunError TestRun}
  {clock : ω → Nat} {flag : Nat → Bool} {course : Course α}

omit [Root α] in
theorem timely_closing {population : List (Variant α)} {s : Search α ω}
    (hs : course.generation = clock s.bench.memory) (fix : Option (Variant α)) :
    (closing course population fix s).1.Timed
      (clock (closing course population fix s).2.bench.memory) := by
  cases fix with
  | some fix => trivial
  | none => exact congrArg (· + 1) hs

variable (hc : Clocked c replies clock flag)

include hc

omit [Root α] in
theorem clock_vary (v : Variant α) (s : Search α ω) :
    clock (vary settings c v s).2.bench.memory = clock s.bench.memory := by
  have hmutated (s : Search α ω) :=
    memory_of_blind (fun _ _ => Veil.blind_mutateByOperator settings v) s
  unfold vary
  cases horacle : c.oracle with
  | none => exact congrArg clock (hmutated s)
  | some oracle =>
    simp only []
    rw [bind_apply, withWords]
    generalize WordStream.chance settings.oracleProbability s.rng = drawn
    obtain ⟨asked, rng⟩ := drawn
    cases asked with
    | false => exact congrArg clock (hmutated { s with rng := rng })
    | true =>
      exact (congrArg clock (memory_consult oracle v { s with rng := rng })).trans
        (hc.oracle oracle horacle v.root v.failing (s.bench.store, s.bench.memory))

theorem timely_fresh (root : Node) {s : Search α ω} (hs : clock s.bench.memory = 0) :
    Timely clock ((Stage.fresh root).next settings c s) := by
  rw [Stage.next]
  cases hvalid : settings.validate with
  | error fault =>
    rw [opening, hvalid]
    trivial
  | ok _ =>
    have hclock := Bench.clock_establish hc.executor root s.bench
    rcases hes : s.bench.establish c.executor root with ⟨fault | a, b⟩
    · obtain ⟨result, s', hopening, -⟩ := opening_of_error hvalid hes
      rw [hopening]
      trivial
    · cases hb : b.evaluator.baseline with
      | none =>
        rw [opening_of_no_baseline hvalid hes hb]
        trivial
      | some base =>
        rw [hes, hs] at hclock
        rw [opening_of_ok hvalid hes hb, embark, bind_apply, bind_apply]
        split
        · trivial
        · show 1 = clock (b.offer _).memory + 1
          rw [Bench.offer_eq, hclock]

theorem timely_between {population : List (Variant α)} {s : Search α ω}
    (hs : course.generation = clock s.bench.memory + 1) :
    Timely clock ((Stage.between course population).next settings c s) := by
  rw [Stage.next]
  cases course.remaining with
  | zero => trivial
  | succ remaining =>
    simp only []
    rw [bind_apply]
    cases (isCancelled c s).1 with
    | true => trivial
    | false =>
      show course.generation = clock (selectParents settings population
        (enter course.generation (isCancelled c s).2).2).2.bench.memory
      rw [memory_of_blind fun _ _ => Veil.blind_selectParents settings population, hs]
      exact (hc.counted s.bench.memory).symm

omit hc in
theorem timely_crossing {bred parents : List (Variant α)} {s : Search α ω}
    (hs : course.generation = clock s.bench.memory) :
    Timely clock ((Stage.crossing course bred parents).next settings c s) := by
  have hlast (rest : List (Variant α)) : course.generation =
      clock (refill settings course.original (bred ++ rest) s).2.bench.memory := by
    rw [memory_of_blind fun _ _ => Veil.blind_refill settings course.original (bred ++ rest)]
    exact hs
  match parents with
  | [] => exact hlast []
  | [a] => exact hlast [a]
  | a :: b :: rest =>
    show course.generation = clock (crossPair a b s).2.bench.memory
    rw [memory_of_blind fun _ _ => Veil.blind_crossPair a b]
    exact hs

theorem timely_varying {done todo : List (Variant α)} {s : Search α ω}
    (hs : course.generation = clock s.bench.memory) :
    Timely clock ((Stage.varying course done todo).next settings c s) := by
  cases todo with
  | nil =>
    show (assessing settings c course done).Timed (clock s.bench.memory)
    unfold assessing
    split
    · exact hs
    · exact hs
  | cons v todo => exact hs.trans (clock_vary hc v s).symm

theorem timely_rating {done todo : List (Variant α)} {s : Search α ω}
    (hs : course.generation = clock s.bench.memory) :
    Timely clock ((Stage.rating course done todo).next settings c s) := by
  cases todo with
  | nil => exact timely_closing hs none
  | cons v todo =>
    rw [Stage.next]
    by_cases hv : v.fitness.isSome = true
    · rw [if_pos hv]
      exact hs
    · have hclock := Bench.clock_evaluate hc.executor v s.bench
      rw [if_neg hv, bind_apply]
      rcases hev : s.bench.evaluate c.executor v with ⟨e | ⟨a, w⟩, b⟩
      · rw [evaluateNext_of_error hev]
        trivial
      · rw [hev, ← hs] at hclock
        have hoffered : course.generation = clock (b.offer w).memory := by
          rw [Bench.offer_eq, hclock]
        rw [evaluateNext_of_ok hev]
        simp only []
        split
        · trivial
        · exact hoffered

theorem timely_batch {generation : List (Variant α)}
    {results : List (Nat × Except RepairFault (Variant α))} {jobs : List (Nat × Variant α)}
    {s : Search α ω} (hs : course.generation = clock s.bench.memory) :
    Timely clock ((Stage.batch course generation results jobs).next settings c s) := by
  cases jobs with
  | nil =>
    rw [Stage.next, bind_apply]
    cases settle results 0 generation with
    | error e => trivial
    | ok evaluated =>
      refine timely_closing ?_ _
      simp only [Bench.offers_eq]
      exact hs
  | cons entry jobs => exact hs.trans (Bench.clock_evaluate hc.executor entry.2 s.bench).symm

/-- Every step goes on in time. -/
theorem timely_next {stage : Stage α} {s : Search α ω} (h : stage.Timed (clock s.bench.memory)) :
    Timely clock (stage.next settings c s) := by
  cases stage with
  | fresh root => exact timely_fresh hc root h
  | between course population => exact timely_between hc h
  | crossing course bred parents => exact timely_crossing h
  | varying course done todo => exact timely_varying hc h
  | rating course done todo => exact timely_rating hc h
  | batch course generation results jobs => exact timely_batch hc h
  | _ => trivial

/-- If the clock is at zero at the start, then before each generation a run sees what the flag shows
at this number. -/
theorem sees_of_clock (settings : Settings α) (root : Node) {s : Search α ω}
    (hs : clock s.bench.memory = 0) : Sees settings c root s flag := by
  have htimed (n : Nat) : ((step settings c)^[n] (start root s)).stage.Timed
      (clock ((step settings c)^[n] (start root s)).search.bench.memory) := by
    induction n with
    | zero => exact hs
    | succ n ih =>
      rw [Function.iterate_succ_apply']
      exact timely_next hc ih
  intro n generation seen hseen
  obtain ⟨course, population, hstage, rfl, rfl⟩ := exists_of_glance hseen
  have hnow := htimed n
  rw [hstage] at hnow
  rw [show course.generation = _ from hnow]
  exact hc.seen _

end Search

end GeneticRepair
