import Mathlib.Data.List.Basic
import Mathlib.Logic.Function.Iterate
import GeneticRepair.Evolution.Run
import GeneticRepair.Proofs.Syntax.Growth

/-!
# `Proofs/Evolution/Steps.lean` — a run, step by step

`Search.run` goes from the settings to the report in one piece. What holds *during* a run is said of
a machine that stops after every selection, crossing, change and evaluation: a `Moment` is the
search with the variants that are in hand, and `step` goes on to the next one. A moment also keeps
the ratings given so far. The search never sees them; they are there to be talked about.

* `iterate_step_start`: the machine is the run. From the start it gets to the end with the report
  and the state that `Search.run` returns.
-/

set_option autoImplicit false

namespace GeneticRepair

namespace Search

/-! ## Moments -/

/-- A program that was evaluated, with what it got. -/
structure Rating (α : Type) where
  root : Node
  fitness : α
  failing : SortedSet TestId

/-- What does not change while a generation is worked on. -/
structure Course (α : Type) where
  original : Variant α
  maximum : α
  generation : Nat
  remaining : Nat

/-- Where a run is, with the variants in hand. -/
inductive Stage (α : Type) where
  /-- Nothing has been evaluated. -/
  | fresh (root : Node)
  /-- A population is complete. -/
  | between (course : Course α) (population : List (Variant α))
  /-- Pairs of parents are being crossed. -/
  | crossing (course : Course α) (bred parents : List (Variant α))
  /-- Variants are being changed. -/
  | varying (course : Course α) (done todo : List (Variant α))
  /-- Variants are being evaluated in turn. -/
  | rating (course : Course α) (done todo : List (Variant α))
  /-- Variants are being evaluated as a batch. -/
  | batch (course : Course α) (generation : List (Variant α))
    (results : List (Nat × Except RepairFault (Variant α))) (jobs : List (Nat × Variant α))
  /-- The run has ended. -/
  | over (result : Except RepairFault (RunReport α))

/-- A point of a run. -/
structure Moment (α ω : Type) where
  search : Search α ω
  stage : Stage α
  ratings : List (Rating α)

variable {α ω : Type}

theorem onBench_eq {β : Type} {f : Bench α ω → β × Bench α ω} {s s' : Search α ω} {answer : β}
    {b : Bench α ω} (h : f s.bench = (answer, b)) (hs : s'.bench = s.bench) :
    onBench f s' = (answer, { s' with bench := b }) := by
  rw [onBench, hs, h]

/-- A search after the first run: one number has been drawn, and nothing has been counted. -/
def outset (seed : UInt64) (b : Bench α ω) : Search α ω := ⟨b, .ofSeed seed, 1, .idle, .zero⟩

@[simp] theorem bench_outset (seed : UInt64) (b : Bench α ω) : (outset seed b).bench = b := rfl

/-- The restart before the first run leaves the bench alone. -/
theorem restart_eq (seed : UInt64) (s : Search α ω) :
    (nextNumber ((modify (restart seed) : StateM (Search α ω) Unit) s).2).2 =
      outset seed s.bench := rfl

theorem onBench_outset {β : Type} {f : Bench α ω → β × Bench α ω} {b b' : Bench α ω} {answer : β}
    (h : f b = (answer, b')) (seed : UInt64) :
    onBench f (outset seed b) = (answer, outset seed b') :=
  onBench_eq h rfl

/-- What comes of a question to the oracle. -/
def answered (v : Variant α) (asked : Search α ω) :
    Except OracleError (Option Node) → Variant α × Search α ω
  | .ok (some root) => ((v.become root "oracle patch").markStale, asked)
  | _ => (v, { asked with
      stats := { asked.stats with oracleMisses := asked.stats.oracleMisses + 1 } })

theorem consult_of_propose {oracle : Oracle α ω} {v : Variant α} {s : Search α ω}
    {answer : Except OracleError (Option Node)} {store : Store α} {memory : ω}
    (h : oracle.propose v.root v.failing (s.bench.store, s.bench.memory) =
      (answer, store, memory)) :
    consult oracle v s = answered v
      { s with
        bench := { s.bench with store := store, memory := memory }
        stats := { s.stats with oracleCalls := s.stats.oracleCalls + 1 } } answer := by
  have hasked (s' : Search α ω) (hs' : s'.bench = s.bench) :
      oracle.propose v.root v.failing (s'.bench.store, s'.bench.memory) =
        (answer, store, memory) := by
    rw [hs']
    exact h
  unfold consult
  rw [bind_apply, bind_apply, onBench, hasked]
  · rcases answer with e | root
    · rfl
    · cases root with
      | _ => rfl
  · rfl

/-- The jobs of a batch, in any order, are some variants under their places. -/
theorem jobs_spec (schedule : Schedule) (number : Nat) (vs : List (Variant α)) :
    ((schedule.order number vs.length).filterMap fun job => vs[job]?.map (job, ·)).map (·.1) =
        schedule.order number vs.length ∧
      ∀ entry ∈ (schedule.order number vs.length).filterMap fun job => vs[job]?.map (job, ·),
        vs[entry.1]? = some entry.2 := by
  constructor
  · rw [List.map_filterMap]
    refine (List.filterMap_congr fun job hjob => ?_).trans List.filterMap_some
    have hplace : job < vs.length :=
      List.mem_range.mp ((schedule.perm number vs.length).mem_iff.mp hjob)
    simp only [List.getElem?_eq_getElem hplace, Option.map_some]
  · intro entry hentry
    obtain ⟨job, -, hjob⟩ := List.mem_filterMap.mp hentry
    obtain ⟨v, hv, rfl⟩ := Option.map_eq_some_iff.mp hjob
    exact hv

variable [Scalar α]

/-- Starts from a program that has been evaluated. -/
def embark (settings : Settings α) (original : Variant α) (maximum : α) :
    StateM (Search α ω) (Stage α) := do
  onBench fun b => ((), b.offer original)
  record fun t => { t with history := t.history ++ [fitnessOrZero original] }
  if isRepair maximum original then
    return .over (.ok (← conclude .repaired original maximum))
  else return .between ⟨original, maximum, 1, settings.maxGenerations⟩ []

/-- Ends a run without a fix, with the best variant there is. -/
def giveUp (outcome : Outcome) (course : Course α) : StateM (Search α ω) (Stage α) := do
  let best ← bestOr course.original
  return .over (.ok (← conclude outcome best course.maximum))

/-- What comes after the evaluation of a generation. -/
def closing (course : Course α) (population : List (Variant α)) :
    Option (Variant α) → StateM (Search α ω) (Stage α)
  | some fix => do return .over (.ok (← conclude .repaired fix course.maximum))
  | none => do
    recordBest
    return .between { course with generation := course.generation + 1 } population

/-- The evaluation of a generation before its first step. -/
def assessing (settings : Settings α) (c : Collaborators α ω) (course : Course α)
    (generation : List (Variant α)) : Stage α :=
  if settings.parallel then
    let unscored := generation.filter (·.fitness.isNone)
    .batch course generation []
      ((c.schedule.order course.generation unscored.length).filterMap fun job =>
        unscored[job]?.map (job, ·))
  else .rating course [] generation

/-- Where an evaluated generation leads to. -/
def settled (course : Course α) (done : List (Variant α)) :
    Except RepairFault (Evaluated α) → StateM (Search α ω) (Stage α)
  | .error e => return .over (.error e)
  | .ok (vs, fix) => closing course (done ++ vs) fix

theorem settled_map_cons (course : Course α) (done : List (Variant α)) (v : Variant α)
    (answer : Except RepairFault (Evaluated α)) :
    (settled course done (answer.map fun (vs, fix) => (v :: vs, fix)) :
        StateM (Search α ω) (Stage α)) =
      settled course (done ++ [v]) answer := by
  cases answer with
  | error e => rfl
  | ok evaluated =>
    show closing course (done ++ v :: evaluated.1) evaluated.2 =
      closing course ((done ++ [v]) ++ evaluated.1) evaluated.2
    rw [List.append_assoc]
    rfl

variable [Root α]

/-- The first run and what is decided on its outcome. -/
def opening (settings : Settings α) (c : Collaborators α ω) (root : Node) :
    StateM (Search α ω) (Stage α × Option (Rating α)) := do
  match settings.validate with
  | .error fault => return (.over (.error (.badSetting fault)), none)
  | .ok () =>
    modify (restart (settings.seed.getD c.seed))
    let baseline := Variant.new (← nextNumber) root
    match ← onBench (Bench.establish c.executor root) with
    | .error (.unfitBaseline _) =>
      return (.over (.ok (← conclude .unfit baseline 0)), none)
    | .error e => return (.over (.error e), none)
    | .ok assessment =>
      match (← get).bench.evaluator.baseline with
      | none => return (.over (.error .noBaseline), none)
      | some base =>
        let original := baseline.assess assessment.fitness assessment.failing
        return (← embark settings original base.maximum,
          some ⟨root, assessment.fitness, assessment.failing⟩)

/-- Evaluates a variant, counts it and offers it. -/
def evaluateNext (c : Collaborators α ω) (v : Variant α) :
    StateM (Search α ω) (Except RepairFault (Assessment α × Variant α)) := do
  match ← onBench (Bench.evaluate c.executor v) with
  | .error e => return .error e
  | .ok (a, v') =>
    record fun t => { t with evaluations := t.evaluations + 1 }
    onBench fun b => ((), b.offer v')
    return .ok (a, v')

/-- One step of a run, and the rating that it gave. -/
def Stage.next (settings : Settings α) (c : Collaborators α ω) :
    Stage α → StateM (Search α ω) (Stage α × Option (Rating α))
  | .fresh root => opening settings c root
  | .between course population =>
    match course.remaining with
    | 0 => do return (← giveUp .exhausted course, none)
    | remaining + 1 => do
      if ← isCancelled c then return (← giveUp .cancelled course, none)
      else
        enter course.generation
        let parents ← selectParents settings population
        return (.crossing { course with remaining := remaining } [] parents, none)
  | .crossing course bred (a :: b :: rest) => do
    let family ← crossPair a b
    return (.crossing course (bred ++ family) rest, none)
  | .crossing course bred rest => do
    let full ← refill settings course.original (bred ++ rest)
    return (.varying course [] full, none)
  | .varying course done (v :: todo) => do
    let v ← vary settings c v
    return (.varying course (done ++ [v]) todo, none)
  | .varying course done [] => return (assessing settings c course done, none)
  | .rating course done (v :: todo) =>
    if v.fitness.isSome then return (.rating course (done ++ [v]) todo, none)
    else do
      match ← evaluateNext c v with
      | .error e => return (.over (.error e), none)
      | .ok (a, v') =>
        let rating : Rating α := ⟨v.root, a.fitness, a.failing⟩
        if isRepair course.maximum v' then
          return (← closing course (done ++ v' :: todo) (some v'), some rating)
        else return (.rating course (done ++ [v']) todo, some rating)
  | .rating course done [] => do return (← closing course done none, none)
  | .batch course generation results ((job, v) :: jobs) => do
    let result ← onBench (Bench.evaluate c.executor v)
    let rating : Option (Rating α) := result.toOption.map fun (a, _) =>
      ⟨v.root, a.fitness, a.failing⟩
    return (.batch course generation (results ++ [(job, result.map (·.2))]) jobs, rating)
  | .batch course generation results [] => do
    record fun t =>
      { t with evaluations := t.evaluations + (generation.filter (·.fitness.isNone)).length }
    match settle results 0 generation with
    | .error e => return (.over (.error e), none)
    | .ok evaluated =>
      onBench fun b => ((), evaluated.foldl Bench.offer b)
      return (← closing course evaluated (evaluated.find? (isRepair course.maximum)), none)
  | .over result => return (.over result, none)

/-- Goes on to the next moment. After the end nothing happens any more. -/
def step (settings : Settings α) (c : Collaborators α ω) (m : Moment α ω) : Moment α ω :=
  let ((stage, rating), search) := m.stage.next settings c m.search
  ⟨search, stage, m.ratings ++ rating.toList⟩

/-- The moment before a run. -/
def start (root : Node) (s : Search α ω) : Moment α ω := ⟨s, .fresh root, []⟩

/-! ## Where ratings come from -/

/-- An evaluation on the bench as it is now gives the rating, be it the first run or a later one. -/
def Rates (c : Collaborators α ω) (s : Search α ω) (r : Rating α) : Prop :=
  (∃ a b, s.bench.establish c.executor r.root = (.ok a, b) ∧
    a.fitness = r.fitness ∧ a.failing = r.failing) ∨
  ∃ v v' a b, v.root = r.root ∧ s.bench.evaluate c.executor v = (.ok (a, v'), b) ∧
    a.fitness = r.fitness ∧ a.failing = r.failing

theorem evaluateNext_of_error {c : Collaborators α ω} {s : Search α ω} {v : Variant α}
    {e : RepairFault} {b : Bench α ω} (h : s.bench.evaluate c.executor v = (.error e, b)) :
    evaluateNext c v s = (.error e, { s with bench := b }) := by
  rw [evaluateNext, bind_apply, onBench_eq h rfl]
  rfl

theorem evaluateNext_of_ok {c : Collaborators α ω} {s : Search α ω} {v v' : Variant α}
    {a : Assessment α} {b : Bench α ω}
    (h : s.bench.evaluate c.executor v = (.ok (a, v'), b)) :
    evaluateNext c v s = (.ok (a, v'),
      { s with
        bench := b.offer v'
        stats := { s.stats with evaluations := s.stats.evaluations + 1 } }) := by
  rw [evaluateNext, bind_apply, onBench_eq h rfl]
  rfl

/-! ### The first run -/

section

variable {settings : Settings α} {c : Collaborators α ω} {root : Node} {s : Search α ω}
  {b : Bench α ω}

/-- A first run that fails ends the run without a repair. -/
theorem opening_of_error (hvalid : settings.validate = .ok ()) {fault : RepairFault}
    (hes : s.bench.establish c.executor root = (.error fault, b)) :
    ∃ result s', opening settings c root s = ((.over result, none), s') ∧ s'.bench = b ∧
      ∀ report, result = .ok report →
        report.outcome = .unfit ∧ report.best.fitness = none ∧ report.stats = .zero := by
  rw [opening, hvalid]
  simp only []
  rw [bind_apply, bind_apply, restart_eq, bind_apply, onBench_outset hes]
  cases fault with
  | unfitBaseline cause =>
    refine ⟨_, _, rfl, rfl, fun report hreport => ?_⟩
    obtain rfl := Except.ok.inj hreport
    exact ⟨rfl, rfl, rfl⟩
  | _ => exact ⟨_, _, rfl, rfl, fun report hreport => by cases hreport⟩

theorem opening_of_no_baseline (hvalid : settings.validate = .ok ()) {a : Assessment α}
    (hes : s.bench.establish c.executor root = (.ok a, b)) (hb : b.evaluator.baseline = none) :
    opening settings c root s =
      ((.over (.error .noBaseline), none), outset (settings.seed.getD c.seed) b) := by
  have hget : ∀ s' : Search α ω, (get : StateM (Search α ω) _) s' = (s', s') := fun _ => rfl
  rw [opening, hvalid]
  simp only []
  rw [bind_apply, bind_apply, restart_eq, bind_apply, onBench_outset hes]
  simp only []
  rw [bind_apply get, hget]
  simp only [bench_outset, hb]
  rfl

theorem opening_of_ok (hvalid : settings.validate = .ok ()) {a : Assessment α}
    {base : Baseline α} (hes : s.bench.establish c.executor root = (.ok a, b))
    (hb : b.evaluator.baseline = some base) :
    let embarked := embark settings ((Variant.new 0 root).assess a.fitness a.failing)
      base.maximum (outset (settings.seed.getD c.seed) b)
    opening settings c root s =
      ((embarked.1, some ⟨root, a.fitness, a.failing⟩), embarked.2) := by
  have hget : ∀ s' : Search α ω, (get : StateM (Search α ω) _) s' = (s', s') := fun _ => rfl
  rw [opening, hvalid]
  simp only []
  rw [bind_apply, bind_apply, restart_eq, bind_apply, onBench_outset hes]
  simp only []
  rw [bind_apply get, hget]
  simp only [bench_outset, hb]
  rfl

/-- A first run that fails decides the whole run. -/
theorem run_of_error (hvalid : settings.validate = .ok ()) {fault : RepairFault}
    (hes : s.bench.establish c.executor root = (.error fault, b)) :
    (run settings c root s).1 =
      match fault with
      | .unfitBaseline _ => .ok ⟨.unfit, .new 0 root, 0, 0, .zero⟩
      | fault => .error fault := by
  rw [run, hvalid]
  simp only []
  rw [bind_apply, bind_apply, restart_eq, bind_apply, onBench_outset hes]
  cases fault with
  | _ => rfl

/-- After the first run the search starts from its baseline. -/
theorem run_of_ok (hvalid : settings.validate = .ok ()) {a : Assessment α} {base : Baseline α}
    (hes : s.bench.establish c.executor root = (.ok a, b))
    (hb : b.evaluator.baseline = some base) :
    run settings c root s =
      searchFrom settings c ((Variant.new 0 root).assess a.fitness a.failing) base.maximum
        (outset (settings.seed.getD c.seed) b) := by
  have hget : ∀ s' : Search α ω, (get : StateM (Search α ω) _) s' = (s', s') := fun _ => rfl
  rw [run, hvalid]
  simp only []
  rw [bind_apply, bind_apply, restart_eq, bind_apply, onBench_outset hes]
  simp only []
  rw [bind_apply get, hget]
  simp only [bench_outset, hb]
  rfl

end

/-! ### Stage by stage -/

section

variable {settings : Settings α} {c : Collaborators α ω} {course : Course α}
  {done generation population todo : List (Variant α)} {s : Search α ω} {r : Rating α}

theorem rates_of_opening {root : Node} (h : (opening settings c root s).1.2 = some r) :
    Rates c s r := by
  cases hvalid : settings.validate with
  | error fault =>
    rw [opening, hvalid] at h
    cases h
  | ok _ =>
    rcases hes : s.bench.establish c.executor root with ⟨fault | a, b⟩
    · obtain ⟨result, s', hopening, -⟩ := opening_of_error hvalid hes
      rw [hopening] at h
      cases h
    · cases hb : b.evaluator.baseline with
      | none =>
        rw [opening_of_no_baseline hvalid hes hb] at h
        cases h
      | some base =>
        rw [opening_of_ok hvalid hes hb] at h
        obtain rfl := Option.some.inj h
        exact .inl ⟨a, b, hes, rfl, rfl⟩

theorem no_rating_between : ((Stage.between course population).next settings c s).1.2 = none := by
  rw [Stage.next]
  cases course.remaining with
  | zero => rfl
  | succ remaining =>
    simp only []
    rw [bind_apply]
    cases (isCancelled c s).1 with
    | true => rfl
    | false => rfl

theorem rates_of_turn {v : Variant α}
    (h : ((Stage.rating course done (v :: todo)).next settings c s).1.2 = some r) :
    Rates c s r := by
  rw [Stage.next] at h
  by_cases hv : v.fitness.isSome = true
  · rw [if_pos hv] at h
    cases h
  · rw [if_neg hv, bind_apply] at h
    rcases hev : s.bench.evaluate c.executor v with ⟨e | ⟨a, v'⟩, b⟩
    · rw [evaluateNext_of_error hev] at h
      cases h
    · rw [evaluateNext_of_ok hev] at h
      simp only [] at h
      refine .inr ⟨v, v', a, b, ?_⟩
      -- the rating is the same whether or not it ends the generation
      split at h
      · obtain rfl := Option.some.inj h
        exact ⟨rfl, hev, rfl, rfl⟩
      · obtain rfl := Option.some.inj h
        exact ⟨rfl, hev, rfl, rfl⟩

theorem rates_of_job {results : List (Nat × Except RepairFault (Variant α))}
    {jobs : List (Nat × Variant α)} {job : Nat × Variant α}
    (h : ((Stage.batch course generation results (job :: jobs)).next settings c s).1.2 = some r) :
    Rates c s r := by
  obtain ⟨job, v⟩ := job
  rcases hev : s.bench.evaluate c.executor v with ⟨answer, b⟩
  rw [Stage.next, bind_apply, onBench_eq hev rfl] at h
  cases answer with
  | error e => cases h
  | ok answer =>
    obtain rfl := Option.some.inj h
    exact .inr ⟨v, answer.2, answer.1, b, rfl, hev, rfl, rfl⟩

theorem no_rating_settling {results : List (Nat × Except RepairFault (Variant α))} :
    ((Stage.batch course generation results []).next settings c s).1.2 = none := by
  rw [Stage.next, bind_apply]
  cases settle results 0 generation with
  | error e => rfl
  | ok evaluated => rfl

theorem rates_of_next {stage : Stage α} (h : (stage.next settings c s).1.2 = some r) :
    Rates c s r := by
  match stage with
  | .fresh root => exact rates_of_opening h
  | .between course population =>
    rw [no_rating_between] at h
    cases h
  | .crossing course bred [] => cases h
  | .crossing course bred [a] => cases h
  | .crossing course bred (a :: b :: rest) => cases h
  | .varying course done [] => cases h
  | .varying course done (v :: todo) => cases h
  | .rating course done [] => cases h
  | .rating course done (v :: todo) => exact rates_of_turn h
  | .batch course generation results [] =>
    rw [no_rating_settling] at h
    cases h
  | .batch course generation results (job :: jobs) => exact rates_of_job h
  | .over result => cases h

end

/-- Every rating so far was given at some earlier moment of the run. -/
theorem exists_rates {settings : Settings α} {c : Collaborators α ω} {root : Node}
    {s : Search α ω} {r : Rating α} (n : Nat)
    (h : r ∈ ((step settings c)^[n] (start root s)).ratings) :
    ∃ k < n, Rates c ((step settings c)^[k] (start root s)).search r := by
  induction n with
  | zero => exact absurd h List.not_mem_nil
  | succ n ih =>
    rw [Function.iterate_succ_apply'] at h
    obtain h | h := List.mem_append.mp h
    · obtain ⟨k, hk, hr⟩ := ih h
      exact ⟨k, Nat.lt_succ_of_lt hk, hr⟩
    · exact ⟨n, Nat.lt_succ_self n, rates_of_next (Option.mem_toList.mp h)⟩

/-! ## From stage to stage -/

/-- Some steps go from one stage to the other, whatever has been rated before. -/
def Leads (settings : Settings α) (c : Collaborators α ω) (p q : Stage α × Search α ω) : Prop :=
  ∀ ratings, ∃ n ratings', (step settings c)^[n] ⟨p.2, p.1, ratings⟩ = ⟨q.2, q.1, ratings'⟩

variable {settings : Settings α} {c : Collaborators α ω}

namespace Leads

theorem refl (p : Stage α × Search α ω) : Leads settings c p p := fun ratings => ⟨0, ratings, rfl⟩

theorem trans {p q r : Stage α × Search α ω} (h : Leads settings c p q)
    (h' : Leads settings c q r) : Leads settings c p r := by
  intro ratings
  obtain ⟨n, mid, hn⟩ := h ratings
  obtain ⟨k, ratings', hk⟩ := h' mid
  refine ⟨k + n, ratings', ?_⟩
  rw [Function.iterate_add_apply, hn, hk]

theorem next (stage : Stage α) (s : Search α ω) :
    Leads settings c (stage, s) ((stage.next settings c s).1.1, (stage.next settings c s).2) :=
  fun _ => ⟨1, _, rfl⟩

/-- One step and then some more. -/
theorem cons {stage : Stage α} {s : Search α ω} {q : Stage α × Search α ω}
    (h : Leads settings c ((stage.next settings c s).1.1, (stage.next settings c s).2) q) :
    Leads settings c (stage, s) q := trans (next stage s) h

end Leads

/-! ## The loops of a generation -/

theorem leads_crossPairs (course : Course α) (bred parents : List (Variant α)) (s : Search α ω) :
    Leads settings c (.crossing course bred parents, s) ((do
      let others ← crossPairs parents
      let full ← refill settings course.original (bred ++ others)
      return Stage.varying course [] full) s) := by
  induction parents using crossPairs.induct generalizing bred s with
  | case1 a b rest ih =>
    have h := ih (bred ++ (crossPair a b s).1) (crossPair a b s).2
    simp only [List.append_assoc] at h
    exact .cons h
  | case2 rest h =>
    -- fewer than two are left, so the loop is at its end
    cases rest with
    | nil => exact .next _ s
    | cons a rest =>
      cases rest with
      | nil => exact .next _ s
      | cons b rest => exact (h a b rest rfl).elim

theorem leads_varyAll (course : Course α) (done todo : List (Variant α)) (s : Search α ω) :
    Leads settings c (.varying course done todo, s) ((do
      let varied ← varyAll settings c todo
      return assessing settings c course (done ++ varied)) s) := by
  induction todo generalizing done s with
  | nil =>
    show Leads settings c _ (assessing settings c course (done ++ []), s)
    rw [List.append_nil]
    exact .next _ s
  | cons v todo ih =>
    have h := ih (done ++ [(vary settings c v s).1]) (vary settings c v s).2
    simp only [List.append_assoc] at h
    exact .cons h

theorem evaluateInTurn_of_isSome {maximum : α} {v : Variant α} (hv : v.fitness.isSome = true)
    (vs : List (Variant α)) :
    evaluateInTurn c maximum (v :: vs) = do
      let rest ← evaluateInTurn c maximum vs
      return rest.map fun (vs, fix) => (v :: vs, fix) := by
  rw [evaluateInTurn, if_pos hv]

theorem evaluateInTurn_of_isNone {maximum : α} {v : Variant α} (hv : v.fitness.isSome ≠ true)
    (vs : List (Variant α)) :
    evaluateInTurn c maximum (v :: vs) = do
      match ← evaluateNext c v with
      | .error e => return .error e
      | .ok (_, v') =>
        if isRepair maximum v' then return .ok (v' :: vs, some v')
        else
          let rest ← evaluateInTurn c maximum vs
          return rest.map fun (vs, fix) => (v' :: vs, fix) := by
  funext s
  rw [evaluateInTurn, if_neg hv, evaluateNext, bind_apply, bind_apply, bind_apply]
  generalize onBench (Bench.evaluate c.executor v) s = ran
  rcases ran with ⟨e | ⟨a, v'⟩, s'⟩
  · rfl
  · rfl

theorem leads_evaluateInTurn (course : Course α) (done todo : List (Variant α))
    (s : Search α ω) :
    Leads settings c (.rating course done todo, s) ((do
      let answer ← evaluateInTurn c course.maximum todo
      settled course done answer) s) := by
  induction todo generalizing done s with
  | nil =>
    show Leads settings c _ (closing course (done ++ []) none s)
    rw [List.append_nil]
    exact .next _ s
  | cons v todo ih =>
    refine .cons ?_
    by_cases hv : v.fitness.isSome = true
    · have h := ih (done ++ [v]) s
      simp only [← settled_map_cons] at h
      rw [Stage.next, if_pos hv, evaluateInTurn_of_isSome hv]
      exact h
    · rw [Stage.next, if_neg hv, evaluateInTurn_of_isNone hv, bind_apply, bind_apply,
        bind_apply (evaluateNext c v)]
      generalize evaluateNext c v s = ran
      rcases ran with ⟨e | ⟨a, v'⟩, s'⟩
      · exact .refl _
      · simp only []
        by_cases hr : isRepair course.maximum v' = true
        · simp only [hr, if_true]
          exact .refl _
        · have h := ih (done ++ [v']) s'
          simp only [← settled_map_cons] at h
          simp only [hr, if_false, Bool.false_eq_true]
          exact h

theorem leads_evaluateJobs (course : Course α) (generation : List (Variant α))
    (results : List (Nat × Except RepairFault (Variant α))) (jobs : List (Nat × Variant α))
    (s : Search α ω) :
    Leads settings c (.batch course generation results jobs, s) ((do
      let rest ← evaluateJobs c jobs
      return Stage.batch course generation (results ++ rest) []) s) := by
  induction jobs generalizing results s with
  | nil =>
    show Leads settings c _ (.batch course generation (results ++ []) [], s)
    rw [List.append_nil]
    exact .refl _
  | cons job jobs ih =>
    have h := ih (results ++ [(job.1, (onBench (Bench.evaluate c.executor job.2) s).1.map (·.2))])
      (onBench (Bench.evaluate c.executor job.2) s).2
    simp only [List.append_assoc] at h
    exact .cons h

theorem leads_evaluateGeneration (course : Course α) (generation : List (Variant α))
    (s : Search α ω) :
    Leads settings c (assessing settings c course generation, s) ((do
      let answer ← evaluateGeneration settings c course.maximum course.generation generation
      settled course [] answer) s) := by
  rw [assessing, evaluateGeneration]
  by_cases hp : settings.parallel = true
  · rw [if_pos hp, if_pos hp, evaluateBatch]
    refine (leads_evaluateJobs course generation [] _ s).trans (.cons ?_)
    rw [bind_apply, bind_apply]
    generalize evaluateJobs c _ s = ran
    rcases ran with ⟨results, s'⟩
    rw [List.nil_append, Stage.next, bind_apply, bind_apply (record _)]
    cases settle results 0 generation with
    | error e => exact .refl _
    | ok evaluated => exact .refl _
  · rw [if_neg hp, if_neg hp]
    exact leads_evaluateInTurn course [] generation s

theorem leads_nextGeneration (course : Course α) (population : List (Variant α))
    (s : Search α ω) :
    Leads settings c
      (.crossing course [] (selectParents settings population s).1,
        (selectParents settings population s).2) ((do
      let next ← nextGeneration settings c course.original population
      return assessing settings c course next) s) := by
  have hcross : Leads settings c _ _ := leads_crossPairs course []
    (selectParents settings population s).1 (selectParents settings population s).2
  exact hcross.trans (leads_varyAll course [] _ _)

theorem leads_generation (course : Course α) (population : List (Variant α)) (s : Search α ω) :
    Leads settings c
      (.crossing course [] (selectParents settings population s).1,
        (selectParents settings population s).2) ((do
      let next ← nextGeneration settings c course.original population
      let answer ← evaluateGeneration settings c course.maximum course.generation next
      settled course [] answer) s) :=
  (leads_nextGeneration course population s).trans (leads_evaluateGeneration course _ _)

/-- A generation that nobody cancels is bred and handed over to be evaluated. -/
theorem leads_handed {original : Variant α} {maximum : α} {generation remaining : Nat}
    {population : List (Variant α)} {s : Search α ω} (h : (isCancelled c s).1 = false) :
    let bred := nextGeneration settings c original population
      (enter generation (isCancelled c s).2).2
    Leads settings c (.between ⟨original, maximum, generation, remaining + 1⟩ population, s)
      (assessing settings c ⟨original, maximum, generation, remaining⟩ bred.1, bred.2) := by
  refine .cons ?_
  rw [Stage.next]
  simp only []
  rw [bind_apply, h]
  exact leads_nextGeneration ⟨original, maximum, generation, remaining⟩ population _

/-! ## The whole run -/

/-- What comes after the evaluation of a generation, for the rest of a run at once. -/
def proceed (settings : Settings α) (c : Collaborators α ω) (original : Variant α) (maximum : α)
    (generation remaining : Nat) :
    Except RepairFault (Evaluated α) → StateM (Search α ω) (Except RepairFault (RunReport α))
  | .error e => return .error e
  | .ok (_, some fix) => do return .ok (← conclude .repaired fix maximum)
  | .ok (next, none) => do
    recordBest
    evolve settings c original maximum (generation + 1) next remaining

/-- A generation of a run that nobody cancels. -/
theorem evolve_of_continues {original : Variant α} {maximum : α} {generation remaining : Nat}
    {population : List (Variant α)} {s : Search α ω} (h : (isCancelled c s).1 = false) :
    evolve settings c original maximum generation population (remaining + 1) s =
      let bred := nextGeneration settings c original population
        (enter generation (isCancelled c s).2).2
      let assessed := evaluateGeneration settings c maximum generation bred.1 bred.2
      proceed settings c original maximum generation remaining assessed.1 assessed.2 := by
  rw [evolve, bind_apply, h]
  simp only [Bool.false_eq_true, if_false, bind_apply]
  generalize evaluateGeneration settings c maximum generation _ _ = assessed
  rcases assessed with ⟨e | ⟨next, fix⟩, s'⟩
  · rfl
  · cases fix with
    | some fix => rfl
    | none => rfl

theorem leads_evolve (original : Variant α) (maximum : α) (generation : Nat)
    (population : List (Variant α)) (remaining : Nat) (s : Search α ω) :
    Leads settings c (.between ⟨original, maximum, generation, remaining⟩ population, s) ((do
      let result ← evolve settings c original maximum generation population remaining
      return Stage.over result) s) := by
  induction remaining generalizing generation population s with
  | zero => exact .next _ s
  | succ remaining ih =>
    refine .cons ?_
    rw [evolve, Stage.next, bind_apply, bind_apply]
    simp only []
    rw [bind_apply (isCancelled c)]
    generalize isCancelled c s = asked
    rcases asked with ⟨cancelled, s'⟩
    cases cancelled with
    | true => exact .refl _
    | false =>
      refine .trans (leads_generation ⟨original, maximum, generation, remaining⟩ population
        (enter generation s').2) ?_
      simp only [bind_apply, if_false, Bool.false_eq_true]
      generalize evaluateGeneration settings c maximum _ _ _ = answer
      rcases answer with ⟨e | ⟨next, fix⟩, s''⟩
      · exact .refl _
      · cases fix with
        | some fix => exact .refl _
        | none => exact ih (generation + 1) next (recordBest s'').2

theorem leads_searchFrom (original : Variant α) (maximum : α) (s : Search α ω) :
    Leads settings c (embark settings original maximum s) ((do
      let result ← searchFrom settings c original maximum
      return Stage.over result) s) := by
  rw [embark, searchFrom]
  simp only [bind_apply]
  by_cases hr : isRepair maximum original = true
  · simp only [hr, if_true]
    exact .refl _
  · simp only [hr, if_false, Bool.false_eq_true]
    exact leads_evolve original maximum 1 [] settings.maxGenerations _

theorem leads_run (root : Node) (s : Search α ω) :
    Leads settings c (.fresh root, s) ((do
      let result ← run settings c root
      return Stage.over result) s) := by
  refine .cons ?_
  rw [Stage.next, opening, run]
  cases settings.validate with
  | error fault => exact .refl _
  | ok _ =>
    simp only [bind_apply]
    generalize onBench (Bench.establish c.executor root) _ = first
    rcases first with ⟨e | a, s'⟩
    · cases e with
      | unfitBaseline cause => exact .refl _
      | _ => exact .refl _
    · have hget : (get : StateM (Search α ω) (Search α ω)) s' = (s', s') := rfl
      simp only []
      rw [bind_apply, bind_apply get, hget]
      simp only []
      cases s'.bench.evaluator.baseline with
      | none => exact .refl _
      | some base => exact leads_searchFrom _ _ s'

/-- A run is a number of steps. -/
theorem iterate_step_start (settings : Settings α) (c : Collaborators α ω) (root : Node)
    (s : Search α ω) :
    ∃ n ratings, (step settings c)^[n] (start root s) =
      ⟨(run settings c root s).2, .over (run settings c root s).1, ratings⟩ :=
  leads_run root s []

theorem iterate_of_over {m : Moment α ω} {result : Except RepairFault (RunReport α)}
    (h : m.stage = .over result) (k : Nat) : (step settings c)^[k] m = m := by
  induction k with
  | zero => rfl
  | succ k ih =>
    rw [Function.iterate_succ_apply', ih]
    obtain ⟨s, stage, ratings⟩ := m
    obtain rfl : stage = .over result := h
    show Moment.mk s (.over result) (ratings ++ []) = _
    rw [List.append_nil]

theorem iterate_of_le {m : Moment α ω} {n k : Nat} {result : Except RepairFault (RunReport α)}
    (h : ((step settings c)^[n] m).stage = .over result) (hle : n ≤ k) :
    (step settings c)^[k] m = (step settings c)^[n] m := by
  rw [← Nat.sub_add_cancel hle, Function.iterate_add_apply, iterate_of_over h]

/-- A run ends once. -/
theorem eq_of_over {root : Node} {s : Search α ω} {n k : Nat}
    {result result' : Except RepairFault (RunReport α)}
    (hn : ((step settings c)^[n] (start root s)).stage = .over result)
    (hk : ((step settings c)^[k] (start root s)).stage = .over result') :
    (step settings c)^[n] (start root s) = (step settings c)^[k] (start root s) := by
  obtain hle | hle := Nat.le_total n k
  · exact (iterate_of_le hn hle).symm
  · exact iterate_of_le hk hle

end Search

end GeneticRepair
