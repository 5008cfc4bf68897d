import GeneticRepair.Proofs.Evolution.Heredity
import GeneticRepair.Proofs.Evolution.Passage

/-!
# `Proofs/Evolution/Relay.lean` — how a step hands the variants on

`Passage` lists the steps of a run with their numbers and counters. `Relay` lists them again with the
programs: what a step makes of the variants in hand, of the evaluator and of the store of nodes, and
which rating it gives. `relay` says that there is no other step, and an invariant of the variants of
a run is proved by cases on it, without a definition being opened (`relay_iterate`).

How a run ends is of no interest here, so all steps that lead there are one case (`ended`).
-/

set_option autoImplicit false

namespace GeneticRepair

variable {α ω : Type}

namespace Variant

/-- The variant has the program of the other one, and what is known of that program. -/
structure Copies (v w : Variant α) : Prop where
  root_eq : v.root = w.root
  fitness_eq : v.fitness = w.fitness
  failing_eq : v.failing = w.failing

/-- The variant has a program of its own, which has not been evaluated, and the failing tests of the
other one. -/
structure Renews (v w : Variant α) (root : Node) : Prop where
  root_eq : v.root = root
  fitness_eq : v.fitness = none
  failing_eq : v.failing = w.failing

end Variant

namespace Search

/-- What the turn to change makes of a variant, and of the search. -/
inductive Turn [Scalar α] (settings : Settings α) (c : Collaborators α ω) (s : Search α ω)
    (v : Variant α) : Variant α → Search α ω → Prop where
  /-- The operator changes nothing. -/
  | spared {s' : Search α ω} (evaluator : s'.bench.evaluator = s.bench.evaluator)
    (grown : s.bench.store.Extends s'.bench.store) : Turn settings c s v v s'
  | mutated {w : Variant α} {s' : Search α ω} {root : Node} {operator : Operator}
    {description : String} {rng rng' : WordStream}
    (evaluator : s'.bench.evaluator = s.bench.evaluator)
    (made : Mutation.mutate v.root settings.operators settings.donorScope rng s.bench.store =
      ((.changed root operator description, rng'), s'.bench.store))
    (renews : w.Renews v root) : Turn settings c s v w s'
  /-- The oracle has no proposal. -/
  | missed {oracle : Oracle α ω} {s' : Search α ω} {answer : Except OracleError (Option Node)}
    (evaluator : s'.bench.evaluator = s.bench.evaluator) (attached : c.oracle = some oracle)
    (asked : (WordStream.chance settings.oracleProbability s.rng).1 = true)
    (said : oracle.propose v.root v.failing (s.bench.store, s.bench.memory) =
      (answer, s'.bench.store, s'.bench.memory)) : Turn settings c s v v s'
  | proposed {w : Variant α} {oracle : Oracle α ω} {s' : Search α ω} {root : Node}
    (evaluator : s'.bench.evaluator = s.bench.evaluator) (attached : c.oracle = some oracle)
    (asked : (WordStream.chance settings.oracleProbability s.rng).1 = true)
    (said : oracle.propose v.root v.failing (s.bench.store, s.bench.memory) =
      (.ok (some root), s'.bench.store, s'.bench.memory))
    (renews : w.Renews v root) : Turn settings c s v w s'

/-- What a step does with the variants in hand, with the rating that it gives. -/
inductive Relay [Scalar α] [Root α] (settings : Settings α) (c : Collaborators α ω)
    (s : Search α ω) : Stage α → Stage α → Option (Rating α) → Search α ω → Prop where
  | ended {stage : Stage α} {result : Except RepairFault (RunReport α)}
    {rating : Option (Rating α)} {s' : Search α ω} :
    Relay settings c s stage (.over result) rating s'
  /-- The program has been tested, and it is no repair itself. -/
  | founded {root : Node} {a : Assessment α} {b : Bench α ω} {base : Baseline α}
    {original : Variant α} {s' : Search α ω}
    (established : s.bench.establish c.executor root = (.ok a, b))
    (baseline : b.evaluator.baseline = some base)
    (assessed : original = (Variant.new 0 root).assess a.fitness a.failing)
    (unfixed : isRepair base.maximum original = false) (bench : s'.bench = b.offer original) :
    Relay settings c s (.fresh root)
      (.between ⟨original, base.maximum, 1, settings.maxGenerations⟩ [])
      (some ⟨root, a.fitness, a.failing⟩) s'
  /-- The parents are copies of viable variants. -/
  | entered {course : Course α} {population parents : List (Variant α)} {remaining : Nat}
    {s' : Search α ω}
    (chosen : ∀ v ∈ parents, ∃ w ∈ population, w.isViable = true ∧ v.Copies w)
    (evaluator : s'.bench.evaluator = s.bench.evaluator)
    (store : s'.bench.store = s.bench.store) :
    Relay settings c s (.between course population)
      (.crossing { course with remaining := remaining } [] parents) none s'
  | crossed {course : Course α} {bred rest : List (Variant α)} {a b x y : Variant α}
    {first second : Node} {blocks : Nat} {rng : WordStream} {s' : Search α ω}
    (evaluator : s'.bench.evaluator = s.bench.evaluator)
    (made : Crossover.cross a.root b.root s.rng s.bench.store =
      ((.offspring first second blocks, rng), s'.bench.store))
    (renews : x.Renews a first) (renews' : y.Renews b second) :
    Relay settings c s (.crossing course bred (a :: b :: rest))
      (.crossing course (bred ++ [a, b, x, y]) rest) none s'
  /-- The parents do not diverge. -/
  | alike {course : Course α} {bred rest : List (Variant α)} {a b : Variant α}
    {s' : Search α ω} (evaluator : s'.bench.evaluator = s.bench.evaluator)
    (grown : s.bench.store.Extends s'.bench.store) :
    Relay settings c s (.crossing course bred (a :: b :: rest))
      (.crossing course (bred ++ [a, b]) rest) none s'
  | filled {course : Course α} {bred rest copies : List (Variant α)} {s' : Search α ω}
    (copied : ∀ v ∈ copies, v.Copies course.original)
    (evaluator : s'.bench.evaluator = s.bench.evaluator)
    (store : s'.bench.store = s.bench.store) :
    Relay settings c s (.crossing course bred rest) (.varying course [] (bred ++ rest ++ copies))
      none s'
  | varied {course : Course α} {done todo : List (Variant α)} {v w : Variant α}
    {s' : Search α ω} (turn : Turn settings c s v w s') :
    Relay settings c s (.varying course done (v :: todo)) (.varying course (done ++ [w]) todo)
      none s'
  | handed {course : Course α} {done : List (Variant α)} :
    Relay settings c s (.varying course done []) (assessing settings c course done) none s
  /-- The fitness of the variant is known. -/
  | passed {course : Course α} {done todo : List (Variant α)} {v : Variant α} :
    Relay settings c s (.rating course done (v :: todo)) (.rating course (done ++ [v]) todo) none s
  | rated {course : Course α} {done todo : List (Variant α)} {v w : Variant α}
    {a : Assessment α} {b : Bench α ω} {s' : Search α ω}
    (evaluated : s.bench.evaluate c.executor v = (.ok (a, w), b))
    (unfixed : isRepair course.maximum w = false) (bench : s'.bench = b.offer w) :
    Relay settings c s (.rating course done (v :: todo)) (.rating course (done ++ [w]) todo)
      (some ⟨v.root, a.fitness, a.failing⟩) s'
  | closed {course : Course α} {done : List (Variant α)} {s' : Search α ω}
    (bench : s'.bench = s.bench) :
    Relay settings c s (.rating course done [])
      (.between { course with generation := course.generation + 1 } done) none s'
  /-- A job of a batch is done, which may have failed. -/
  | worked {course : Course α} {generation : List (Variant α)}
    {results : List (Nat × Except RepairFault (Variant α))} {job : Nat} {v : Variant α}
    {jobs : List (Nat × Variant α)} {answer : Except RepairFault (Assessment α × Variant α)}
    {s' : Search α ω} (evaluated : s.bench.evaluate c.executor v = (answer, s'.bench)) :
    Relay settings c s (.batch course generation results ((job, v) :: jobs))
      (.batch course generation (results ++ [(job, answer.map (·.2))]) jobs)
      (answer.toOption.map fun (a, _) => ⟨v.root, a.fitness, a.failing⟩) s'
  | settled {course : Course α} {generation evaluated : List (Variant α)}
    {results : List (Nat × Except RepairFault (Variant α))} {s' : Search α ω}
    (settled : settle results 0 generation = .ok evaluated)
    (unfixed : ∀ v ∈ evaluated, isRepair course.maximum v = false)
    (bench : s'.bench = evaluated.foldl Bench.offer s.bench) :
    Relay settings c s (.batch course generation results [])
      (.between { course with generation := course.generation + 1 } evaluated) none s'

/-! ## Breeding -/

/-- A renumbering makes copies and leaves the bench alone. -/
theorem renumber_copies (vs : List (Variant α)) (s : Search α ω) :
    (∀ w ∈ (renumber vs s).1, ∃ v ∈ vs, w.Copies v) ∧ (renumber vs s).2.bench = s.bench := by
  rw [renumber_eq]
  refine ⟨fun w hw => ?_, rfl⟩
  obtain ⟨i, hi, rfl⟩ := List.getElem_of_mem hw
  rw [List.getElem_zipWith]
  exact ⟨_, List.getElem_mem _, rfl, rfl, rfl⟩

theorem refill_copies (settings : Settings α) (original : Variant α) (next : List (Variant α))
    (s : Search α ω) :
    ∃ copies s', refill settings original next s = (next ++ copies, s') ∧
      (∀ v ∈ copies, v.Copies original) ∧ s'.bench = s.bench := by
  obtain ⟨hcopied, hbench⟩ :=
    renumber_copies (List.replicate (settings.populationSize - next.length) original) s
  refine ⟨_, _, rfl, fun w hw => ?_, hbench⟩
  obtain ⟨v, hv, hcopies⟩ := hcopied w hw
  exact List.eq_of_mem_replicate hv ▸ hcopies

variable [Scalar α]

theorem selectParents_copies (settings : Settings α) (population : List (Variant α))
    (s : Search α ω) :
    ∃ parents s', selectParents settings population s = (parents, s') ∧
      (∀ v ∈ parents, ∃ w ∈ population, w.isViable = true ∧ v.Copies w) ∧
      s'.bench = s.bench := by
  unfold selectParents
  simp only []
  split
  · exact ⟨[], s, rfl, nofun, rfl⟩
  · rw [bind_apply, withWords]
    generalize Roulette.bounds ((viable population).map fitnessOrZero) = bounds
    generalize Roulette.drawMany bounds _ s.rng = drawn
    obtain ⟨picks, rng⟩ := drawn
    obtain ⟨hcopied, hbench⟩ :=
      renumber_copies (picks.filterMap ((viable population)[·]?)) { s with rng := rng }
    refine ⟨_, _, rfl, fun v hv => ?_, hbench⟩
    obtain ⟨w, hw, hcopies⟩ := hcopied v hv
    obtain ⟨hmem, hviable⟩ := mem_of_drawn hw
    exact ⟨w, hmem, hviable, hcopies⟩

theorem turn_mutateByOperator (settings : Settings α) (c : Collaborators α ω) (v : Variant α)
    {s s₀ : Search α ω} (hs : s.bench = s₀.bench) :
    Turn settings c s₀ v (mutateByOperator settings v s).1 (mutateByOperator settings v s).2 := by
  have hgrown := Mutation.mutate_extends v.root settings.operators settings.donorScope s.rng
    s₀.bench.store
  unfold mutateByOperator
  rw [bind_apply, withStore, hs]
  rcases hmade : Mutation.mutate v.root settings.operators settings.donorScope s.rng
    s₀.bench.store with ⟨⟨result, rng⟩, store⟩
  rw [hmade] at hgrown
  cases result with
  | changed root operator description => exact .mutated rfl hmade ⟨rfl, rfl, rfl⟩
  | unchanged => exact .spared rfl hgrown
  | refused operator error => exact .spared rfl hgrown

theorem turn_consult (settings : Settings α) {c : Collaborators α ω} {oracle : Oracle α ω}
    (ho : c.oracle = some oracle) (v : Variant α) {s s₀ : Search α ω} (hs : s.bench = s₀.bench)
    (hasked : (WordStream.chance settings.oracleProbability s₀.rng).1 = true) :
    Turn settings c s₀ v (consult oracle v s).1 (consult oracle v s).2 := by
  rcases hsaid : oracle.propose v.root v.failing (s₀.bench.store, s₀.bench.memory)
    with ⟨answer, store, memory⟩
  have hevaluator : s.bench.evaluator = s₀.bench.evaluator := congrArg Bench.evaluator hs
  have hanswer : oracle.propose v.root v.failing (s.bench.store, s.bench.memory) =
      (answer, store, memory) := by
    rw [hs]
    exact hsaid
  rw [consult_of_propose hanswer]
  rcases answer with e | root
  · exact .missed hevaluator ho hasked hsaid
  · cases root with
    | none => exact .missed hevaluator ho hasked hsaid
    | some root => exact .proposed hevaluator ho hasked hsaid ⟨rfl, rfl, rfl⟩

theorem turn_vary (settings : Settings α) (c : Collaborators α ω) (v : Variant α)
    (s : Search α ω) : Turn settings c s v (vary settings c v s).1 (vary settings c v s).2 := by
  unfold vary
  cases ho : c.oracle with
  | none => exact turn_mutateByOperator settings c v rfl
  | some oracle =>
    simp only []
    rw [bind_apply, withWords]
    rcases hdrawn : WordStream.chance settings.oracleProbability s.rng with ⟨asked, rng⟩
    cases asked with
    | false => exact turn_mutateByOperator settings c v rfl
    | true => exact turn_consult settings ho v rfl (congrArg Prod.fst hdrawn)

/-! ## The steps -/

variable [Root α] (settings : Settings α) (c : Collaborators α ω)

theorem relay_fresh (root : Node) (s : Search α ω) :
    Relay settings c s (.fresh root) ((Stage.fresh root).next settings c s).1.1
      ((Stage.fresh root).next settings c s).1.2 ((Stage.fresh root).next settings c s).2 := by
  rw [Stage.next]
  cases hvalid : settings.validate with
  | error fault =>
    rw [opening, hvalid]
    exact .ended
  | ok _ =>
    rcases hes : s.bench.establish c.executor root with ⟨fault | a, b⟩
    · obtain ⟨result, s', hopening, -⟩ := opening_of_error hvalid hes
      rw [hopening]
      exact .ended
    · cases hb : b.evaluator.baseline with
      | none =>
        rw [opening_of_no_baseline hvalid hes hb]
        exact .ended
      | some base =>
        rw [opening_of_ok hvalid hes hb, embark, bind_apply, bind_apply]
        cases hrepair : isRepair base.maximum ((Variant.new 0 root).assess a.fitness a.failing) with
        | true => exact .ended
        | false => exact .founded hes hb rfl hrepair rfl

theorem relay_between (course : Course α) (population : List (Variant α)) (s : Search α ω) :
    Relay settings c s (.between course population)
      ((Stage.between course population).next settings c s).1.1
      ((Stage.between course population).next settings c s).1.2
      ((Stage.between course population).next settings c s).2 := by
  rw [Stage.next]
  cases course.remaining with
  | zero => exact .ended
  | succ remaining =>
    simp only []
    rw [bind_apply]
    cases (isCancelled c s).1 with
    | true => exact .ended
    | false =>
      obtain ⟨parents, s', hselected, hchosen, hbench⟩ :=
        selectParents_copies settings population (enter course.generation (isCancelled c s).2).2
      have hevaluator := congrArg Bench.evaluator hbench
      have hstore := congrArg Bench.store hbench
      simp only [Bool.false_eq_true, if_false]
      rw [bind_apply, bind_apply, hselected]
      exact .entered hchosen hevaluator hstore

theorem relay_crossing (course : Course α) (bred parents : List (Variant α)) (s : Search α ω) :
    Relay settings c s (.crossing course bred parents)
      ((Stage.crossing course bred parents).next settings c s).1.1
      ((Stage.crossing course bred parents).next settings c s).1.2
      ((Stage.crossing course bred parents).next settings c s).2 := by
  have hlast (rest : List (Variant α)) : Relay settings c s (.crossing course bred rest)
      (.varying course [] (refill settings course.original (bred ++ rest) s).1) none
      (refill settings course.original (bred ++ rest) s).2 := by
    obtain ⟨copies, s', hmade, hcopied, hbench⟩ :=
      refill_copies settings course.original (bred ++ rest) s
    rw [hmade]
    exact .filled hcopied (congrArg Bench.evaluator hbench) (congrArg Bench.store hbench)
  match parents with
  | [] => exact hlast []
  | [a] => exact hlast [a]
  | a :: b :: rest =>
    have hgrown := Crossover.cross_extends a.root b.root s.rng s.bench.store
    rw [Stage.next, bind_apply, crossPair, bind_apply, withStore]
    rcases hmade : Crossover.cross a.root b.root s.rng s.bench.store
      with ⟨⟨crossing, rng⟩, store⟩
    rw [hmade] at hgrown
    cases crossing with
    | offspring first second blocks =>
      exact .crossed rfl hmade ⟨rfl, rfl, rfl⟩ ⟨rfl, rfl, rfl⟩
    | alike => exact .alike rfl hgrown

theorem relay_varying (course : Course α) (done todo : List (Variant α)) (s : Search α ω) :
    Relay settings c s (.varying course done todo)
      ((Stage.varying course done todo).next settings c s).1.1
      ((Stage.varying course done todo).next settings c s).1.2
      ((Stage.varying course done todo).next settings c s).2 := by
  cases todo with
  | nil => exact .handed
  | cons v todo => exact .varied (turn_vary settings c v s)

theorem relay_rating (course : Course α) (done todo : List (Variant α)) (s : Search α ω) :
    Relay settings c s (.rating course done todo)
      ((Stage.rating course done todo).next settings c s).1.1
      ((Stage.rating course done todo).next settings c s).1.2
      ((Stage.rating course done todo).next settings c s).2 := by
  cases todo with
  | nil => exact .closed rfl
  | cons v todo =>
    by_cases hv : v.fitness.isSome = true
    · rw [Stage.next, if_pos hv]
      exact .passed
    · rw [Stage.next, if_neg hv, bind_apply]
      rcases hev : s.bench.evaluate c.executor v with ⟨e | ⟨a, w⟩, b⟩
      · rw [evaluateNext_of_error hev]
        exact .ended
      · rw [evaluateNext_of_ok hev]
        simp only []
        cases hrepair : isRepair course.maximum w with
        | true => exact .ended
        | false => exact .rated hev hrepair rfl

theorem relay_batch (course : Course α) (generation : List (Variant α))
    (results : List (Nat × Except RepairFault (Variant α))) (jobs : List (Nat × Variant α))
    (s : Search α ω) :
    Relay settings c s (.batch course generation results jobs)
      ((Stage.batch course generation results jobs).next settings c s).1.1
      ((Stage.batch course generation results jobs).next settings c s).1.2
      ((Stage.batch course generation results jobs).next settings c s).2 := by
  cases jobs with
  | nil =>
    rw [Stage.next, bind_apply]
    cases hsettled : settle results 0 generation with
    | error e => exact .ended
    | ok evaluated =>
      simp only []
      rw [bind_apply]
      cases hfix : evaluated.find? (isRepair course.maximum) with
      | none =>
        refine .settled hsettled (fun v hv => ?_) rfl
        exact Bool.eq_false_iff.mpr (List.find?_eq_none.mp hfix v hv)
      | some fix => exact .ended
  | cons entry jobs =>
    obtain ⟨job, v⟩ := entry
    rcases hev : s.bench.evaluate c.executor v with ⟨answer, b⟩
    rw [Stage.next, bind_apply, onBench_eq hev rfl]
    exact .worked hev

/-- Every step hands the variants on in one of these ways. -/
theorem relay (stage : Stage α) (s : Search α ω) :
    Relay settings c s stage (stage.next settings c s).1.1 (stage.next settings c s).1.2
      (stage.next settings c s).2 := by
  cases stage with
  | fresh root => exact relay_fresh settings c root s
  | between course population => exact relay_between settings c course population s
  | crossing course bred parents => exact relay_crossing settings c course bred parents s
  | varying course done todo => exact relay_varying settings c course done todo s
  | rating course done todo => exact relay_rating settings c course done todo s
  | batch course generation results jobs =>
    exact relay_batch settings c course generation results jobs s
  | _ => exact .ended

/-- What holds after the first step of a run that goes on, and is kept by every step to one that goes
on, holds as long as the run goes on. -/
theorem relay_iterate {P : Search α ω → Stage α → List (Rating α) → Prop} {root : Node}
    {s : Search α ω}
    (hfirst : ∀ stage rating s', Relay settings c s (.fresh root) stage rating s' →
      (∃ result, stage = .over result) ∨ P s' stage rating.toList)
    (hlater : ∀ k (m : Moment α ω) stage' rating s', (step settings c)^[k] (start root s) = m →
      P m.search m.stage m.ratings → Relay settings c m.search m.stage stage' rating s' →
        (∃ result, stage' = .over result) ∨ P s' stage' (m.ratings ++ rating.toList))
    (n : Nat) :
    let moment : Moment α ω := (step settings c)^[n + 1] (start root s)
    (∃ result, moment.stage = .over result) ∨ P moment.search moment.stage moment.ratings := by
  intro moment
  induction n with
  | zero => exact hfirst _ _ _ (relay settings c (.fresh root) s)
  | succ n ih =>
    have hmoment : moment = step settings c ((step settings c)^[n + 1] (start root s)) :=
      Function.iterate_succ_apply' _ _ _
    rw [hmoment]
    generalize hreached : (step settings c)^[n + 1] (start root s) = m at ih ⊢
    obtain ⟨result, hover⟩ | hm := ih
    · have hsame : step settings c m = m := iterate_of_over hover 1
      rw [hsame]
      exact .inl ⟨result, hover⟩
    · exact hlater (n + 1) m _ _ _ hreached hm (relay settings c m.stage m.search)

end Search

end GeneticRepair
