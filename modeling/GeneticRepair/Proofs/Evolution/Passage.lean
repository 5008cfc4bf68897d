import GeneticRepair.Proofs.Assessment.Offers
import GeneticRepair.Proofs.Evolution.Assessed
import GeneticRepair.Proofs.Evolution.Versions

/-!
# `Proofs/Evolution/Passage.lean` — the books of a run

A run keeps books: it numbers its variants, and it counts what it does. Where a number is drawn and
where a counter moves is read off the definitions here, once for every kind of step: `Passage` has
one constructor for each, with what the step does to the variants in hand, to the next number and to
the tally. `passage` says that there is no other kind, and what is proved of the books later
goes through these cases and opens no definition.
-/

set_option autoImplicit false

namespace GeneticRepair

/-- How the turn of one variant is counted. A variant comes out of its turn as a new program or as
the one it was, and it is counted once. -/
inductive Tally.Change {α : Type} (t : Tally α) : (renewed : Bool) → Tally α → Prop where
  | inserted : Change t true { t with insertions := t.insertions + 1 }
  | deleted : Change t true { t with deletions := t.deletions + 1 }
  | proposed : Change t true { t with oracleCalls := t.oracleCalls + 1 }
  | refused : Change t false { t with refusedMutations := t.refusedMutations + 1 }
  | idle : Change t false { t with idleMutations := t.idleMutations + 1 }
  | missed : Change t false
    { t with oracleCalls := t.oracleCalls + 1, oracleMisses := t.oracleMisses + 1 }

namespace Roulette

variable {α : Type} [Scalar α]

theorem length_scan (index : Nat) (bounds pointers : List α) :
    (scan index bounds pointers).length = pointers.length := by
  induction pointers generalizing index bounds with
  | nil => rfl
  | cons p ps ih => rw [scan, List.length_cons, ih, List.length_cons]

theorem length_drawMany_le (bounds : List α) (k : Nat) (rng : WordStream) :
    (drawMany bounds k rng).1.length ≤ k := by
  unfold drawMany
  split
  · exact Nat.zero_le k
  · simp only [spread]
    split
    · exact Nat.zero_le k
    · rw [length_scan, pointers]
      simp

end Roulette

/-- An operator without a meaning makes no version. -/
theorem Mutation.operator_of_changed {α : Type} [Scalar α] {t t' : Node} {operators : List Operator}
    {scope : DonorScope} {rng : WordStream} {store : Store α} {operator : Operator}
    {description : String}
    (h : (mutate t operators scope rng store).1.1 = .changed t' operator description) :
    operator ≠ .swap := by
  rintro rfl
  obtain ⟨-, hsame⟩ | ⟨operator, target, rng', -, -, hmade⟩ :=
    mutate_cases t operators scope rng store
  · rw [hsame] at h
    cases h
  · rw [hmade] at h
    obtain ⟨rfl, hanswer⟩ := eq_ok_of_resultOf h
    cases hanswer

namespace Search

variable {α ω : Type}

/-! ## Numbers and counters, operation by operation -/

/-- Variants get the numbers from the next one on, and nothing else happens. -/
theorem renumber_eq (vs : List (Variant α)) (s : Search α ω) :
    renumber vs s = (List.zipWith Variant.copyAs vs (List.range' s.nextId vs.length),
      { s with nextId := s.nextId + vs.length }) := by
  induction vs generalizing s with
  | nil => rfl
  | cons v vs ih =>
    rw [renumber, bind_apply, nextNumber, bind_apply, ih, List.length_cons, List.range'_succ,
      Nat.add_comm vs.length, ← Nat.add_assoc]
    rfl

/-- The copies that a renumbering makes. -/
theorem renumber_spec (vs : List (Variant α)) (s : Search α ω) :
    ∃ copies, renumber vs s = (copies, { s with nextId := s.nextId + copies.length }) ∧
      copies.length = vs.length ∧ copies.map Variant.id = List.range' s.nextId copies.length ∧
      ∀ w ∈ copies, ∃ v ∈ vs, w.fitness = v.fitness := by
  have hlength : ∀ first, (List.zipWith Variant.copyAs vs
      (List.range' first vs.length)).length = vs.length := by simp
  refine ⟨_, ?_, hlength s.nextId, ?_, ?_⟩
  · rw [renumber_eq, hlength]
  · rw [hlength]
    generalize s.nextId = first
    clear hlength
    induction vs generalizing first with
    | nil => rfl
    | cons v vs ih =>
      simp only [List.length_cons, List.range'_succ, List.zipWith_cons_cons, List.map_cons, ih]
      rfl
  · generalize List.range' s.nextId vs.length = numbers
    clear hlength
    intro w hw
    obtain ⟨i, hi, rfl⟩ := List.getElem_of_mem hw
    rw [List.getElem_zipWith]
    exact ⟨_, List.getElem_mem _, rfl⟩

/-- A generation is filled up to its size with copies under the next numbers. -/
theorem refill_spec (settings : Settings α) (original : Variant α) (next : List (Variant α))
    (s : Search α ω) :
    ∃ copies, refill settings original next s =
        (next ++ copies, { s with nextId := s.nextId + copies.length }) ∧
      copies.length = settings.populationSize - next.length ∧
      copies.map Variant.id = List.range' s.nextId copies.length ∧
      ∀ w ∈ copies, w.fitness = original.fitness := by
  obtain ⟨copies, hmade, hlength, hids, hcopied⟩ :=
    renumber_spec (List.replicate (settings.populationSize - next.length) original) s
  refine ⟨copies, ?_, by rw [hlength, List.length_replicate], hids, fun w hw => ?_⟩
  · rw [refill, bind_apply, hmade]
    rfl
  · obtain ⟨v, hv, hfitness⟩ := hcopied w hw
    rw [hfitness, List.eq_of_mem_replicate hv]

/-- A question is counted, and so is an answer without a proposal. -/
theorem consult_spec (oracle : Oracle α ω) (v : Variant α) (s : Search α ω) :
    ∃ w s' renewed, consult oracle v s = (w, s') ∧ s'.nextId = s.nextId ∧
      s.stats.Change renewed s'.stats ∧ w.id = v.id ∧
      w.fitness = if renewed then none else v.fitness := by
  rcases hproposed : oracle.propose v.root v.failing (s.bench.store, s.bench.memory)
    with ⟨answer, store, memory⟩
  rw [consult_of_propose hproposed]
  rcases answer with e | root
  · exact ⟨_, _, false, rfl, rfl, .missed, rfl, rfl⟩
  · cases root with
    | none => exact ⟨_, _, false, rfl, rfl, .missed, rfl, rfl⟩
    | some root => exact ⟨_, _, true, rfl, rfl, .proposed, rfl, rfl⟩

variable [Scalar α]

theorem isSome_of_isViable {v : Variant α} (h : v.isViable = true) : v.fitness.isSome = true := by
  rw [Variant.isViable] at h
  cases hf : v.fitness with
  | none =>
    rw [hf] at h
    cases h
  | some fitness => rfl

/-- Parents are as many as half a generation at most, they have a fitness, and they get the next
numbers. -/
theorem selectParents_spec (settings : Settings α) (population : List (Variant α))
    (s : Search α ω) :
    ∃ parents s', selectParents settings population s = (parents, s') ∧
      s'.nextId = s.nextId + parents.length ∧ s'.stats = s.stats ∧
      parents.length ≤ settings.populationSize / 2 ∧ (population = [] → parents = []) ∧
      parents.map Variant.id = List.range' s.nextId parents.length ∧
      ∀ v ∈ parents, v.fitness.isSome = true := by
  unfold selectParents
  simp only []
  split
  · exact ⟨[], s, rfl, rfl, rfl, Nat.zero_le _, fun _ => rfl, rfl,
      fun v hv => absurd hv List.not_mem_nil⟩
  · rename_i hk
    rw [bind_apply, withWords]
    generalize hcount : min (settings.populationSize / 2) (viable population).length = k
    generalize Roulette.bounds ((viable population).map fitnessOrZero) = bounds
    have hdrawn := Roulette.length_drawMany_le bounds k s.rng
    generalize Roulette.drawMany bounds k s.rng = drawn at hdrawn
    obtain ⟨picks, rng⟩ := drawn
    obtain ⟨parents, hmade, hlength, hids, hcopied⟩ :=
      renumber_spec (picks.filterMap ((viable population)[·]?)) { s with rng := rng }
    have hle : parents.length ≤ min (settings.populationSize / 2) (viable population).length := by
      rw [hlength, hcount]
      exact (List.length_filterMap_le _ _).trans hdrawn
    refine ⟨parents, _, hmade, rfl, rfl, hle.trans (Nat.min_le_left _ _), fun hnone => ?_, hids,
      fun w hw => ?_⟩
    · refine List.eq_nil_of_length_eq_zero (Nat.le_zero.mp (hle.trans ?_))
      rw [hnone]
      exact Nat.min_le_right _ _
    · obtain ⟨v, hv, hfitness⟩ := hcopied w hw
      rw [hfitness]
      exact isSome_of_isViable (mem_of_drawn hv).2

/-- A pair of parents goes on, with two children under the next numbers if the two diverge. -/
theorem crossPair_spec (a b : Variant α) (s : Search α ω) :
    (∃ x y s', crossPair a b s = ([a, b, x, y], s') ∧ s'.nextId = s.nextId + 2 ∧
        s'.stats = { s.stats with crossings := s.stats.crossings + 1 } ∧
        x.id = s.nextId ∧ y.id = s.nextId + 1 ∧ x.fitness = none ∧ y.fitness = none) ∨
      ∃ s', crossPair a b s = ([a, b], s') ∧ s'.nextId = s.nextId ∧
        s'.stats = { s.stats with missedCrossings := s.stats.missedCrossings + 1 } := by
  unfold crossPair
  rw [bind_apply, withStore]
  generalize Crossover.cross a.root b.root s.rng s.bench.store = crossed
  obtain ⟨⟨crossing, rng⟩, store⟩ := crossed
  cases crossing with
  | offspring first second blocks =>
    exact .inl ⟨_, _, _, rfl, rfl, rfl, rfl, rfl, rfl, rfl⟩
  | alike => exact .inr ⟨_, rfl, rfl, rfl⟩

theorem mutateByOperator_spec (settings : Settings α) (v : Variant α) (s : Search α ω) :
    ∃ w s' renewed, mutateByOperator settings v s = (w, s') ∧ s'.nextId = s.nextId ∧
      s.stats.Change renewed s'.stats ∧ w.id = v.id ∧
      w.fitness = if renewed then none else v.fitness := by
  unfold mutateByOperator
  rw [bind_apply, withStore]
  have hoperator (t' : Node) (operator : Operator) (description : String) :
      (Mutation.mutate v.root settings.operators settings.donorScope s.rng s.bench.store).1.1 =
        .changed t' operator description → operator ≠ .swap :=
    Mutation.operator_of_changed
  generalize Mutation.mutate v.root settings.operators settings.donorScope s.rng s.bench.store =
    mutated at hoperator
  obtain ⟨⟨result, rng⟩, store⟩ := mutated
  cases result with
  | changed root operator description =>
    cases operator with
    | delete => exact ⟨_, _, true, rfl, rfl, .deleted, rfl, rfl⟩
    | insertBefore => exact ⟨_, _, true, rfl, rfl, .inserted, rfl, rfl⟩
    | swap => exact absurd rfl (hoperator root .swap description rfl)
  | unchanged => exact ⟨_, _, false, rfl, rfl, .idle, rfl, rfl⟩
  | refused operator error => exact ⟨_, _, false, rfl, rfl, .refused, rfl, rfl⟩

/-- The turn of a variant: it keeps its number, and it loses its fitness just if it is counted as a
new program. -/
theorem vary_spec (settings : Settings α) (c : Collaborators α ω) (v : Variant α)
    (s : Search α ω) :
    ∃ w s' renewed, vary settings c v s = (w, s') ∧ s'.nextId = s.nextId ∧
      s.stats.Change renewed s'.stats ∧ w.id = v.id ∧
      w.fitness = if renewed then none else v.fitness := by
  unfold vary
  cases c.oracle with
  | none => exact mutateByOperator_spec settings v s
  | some oracle =>
    simp only []
    rw [bind_apply, withWords]
    generalize WordStream.chance settings.oracleProbability s.rng = drawn
    obtain ⟨asked, rng⟩ := drawn
    cases asked with
    | false => exact mutateByOperator_spec settings v { s with rng := rng }
    | true => exact consult_spec oracle v { s with rng := rng }

variable [Root α]

/-- An evaluation gives the variant the fitness that it reports, and nothing about it makes the
variant another one. -/
theorem evaluate_spec {executor : Executor α ω} {v v' : Variant α} {b b' : Bench α ω}
    {a : Assessment α} (h : b.evaluate executor v = (.ok (a, v'), b')) :
    v'.id = v.id ∧ v'.fitness = some a.fitness := by
  obtain ⟨stale, rfl⟩ := Bench.assessed_of_evaluate h
  exact ⟨rfl, rfl⟩

/-! ## The kinds of steps -/

/-- What a step of each kind does to the stage, to the next number and to the tally. -/
inductive Passage (settings : Settings α) (c : Collaborators α ω) (s : Search α ω) :
    Stage α → Stage α → Search α ω → Prop where
  /-- A fault ends the run. -/
  | failed {stage : Stage α} {e : RepairFault} {s' : Search α ω} :
    Passage settings c s stage (.over (.error e)) s'
  /-- The program cannot be tested. -/
  | unfit {root : Node} {report : RunReport α} {s' : Search α ω}
    (outcome : report.outcome = .unfit) (stats : report.stats = .zero) :
    Passage settings c s (.fresh root) (.over (.ok report)) s'
  /-- The program passes all its tests. -/
  | flawless {root : Node} {report : RunReport α} {s' : Search α ω} {history : List α}
    (outcome : report.outcome = .repaired)
    (stats : report.stats = { (.zero : Tally α) with history := history }) :
    Passage settings c s (.fresh root) (.over (.ok report)) s'
  /-- The search begins. -/
  | founded {root : Node} {course : Course α} {s' : Search α ω} {history : List α}
    (valid : settings.validate = .ok ()) (number : course.original.id = 0)
    (scored : course.original.fitness.isSome = true) (first : course.generation = 1)
    (nextId : s'.nextId = 1) (stats : s'.stats = { (.zero : Tally α) with history := history }) :
    Passage settings c s (.fresh root) (.between course []) s'
  /-- The generations are used up, or the run is cancelled. -/
  | gaveUp {course : Course α} {population : List (Variant α)} {report : RunReport α}
    {s' : Search α ω} (outcome : report.outcome ≠ .repaired) (stats : report.stats = s.stats) :
    Passage settings c s (.between course population) (.over (.ok report)) s'
  /-- A generation begins with its parents. -/
  | entered {course : Course α} {population parents : List (Variant α)} {remaining : Nat}
    {s' : Search α ω} (few : parents.length ≤ settings.populationSize / 2)
    (orphaned : population = [] → parents = [])
    (scored : ∀ v ∈ parents, v.fitness.isSome = true)
    (numbers : parents.map Variant.id = List.range' s.nextId parents.length)
    (nextId : s'.nextId = s.nextId + parents.length)
    (stats : s'.stats = { s.stats with generations := course.generation }) :
    Passage settings c s (.between course population)
      (.crossing { course with remaining := remaining } [] parents) s'
  /-- A pair of parents has two children. -/
  | crossed {course : Course α} {bred rest : List (Variant α)} {a b x y : Variant α}
    {s' : Search α ω} (nextId : s'.nextId = s.nextId + 2)
    (stats : s'.stats = { s.stats with crossings := s.stats.crossings + 1 })
    (first : x.id = s.nextId) (second : y.id = s.nextId + 1) (unscored : x.fitness = none)
    (unscored' : y.fitness = none) :
    Passage settings c s (.crossing course bred (a :: b :: rest))
      (.crossing course (bred ++ [a, b, x, y]) rest) s'
  /-- A pair of parents does not diverge. -/
  | missed {course : Course α} {bred rest : List (Variant α)} {a b : Variant α}
    {s' : Search α ω} (nextId : s'.nextId = s.nextId)
    (stats : s'.stats = { s.stats with missedCrossings := s.stats.missedCrossings + 1 }) :
    Passage settings c s (.crossing course bred (a :: b :: rest))
      (.crossing course (bred ++ [a, b]) rest) s'
  /-- Copies of the original fill the generation up. -/
  | filled {course : Course α} {bred rest copies : List (Variant α)} {s' : Search α ω}
    (few : rest.length < 2)
    (size : copies.length = settings.populationSize - (bred ++ rest).length)
    (numbers : copies.map Variant.id = List.range' s.nextId copies.length)
    (copied : ∀ v ∈ copies, v.fitness = course.original.fitness)
    (nextId : s'.nextId = s.nextId + copies.length) (stats : s'.stats = s.stats) :
    Passage settings c s (.crossing course bred rest)
      (.varying course [] (bred ++ rest ++ copies)) s'
  /-- A variant has its turn to change. -/
  | varied {course : Course α} {done todo : List (Variant α)} {v w : Variant α}
    {s' : Search α ω} {renewed : Bool} (number : w.id = v.id)
    (fitness : w.fitness = if renewed then none else v.fitness)
    (nextId : s'.nextId = s.nextId) (stats : s.stats.Change renewed s'.stats) :
    Passage settings c s (.varying course done (v :: todo)) (.varying course (done ++ [w]) todo) s'
  /-- The generation is handed over to be evaluated. -/
  | handed {course : Course α} {done : List (Variant α)} :
    Passage settings c s (.varying course done []) (assessing settings c course done) s
  /-- A variant whose fitness is known is passed over. -/
  | spared {course : Course α} {done todo : List (Variant α)} {v : Variant α}
    (scored : v.fitness.isSome = true) :
    Passage settings c s (.rating course done (v :: todo)) (.rating course (done ++ [v]) todo) s
  /-- A variant is evaluated in its turn. -/
  | rated {course : Course α} {done todo : List (Variant α)} {v w : Variant α}
    {s' : Search α ω} (unscored : v.fitness = none) (number : w.id = v.id)
    (scored : w.fitness.isSome = true) (nextId : s'.nextId = s.nextId)
    (stats : s'.stats = { s.stats with evaluations := s.stats.evaluations + 1 }) :
    Passage settings c s (.rating course done (v :: todo)) (.rating course (done ++ [w]) todo) s'
  /-- A variant that is evaluated in its turn is a repair. -/
  | found {course : Course α} {done todo : List (Variant α)} {v : Variant α}
    {report : RunReport α} {s' : Search α ω} (unscored : v.fitness = none)
    (outcome : report.outcome = .repaired)
    (stats : report.stats = { s.stats with evaluations := s.stats.evaluations + 1 }) :
    Passage settings c s (.rating course done (v :: todo)) (.over (.ok report)) s'
  /-- All variants have had their turn. -/
  | closed {course : Course α} {done : List (Variant α)} {s' : Search α ω} {history : List α}
    (nextId : s'.nextId = s.nextId) (stats : s'.stats = { s.stats with history := history }) :
    Passage settings c s (.rating course done [])
      (.between { course with generation := course.generation + 1 } done) s'
  /-- A job of a batch is done. -/
  | worked {course : Course α} {generation : List (Variant α)}
    {results : List (Nat × Except RepairFault (Variant α))} {job : Nat} {v : Variant α}
    {jobs : List (Nat × Variant α)} {answer : Except RepairFault (Variant α)} {s' : Search α ω}
    (scored : ∀ w, answer = .ok w → w.fitness.isSome = true)
    (nextId : s'.nextId = s.nextId) (stats : s'.stats = s.stats) :
    Passage settings c s (.batch course generation results ((job, v) :: jobs))
      (.batch course generation (results ++ [(job, answer)]) jobs) s'
  /-- All jobs of a batch are done, and there is no repair. -/
  | settled {course : Course α} {generation evaluated : List (Variant α)}
    {results : List (Nat × Except RepairFault (Variant α))} {s' : Search α ω} {history : List α}
    (settled : settle results 0 generation = .ok evaluated) (nextId : s'.nextId = s.nextId)
    (stats : s'.stats =
      { s.stats with
        evaluations := s.stats.evaluations + (generation.filter (·.fitness.isNone)).length
        history := history }) :
    Passage settings c s (.batch course generation results [])
      (.between { course with generation := course.generation + 1 } evaluated) s'
  /-- All jobs of a batch are done, and there is a repair. -/
  | fixed {course : Course α} {generation : List (Variant α)}
    {results : List (Nat × Except RepairFault (Variant α))} {report : RunReport α}
    {s' : Search α ω} (outcome : report.outcome = .repaired)
    (stats : report.stats =
      { s.stats with
        evaluations := s.stats.evaluations + (generation.filter (·.fitness.isNone)).length }) :
    Passage settings c s (.batch course generation results []) (.over (.ok report)) s'
  /-- After the end nothing happens. -/
  | ended {result : Except RepairFault (RunReport α)} :
    Passage settings c s (.over result) (.over result) s

variable (settings : Settings α) (c : Collaborators α ω)

theorem passage_fresh (root : Node) (s : Search α ω) :
    Passage settings c s (.fresh root) ((Stage.fresh root).next settings c s).1.1
      ((Stage.fresh root).next settings c s).2 := by
  rw [Stage.next]
  cases hvalid : settings.validate with
  | error fault =>
    rw [opening, hvalid]
    exact .failed
  | ok _ =>
    rcases hes : s.bench.establish c.executor root with ⟨fault | a, b⟩
    · obtain ⟨result, s', hopening, -, hresult⟩ := opening_of_error hvalid hes
      rw [hopening]
      cases result with
      | error fault => exact .failed
      | ok report =>
        obtain ⟨hunfit, -, hstats⟩ := hresult report rfl
        exact .unfit hunfit hstats
    · cases hb : b.evaluator.baseline with
      | none =>
        rw [opening_of_no_baseline hvalid hes hb]
        exact .failed
      | some base =>
        rw [opening_of_ok hvalid hes hb, embark, bind_apply, bind_apply]
        simp only []
        split
        · exact .flawless rfl rfl
        · exact .founded hvalid rfl rfl rfl rfl rfl

theorem passage_between (course : Course α) (population : List (Variant α)) (s : Search α ω) :
    Passage settings c s (.between course population)
      ((Stage.between course population).next settings c s).1.1
      ((Stage.between course population).next settings c s).2 := by
  rw [Stage.next]
  cases course.remaining with
  | zero => exact .gaveUp (fun h => by cases h) rfl
  | succ remaining =>
    simp only []
    rw [bind_apply]
    cases (isCancelled c s).1 with
    | true => exact .gaveUp (fun h => by cases h) rfl
    | false =>
      obtain ⟨parents, s', hselected, hnext, hstats, hfew, hnone, hids, hscored⟩ :=
        selectParents_spec settings population (enter course.generation (isCancelled c s).2).2
      simp only [Bool.false_eq_true, if_false]
      rw [bind_apply, bind_apply, hselected]
      exact .entered hfew hnone hscored hids hnext hstats

theorem passage_crossing (course : Course α) (bred parents : List (Variant α))
    (s : Search α ω) :
    Passage settings c s (.crossing course bred parents)
      ((Stage.crossing course bred parents).next settings c s).1.1
      ((Stage.crossing course bred parents).next settings c s).2 := by
  have hlast (rest : List (Variant α)) (hfew : rest.length < 2) :
      Passage settings c s (.crossing course bred rest)
        (.varying course [] (refill settings course.original (bred ++ rest) s).1)
        (refill settings course.original (bred ++ rest) s).2 := by
    obtain ⟨copies, hmade, hlength, hids, hcopied⟩ :=
      refill_spec settings course.original (bred ++ rest) s
    rw [hmade]
    exact .filled hfew hlength hids hcopied rfl rfl
  match parents with
  | [] => exact hlast [] (by simp)
  | [a] => exact hlast [a] (by simp)
  | a :: b :: rest =>
    rw [Stage.next, bind_apply]
    obtain ⟨x, y, s', hmade, hnext, hstats, hx, hy, hx', hy'⟩ | ⟨s', hmade, hnext, hstats⟩ :=
      crossPair_spec a b s
    · rw [hmade]
      exact .crossed hnext hstats hx hy hx' hy'
    · rw [hmade]
      exact .missed hnext hstats

theorem passage_varying (course : Course α) (done todo : List (Variant α)) (s : Search α ω) :
    Passage settings c s (.varying course done todo)
      ((Stage.varying course done todo).next settings c s).1.1
      ((Stage.varying course done todo).next settings c s).2 := by
  cases todo with
  | nil => exact .handed
  | cons v todo =>
    obtain ⟨w, s', renewed, hmade, hnext, hstats, hid, hfitness⟩ := vary_spec settings c v s
    rw [Stage.next, bind_apply, hmade]
    exact .varied hid hfitness hnext hstats

theorem passage_rating (course : Course α) (done todo : List (Variant α)) (s : Search α ω) :
    Passage settings c s (.rating course done todo)
      ((Stage.rating course done todo).next settings c s).1.1
      ((Stage.rating course done todo).next settings c s).2 := by
  cases todo with
  | nil => exact .closed rfl rfl
  | cons v todo =>
    by_cases hv : v.fitness.isSome = true
    · rw [Stage.next, if_pos hv]
      exact .spared hv
    · have hnone : v.fitness = none := Option.not_isSome_iff_eq_none.mp hv
      rw [Stage.next, if_neg hv, bind_apply]
      rcases hev : s.bench.evaluate c.executor v with ⟨e | ⟨a, w⟩, b⟩
      · rw [evaluateNext_of_error hev]
        exact .failed
      · rw [evaluateNext_of_ok hev]
        obtain ⟨hid, hfitness⟩ := evaluate_spec hev
        simp only []
        split
        · exact .found hnone rfl rfl
        · exact .rated hnone hid (by rw [hfitness]; rfl) rfl rfl

theorem passage_batch (course : Course α) (generation : List (Variant α))
    (results : List (Nat × Except RepairFault (Variant α))) (jobs : List (Nat × Variant α))
    (s : Search α ω) :
    Passage settings c s (.batch course generation results jobs)
      ((Stage.batch course generation results jobs).next settings c s).1.1
      ((Stage.batch course generation results jobs).next settings c s).2 := by
  cases jobs with
  | nil =>
    rw [Stage.next, bind_apply]
    cases hset : settle results 0 generation with
    | error e => exact .failed
    | ok evaluated =>
      simp only []
      rw [bind_apply]
      cases hfix : evaluated.find? (isRepair course.maximum) with
      | none => exact .settled hset rfl rfl
      | some fix => exact .fixed rfl rfl
  | cons entry jobs =>
    obtain ⟨job, v⟩ := entry
    rcases hev : s.bench.evaluate c.executor v with ⟨answer, b⟩
    rw [Stage.next, bind_apply, onBench_eq hev rfl]
    refine .worked (fun w hw => ?_) rfl rfl
    obtain ⟨⟨a, w'⟩, rfl, rfl⟩ := exists_of_map_eq_ok hw
    rw [(evaluate_spec hev).2]
    rfl

/-- Every step is of one of these kinds. -/
theorem passage (stage : Stage α) (s : Search α ω) :
    Passage settings c s stage (stage.next settings c s).1.1 (stage.next settings c s).2 := by
  cases stage with
  | fresh root => exact passage_fresh settings c root s
  | between course population => exact passage_between settings c course population s
  | crossing course bred parents => exact passage_crossing settings c course bred parents s
  | varying course done todo => exact passage_varying settings c course done todo s
  | rating course done todo => exact passage_rating settings c course done todo s
  | batch course generation results jobs =>
    exact passage_batch settings c course generation results jobs s
  | _ => exact .ended

/-! ## What a run never changes -/

/-- The evaluator scores and localizes by the same policies. -/
def SamePolicies (e e' : Evaluator α) : Prop := e'.policy = e.policy ∧ e'.suspicion = e.suspicion

omit [Scalar α] [Root α] in
theorem SamePolicies.of_eq {e e' : Evaluator α} (h : e' = e) : SamePolicies e e' := by
  rw [h]
  exact ⟨rfl, rfl⟩

omit [Root α] in
theorem samePolicies_offers (vs : List (Variant α)) (b : Bench α ω) :
    SamePolicies b.evaluator (vs.foldl Bench.offer b).evaluator := by
  rw [Bench.offers_eq]
  exact ⟨rfl, rfl⟩

theorem samePolicies_evaluate (executor : Executor α ω) (v : Variant α) (b : Bench α ω) :
    SamePolicies b.evaluator (b.evaluate executor v).2.evaluator := by
  cases hb : b.evaluator.baseline with
  | none =>
    rw [Bench.evaluate, hb]
    exact ⟨rfl, rfl⟩
  | some base =>
    rw [Bench.evaluator_evaluate hb]
    exact ⟨rfl, rfl⟩

theorem samePolicies_fresh (root : Node) (s : Search α ω) :
    SamePolicies s.bench.evaluator
      ((Stage.fresh root).next settings c s).2.bench.evaluator := by
  rw [Stage.next]
  cases hvalid : settings.validate with
  | error fault =>
    rw [opening, hvalid]
    exact ⟨rfl, rfl⟩
  | ok _ =>
    rcases hes : s.bench.establish c.executor root with ⟨fault | a, b⟩
    · obtain ⟨result, s', hopening, hs', -⟩ := opening_of_error hvalid hes
      rw [hopening, hs']
      exact .of_eq (Bench.evaluator_of_establish hes)
    · obtain ⟨base, he, -⟩ := Bench.fits_of_establish hes
      rw [opening_of_ok hvalid hes (by rw [he]), embark, bind_apply, bind_apply]
      have hoffered : SamePolicies s.bench.evaluator
          (b.offer ((Variant.new 0 root).assess a.fitness a.failing)).evaluator := by
        rw [Bench.offer_eq, he]
        exact ⟨rfl, rfl⟩
      simp only []
      split
      · exact hoffered
      · exact hoffered

/-- No step changes the policies. -/
theorem samePolicies_next (stage : Stage α) (s : Search α ω) :
    SamePolicies s.bench.evaluator (stage.next settings c s).2.bench.evaluator := by
  match stage with
  | .fresh root => exact samePolicies_fresh settings c root s
  | .between course population =>
    rw [Stage.next]
    cases course.remaining with
    | zero => exact ⟨rfl, rfl⟩
    | succ remaining =>
      simp only []
      rw [bind_apply]
      cases (isCancelled c s).1 with
      | true => exact ⟨rfl, rfl⟩
      | false => exact .of_eq (steady_selectParents settings population _).1
  | .crossing course bred [] => exact .of_eq (steady_refill settings course.original _ s).1
  | .crossing course bred [a] => exact .of_eq (steady_refill settings course.original _ s).1
  | .crossing course bred (a :: b :: rest) => exact .of_eq (steady_crossPair a b s).1
  | .varying course done [] => exact ⟨rfl, rfl⟩
  | .varying course done (v :: todo) => exact .of_eq (steady_vary settings c v s).1
  | .rating course done [] => exact ⟨rfl, rfl⟩
  | .rating course done (v :: todo) =>
    by_cases hv : v.fitness.isSome = true
    · rw [Stage.next, if_pos hv]
      exact ⟨rfl, rfl⟩
    · have hev := samePolicies_evaluate c.executor v s.bench
      rw [Stage.next, if_neg hv, bind_apply]
      rcases hanswer : s.bench.evaluate c.executor v with ⟨e | ⟨a, w⟩, b⟩
      · rw [evaluateNext_of_error hanswer]
        rwa [hanswer] at hev
      · rw [evaluateNext_of_ok hanswer]
        rw [hanswer] at hev
        have hoffered : SamePolicies s.bench.evaluator (b.offer w).evaluator := by
          rw [Bench.offer_eq]
          exact hev
        simp only []
        split
        · exact hoffered
        · exact hoffered
  | .batch course generation results [] =>
    rw [Stage.next, bind_apply]
    cases settle results 0 generation with
    | error e => exact ⟨rfl, rfl⟩
    | ok evaluated =>
      have hoffered := samePolicies_offers evaluated s.bench
      simp only []
      rw [bind_apply]
      cases evaluated.find? (isRepair course.maximum) with
      | none => exact hoffered
      | some fix => exact hoffered
  | .batch course generation results ((job, v) :: jobs) =>
    exact samePolicies_evaluate c.executor v s.bench
  | .over result => exact ⟨rfl, rfl⟩

end Search

end GeneticRepair
