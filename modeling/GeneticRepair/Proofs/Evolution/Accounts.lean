import GeneticRepair.Proofs.Evolution.Passage
import GeneticRepair.Proofs.Evolution.Repaired

/-!
# `Proofs/Evolution/Accounts.lean` — the counters of a run agree

Every generation is as large as it has to be, and every variant of it has one turn that is counted
once. A new program comes from a turn or from a crossing and has no fitness, and it is evaluated
once. So the counters of a run bound one another: `Tally.Balances` says how, with what is still
due at the stage in question, and `Stage.Accounted` says what is due at each stage.

* `accounts`: what that gives for the report of a run.
-/

set_option autoImplicit false

namespace GeneticRepair

variable {α : Type}

/-! ## Balances -/

namespace Tally

/-- The turns that have been counted. -/
def turns (t : Tally α) : Nat :=
  t.insertions + t.deletions + t.refusedMutations + t.idleMutations + t.oracleCalls

/-- The new programs that came from a turn. -/
def edits (t : Tally α) : Nat := t.insertions + t.deletions + (t.oracleCalls - t.oracleMisses)

/-- The counters agree, when `turns` variants have had their turn, `pairs` pairs of parents may have
been crossed, at most `due` programs are still to be evaluated, and at least all but `owed` of the
new programs from turns have been. -/
structure Balances (t : Tally α) (turns pairs due owed : Nat) : Prop where
  turns_eq : t.turns = turns
  misses_le : t.oracleMisses ≤ t.oracleCalls
  pairs_le : t.crossings + t.missedCrossings ≤ pairs
  evaluations_le : t.evaluations + due ≤ t.edits + 2 * t.crossings
  edits_le : t.edits ≤ t.evaluations + owed

theorem Balances.zero : (zero : Tally α).Balances 0 0 0 0 := by
  constructor <;> simp [Tally.zero, Tally.turns, Tally.edits]

variable {t t' : Tally α} {turns pairs due owed : Nat}

theorem Balances.mono {pairs' due' owed' : Nat} (h : t.Balances turns pairs due owed)
    (hpairs : pairs ≤ pairs') (hdue : due' ≤ due) (howed : owed ≤ owed') :
    t.Balances turns pairs' due' owed' := by
  obtain ⟨hturns, hmisses, hle, heval, hedits⟩ := h
  exact ⟨hturns, hmisses, hle.trans hpairs, by omega, by omega⟩

/-- A turn is counted once, and the program that it makes is due. -/
theorem Balances.change {renewed : Bool} (h : t.Balances turns pairs due owed)
    (hchange : t.Change renewed t') :
    t'.Balances (turns + 1) pairs (due + renewed.toNat) (owed + renewed.toNat) := by
  obtain ⟨hturns, hmisses, hle, heval, hedits⟩ := h
  simp only [Tally.turns, Tally.edits] at hturns heval hedits
  cases hchange with
  | _ =>
    constructor
    · simp only [Tally.turns]
      omega
    · simp only []
      omega
    · exact hle
    · simp only [Tally.edits, Bool.toNat_true, Bool.toNat_false]
      omega
    · simp only [Tally.edits, Bool.toNat_true, Bool.toNat_false]
      omega

theorem Change.generations_eq {renewed : Bool} (h : t.Change renewed t') :
    t'.generations = t.generations := by
  cases h with
  | _ => rfl

/-- Evaluations settle what is due. -/
theorem Balances.evaluate {count : Nat} (h : t.Balances turns pairs (due + count) (owed + count)) :
    ({ t with evaluations := t.evaluations + count } : Tally α).Balances turns pairs due owed := by
  obtain ⟨hturns, hmisses, hle, heval, hedits⟩ := h
  simp only [Tally.edits] at heval hedits
  refine ⟨hturns, hmisses, hle, ?_, ?_⟩
  · simp only [Tally.edits]
    omega
  · simp only [Tally.edits]
    omega

/-- A pair that is crossed makes two programs. -/
theorem Balances.cross (h : t.Balances turns pairs due owed) :
    ({ t with crossings := t.crossings + 1 } : Tally α).Balances turns (pairs + 1) (due + 2)
      owed := by
  obtain ⟨hturns, hmisses, hle, heval, hedits⟩ := h
  simp only [Tally.edits] at heval
  refine ⟨hturns, hmisses, ?_, ?_, hedits⟩
  · simp only []
    omega
  · simp only [Tally.edits]
    omega

theorem Balances.miss (h : t.Balances turns pairs due owed) :
    ({ t with missedCrossings := t.missedCrossings + 1 } : Tally α).Balances turns (pairs + 1) due
      owed := by
  obtain ⟨hturns, hmisses, hle, heval, hedits⟩ := h
  refine ⟨hturns, hmisses, ?_, heval, hedits⟩
  simp only []
  omega

theorem Balances.enter (h : t.Balances turns pairs due owed) (generation : Nat) :
    ({ t with generations := generation } : Tally α).Balances turns pairs due owed :=
  ⟨h.turns_eq, h.misses_le, h.pairs_le, h.evaluations_le, h.edits_le⟩

theorem Balances.note (h : t.Balances turns pairs due owed) (history : List α) :
    ({ t with history := history } : Tally α).Balances turns pairs due owed :=
  ⟨h.turns_eq, h.misses_le, h.pairs_le, h.evaluations_le, h.edits_le⟩

end Tally

namespace Search

variable {ω : Type}

/-- How many variants have no fitness. -/
def unscored (vs : List (Variant α)) : Nat := vs.countP (·.fitness.isNone)

theorem unscored_eq (vs : List (Variant α)) :
    (vs.filter (·.fitness.isNone)).length = unscored vs :=
  List.countP_eq_length_filter.symm

theorem unscored_nil : unscored ([] : List (Variant α)) = 0 := rfl

theorem unscored_append (vs ws : List (Variant α)) :
    unscored (vs ++ ws) = unscored vs + unscored ws :=
  List.countP_append

theorem unscored_cons (v : Variant α) (vs : List (Variant α)) :
    unscored (v :: vs) = unscored vs + v.fitness.isNone.toNat := by
  rw [unscored, List.countP_cons]
  cases v.fitness with
  | none => rfl
  | some fitness => rfl

theorem unscored_eq_zero {vs : List (Variant α)} (h : ∀ v ∈ vs, v.fitness.isSome = true) :
    unscored vs = 0 := by
  refine List.countP_eq_zero.mpr fun v hv hnone => ?_
  have hsome := h v hv
  rw [Option.isNone_iff_eq_none.mp hnone] at hsome
  cases hsome

theorem unscored_of_isSome {v : Variant α} (h : v.fitness.isSome = true) (vs : List (Variant α)) :
    unscored (v :: vs) = unscored vs := by
  rw [unscored_cons, ← Option.not_isSome, h]
  rfl

theorem unscored_of_eq_none {v : Variant α} (h : v.fitness = none) (vs : List (Variant α)) :
    unscored (v :: vs) = unscored vs + 1 := by
  rw [unscored_cons, h]
  rfl

/-- Of two parents that go on, nothing is due but their children. -/
theorem unscored_family {a b : Variant α} {rest : List (Variant α)}
    (h : ∀ v ∈ a :: b :: rest, v.fitness.isSome = true) (bred children : List (Variant α)) :
    unscored (bred ++ a :: b :: children) = unscored bred + unscored children := by
  rw [unscored_append, unscored_of_isSome (h a List.mem_cons_self),
    unscored_of_isSome (h b (List.mem_cons_of_mem a List.mem_cons_self))]

/-! ## What is due at each stage -/

/-- The size of a generation, or what is left of it while parents are being crossed. -/
def Stage.Sized (size : Nat) : Stage α → Prop
  | .crossing _ bred parents => bred.length + 2 * parents.length ≤ size
  | .varying _ done todo => (done ++ todo).length = size
  | .rating _ done todo => (done ++ todo).length = size
  | .batch _ generation _ _ => generation.length = size
  | _ => True

/-- The most pairs of parents that there can be before a generation is changed. -/
def pairsBefore (settings : Settings α) (generation : Nat) : Nat :=
  settings.populationSize / 2 / 2 * (generation - 1)

/-- Before the first generation there are no parents, and later ones have at most a quarter of a
generation of pairs each. -/
theorem pairsBefore_succ {settings : Settings α} {generation parents : Nat}
    (hfew : parents ≤ settings.populationSize / 2)
    (hfirst : generation = 0 → parents = 0) :
    pairsBefore settings generation + parents / 2 ≤ pairsBefore settings (generation + 1) := by
  have hpairs : parents / 2 ≤ settings.populationSize / 2 / 2 := Nat.div_le_div_right hfew
  cases generation with
  | zero =>
    rw [hfirst rfl, pairsBefore]
    exact Nat.zero_le _
  | succ generation =>
    show settings.populationSize / 2 / 2 * generation + parents / 2 ≤
      settings.populationSize / 2 / 2 * (generation + 1)
    rw [Nat.mul_succ]
    exact Nat.add_le_add_left hpairs _

/-- The tally balances with what is due at a stage. -/
def Stage.Accounted (settings : Settings α) (t : Tally α) : Stage α → Prop
  | .fresh _ => True
  | .between course population =>
    course.generation = t.generations + 1 ∧ course.original.fitness.isSome = true ∧
      (∀ v ∈ population, v.fitness.isSome = true) ∧ (t.generations = 0 → population = []) ∧
      t.Balances (settings.populationSize * t.generations) (pairsBefore settings t.generations) 0 0
  | .crossing course bred parents =>
    course.generation = t.generations ∧ course.original.fitness.isSome = true ∧
      (∀ v ∈ parents, v.fitness.isSome = true) ∧
      ∃ generation pairs, t.generations = generation + 1 ∧
        pairs + parents.length / 2 ≤ pairsBefore settings t.generations ∧
        t.Balances (settings.populationSize * generation) pairs (unscored bred) 0
  | .varying course done todo =>
    course.generation = t.generations ∧ course.original.fitness.isSome = true ∧
      ∃ generation, t.generations = generation + 1 ∧
        t.Balances (settings.populationSize * generation + done.length)
          (pairsBefore settings t.generations) (unscored (done ++ todo)) (unscored done)
  | .rating course done todo =>
    course.generation = t.generations ∧ course.original.fitness.isSome = true ∧
      (∀ v ∈ done, v.fitness.isSome = true) ∧ settings.parallel = false ∧ 1 ≤ t.generations ∧
      t.Balances (settings.populationSize * t.generations) (pairsBefore settings t.generations)
        (unscored todo) (unscored todo)
  | .batch course generation results jobs =>
    course.generation = t.generations ∧ course.original.fitness.isSome = true ∧
      Covers generation results jobs ∧ 1 ≤ t.generations ∧
      t.Balances (settings.populationSize * t.generations) (pairsBefore settings t.generations)
        (unscored generation) (unscored generation)
  | .over (.error _) => True
  | .over (.ok report) =>
    ∃ owed, (owed = 0 ∨ report.outcome = .repaired ∧ settings.parallel = false) ∧
      report.stats.Balances (settings.populationSize * report.stats.generations)
        (pairsBefore settings report.stats.generations) 0 owed

variable [Scalar α] {settings : Settings α} {c : Collaborators α ω} {s s' : Search α ω}
  {stage stage' : Stage α} {course : Course α}

/-- Two parents and their two children never make a generation too large. -/
theorem Stage.Sized.passage (h : stage.Sized settings.populationSize)
    (hstep : Passage settings c s stage stage' s') : stage'.Sized settings.populationSize := by
  cases hstep with
  | entered few =>
    simp only [Stage.Sized, List.length_nil]
    omega
  | crossed =>
    simp only [Stage.Sized, List.length_append, List.length_cons, List.length_nil] at h ⊢
    omega
  | missed =>
    simp only [Stage.Sized, List.length_append, List.length_cons, List.length_nil] at h ⊢
    omega
  | filled few size =>
    simp only [Stage.Sized, List.length_append, List.length_nil] at h size ⊢
    omega
  | varied =>
    simp only [Stage.Sized, List.length_append, List.length_cons, List.length_nil] at h ⊢
    omega
  | handed =>
    rw [Stage.Sized, List.append_nil] at h
    unfold assessing
    split
    · exact h
    · exact h
  | spared =>
    simp only [Stage.Sized, List.length_append, List.length_cons, List.length_nil] at h ⊢
    omega
  | rated =>
    simp only [Stage.Sized, List.length_append, List.length_cons, List.length_nil] at h ⊢
    omega
  | worked => exact h
  | _ => trivial

/-! ### Stage by stage -/

theorem accounted_fresh {root : Node} (hstep : Passage settings c s (.fresh root) stage' s') :
    stage'.Accounted settings s'.stats := by
  cases hstep with
  | failed => trivial
  | unfit outcome stats =>
    refine ⟨0, .inl rfl, ?_⟩
    rw [stats]
    exact .zero
  | flawless outcome stats =>
    refine ⟨0, .inl rfl, ?_⟩
    rw [stats]
    exact Tally.Balances.zero.note _
  | founded valid number scored first nextId stats =>
    rw [stats]
    exact ⟨first, scored, fun v hv => absurd hv List.not_mem_nil, fun _ => rfl,
      Tally.Balances.zero.note _⟩

theorem accounted_between {population : List (Variant α)}
    (h : (Stage.between course population).Accounted settings s.stats)
    (hstep : Passage settings c s (.between course population) stage' s') :
    stage'.Accounted settings s'.stats := by
  obtain ⟨hgeneration, horiginal, -, hfirst, hbalance⟩ := h
  cases hstep with
  | failed => trivial
  | gaveUp outcome stats =>
    refine ⟨0, .inl rfl, ?_⟩
    rw [stats]
    exact hbalance
  | entered few orphaned scored numbers nextId stats =>
    rw [stats]
    refine ⟨rfl, horiginal, scored, _, _, hgeneration, ?_, hbalance.enter _⟩
    rw [hgeneration]
    exact pairsBefore_succ few fun hzero => by rw [orphaned (hfirst hzero)]; rfl

theorem accounted_crossing {bred parents : List (Variant α)}
    (h : (Stage.crossing course bred parents).Accounted settings s.stats)
    (hstep : Passage settings c s (.crossing course bred parents) stage' s') :
    stage'.Accounted settings s'.stats := by
  obtain ⟨hgeneration, horiginal, hscored, generation, pairs, hnext, hpairs, hbalance⟩ := h
  cases hstep with
  | failed => trivial
  | @crossed _ _ rest a b x y _ nextId stats first second hx hy =>
    have hdue : unscored (bred ++ [a, b, x, y]) = unscored bred + 2 := by
      rw [unscored_family hscored, unscored_of_eq_none hx, unscored_of_eq_none hy, unscored_nil]
    rw [stats]
    refine ⟨hgeneration, horiginal, fun v hv => hscored v ?_, generation, pairs + 1, hnext, ?_, ?_⟩
    · exact List.mem_cons_of_mem a (List.mem_cons_of_mem b hv)
    · simp only [List.length_cons] at hpairs ⊢
      omega
    · rw [hdue]
      exact hbalance.cross
  | @missed _ _ rest a b _ nextId stats =>
    have hdue : unscored (bred ++ [a, b]) = unscored bred := by
      rw [unscored_family hscored, unscored_nil, Nat.add_zero]
    rw [stats]
    refine ⟨hgeneration, horiginal, fun v hv => hscored v ?_, generation, pairs + 1, hnext, ?_, ?_⟩
    · exact List.mem_cons_of_mem a (List.mem_cons_of_mem b hv)
    · simp only [List.length_cons] at hpairs ⊢
      omega
    · rw [hdue]
      exact hbalance.miss
  | @filled _ _ _ copies _ few size numbers copied nextId stats =>
    have hcopies : ∀ v ∈ copies, v.fitness.isSome = true := fun v hv => by
      rw [copied v hv]
      exact horiginal
    have hdue : unscored ([] ++ (bred ++ parents ++ copies)) = unscored bred := by
      rw [List.nil_append, unscored_append, unscored_append, unscored_eq_zero hscored,
        unscored_eq_zero hcopies]
      rfl
    rw [stats]
    refine ⟨hgeneration, horiginal, generation, hnext, ?_⟩
    rw [hdue]
    exact hbalance.mono (Nat.le_of_add_right_le hpairs) (Nat.le_refl _) (Nat.le_refl _)

theorem accounted_varying {done todo : List (Variant α)}
    (h : (Stage.varying course done todo).Accounted settings s.stats)
    (hsize : (Stage.varying course done todo).Sized settings.populationSize)
    (hstep : Passage settings c s (.varying course done todo) stage' s') :
    stage'.Accounted settings s'.stats := by
  obtain ⟨hgeneration, horiginal, generation, hnext, hbalance⟩ := h
  cases hstep with
  | failed => trivial
  | @varied _ _ todo v w _ renewed number fitness nextId stats =>
    have hsame := stats.generations_eq
    have hnew : renewed.toNat ≤ w.fitness.isNone.toNat ∧
        w.fitness.isNone.toNat ≤ v.fitness.isNone.toNat + renewed.toNat := by
      rw [fitness]
      cases renewed with
      | true => exact ⟨Nat.le_refl _, Nat.le_add_left _ _⟩
      | false => exact ⟨Nat.zero_le _, Nat.le_refl _⟩
    refine ⟨hgeneration.trans hsame.symm, horiginal, generation, hsame.trans hnext, ?_⟩
    rw [hsame, List.length_append]
    refine (hbalance.change stats).mono (Nat.le_refl _) ?_ ?_
    · simp only [unscored_append, unscored_cons, unscored_nil]
      omega
    · simp only [unscored_append, unscored_cons, unscored_nil]
      omega
  | handed =>
    rw [Stage.Sized, List.append_nil] at hsize
    rw [List.append_nil] at hbalance
    have hturns : settings.populationSize * generation + done.length =
        settings.populationSize * s.stats.generations := by
      rw [hnext, Nat.mul_succ, hsize]
    rw [hturns] at hbalance
    unfold assessing
    split
    · exact ⟨hgeneration, horiginal, covers_jobs c.schedule course.generation done,
        by rw [hnext]; exact Nat.succ_pos _, hbalance⟩
    · rename_i hsequential
      exact ⟨hgeneration, horiginal, fun v hv => absurd hv List.not_mem_nil,
        Bool.eq_false_iff.mpr hsequential, by rw [hnext]; exact Nat.succ_pos _, hbalance⟩

theorem accounted_rating {done todo : List (Variant α)}
    (h : (Stage.rating course done todo).Accounted settings s.stats)
    (hstep : Passage settings c s (.rating course done todo) stage' s') :
    stage'.Accounted settings s'.stats := by
  obtain ⟨hgeneration, horiginal, hdone, hsequential, hfirst, hbalance⟩ := h
  have hdone' (v : Variant α) (hv : v.fitness.isSome = true) :
      ∀ w ∈ done ++ [v], w.fitness.isSome = true := by
    intro w hw
    obtain hw | hw := List.mem_append.mp hw
    · exact hdone w hw
    · rwa [List.mem_singleton.mp hw]
  cases hstep with
  | failed => trivial
  | @spared _ _ todo v scored =>
    rw [unscored_of_isSome scored] at hbalance
    exact ⟨hgeneration, horiginal, hdone' v scored, hsequential, hfirst, hbalance⟩
  | @rated _ _ todo v w _ hv number scored nextId stats =>
    rw [unscored_of_eq_none hv] at hbalance
    rw [stats]
    exact ⟨hgeneration, horiginal, hdone' w scored, hsequential, hfirst, hbalance.evaluate⟩
  | @found _ _ todo v report _ hv outcome stats =>
    rw [unscored_of_eq_none hv] at hbalance
    refine ⟨unscored todo, .inr ⟨outcome, hsequential⟩, ?_⟩
    rw [stats]
    exact hbalance.evaluate.mono (Nat.le_refl _) (Nat.zero_le _) (Nat.le_refl _)
  | closed nextId stats =>
    rw [stats]
    exact ⟨congrArg (· + 1) hgeneration, horiginal, hdone,
      fun hzero => absurd hzero (Nat.ne_of_gt hfirst), hbalance.note _⟩

theorem accounted_batch {generation : List (Variant α)}
    {results : List (Nat × Except RepairFault (Variant α))} {jobs : List (Nat × Variant α)}
    (h : (Stage.batch course generation results jobs).Accounted settings s.stats)
    (hstep : Passage settings c s (.batch course generation results jobs) stage' s') :
    stage'.Accounted settings s'.stats := by
  obtain ⟨hgeneration, horiginal, hcovers, hfirst, hbalance⟩ := h
  rw [← Nat.zero_add (unscored generation)] at hbalance
  cases hstep with
  | failed => trivial
  | worked scored nextId stats =>
    rw [stats]
    exact ⟨hgeneration, horiginal, hcovers.record scored, hfirst,
      by rwa [Nat.zero_add] at hbalance⟩
  | @settled _ _ evaluated _ _ history hsettled nextId stats =>
    rw [unscored_eq] at stats
    rw [stats]
    refine ⟨congrArg (· + 1) hgeneration, horiginal, fun v hv => ?_,
      fun hzero => absurd hzero (Nat.ne_of_gt hfirst), hbalance.evaluate.note _⟩
    have hmem := mem_settle hsettled fun i hi => by
      rw [Nat.zero_add]
      exact (hcovers.all i hi).resolve_right List.not_mem_nil
    obtain ⟨-, hscored⟩ | ⟨job, hresult⟩ := hmem v hv
    · exact hscored
    · exact hcovers.scored job v hresult
  | fixed outcome stats =>
    rw [unscored_eq] at stats
    refine ⟨0, .inl rfl, ?_⟩
    rw [stats]
    exact hbalance.evaluate

/-- One step keeps the balance. -/
theorem Stage.Accounted.passage (h : stage.Accounted settings s.stats)
    (hsize : stage.Sized settings.populationSize) (hstep : Passage settings c s stage stage' s') :
    stage'.Accounted settings s'.stats := by
  cases stage with
  | fresh root => exact accounted_fresh hstep
  | between course population => exact accounted_between h hstep
  | crossing course bred parents => exact accounted_crossing h hstep
  | varying course done todo => exact accounted_varying h hsize hstep
  | rating course done todo => exact accounted_rating h hstep
  | batch course generation results jobs => exact accounted_batch h hstep
  | _ =>
    cases hstep with
    | failed => trivial
    | ended => exact h

/-! ## All of a run -/

/-- The generations whose variants have all had their turn. -/
def Stage.turned : Stage α → Nat
  | .fresh _ => 0
  | .between course _ => course.generation - 1
  | .crossing course _ _ => course.generation - 1
  | .varying course _ (_ :: _) => course.generation - 1
  | .varying course _ [] => course.generation
  | .rating course _ _ => course.generation
  | .batch course _ _ _ => course.generation
  | .over (.error _) => 0
  | .over (.ok report) => report.stats.generations

/-- The turns of a generation come to an end at a moment of its own. -/
theorem turned_passage (h : stage.Accounted settings s.stats)
    (hstep : Passage settings c s stage stage' s') :
    stage'.turned ≤ stage.turned ∨ stage'.turned = stage.turned + 1 ∧
      ∃ course full, stage' = .varying course full [] ∧ course.generation = stage'.turned := by
  cases hstep with
  | failed => exact .inl (Nat.zero_le _)
  | unfit outcome stats => exact .inl (Nat.le_of_eq (congrArg Tally.generations stats))
  | flawless outcome stats => exact .inl (Nat.le_of_eq (congrArg Tally.generations stats))
  | founded valid number scored first nextId stats =>
    exact .inl (Nat.le_of_eq (congrArg (· - 1) first))
  | gaveUp outcome stats =>
    refine .inl (Nat.le_of_eq ((congrArg Tally.generations stats).trans ?_))
    exact (congrArg (· - 1) h.1).symm
  | entered => exact .inl (Nat.le_refl _)
  | crossed => exact .inl (Nat.le_refl _)
  | missed => exact .inl (Nat.le_refl _)
  | @filled course bred rest copies =>
    obtain ⟨hgeneration, -, -, generation, -, hnext, -⟩ := h
    generalize bred ++ rest ++ copies = full
    cases full with
    | nil => exact .inr ⟨by simp only [Stage.turned]; omega, course, [], rfl, rfl⟩
    | cons => exact .inl (Nat.le_refl _)
  | @varied course done todo v w _ renewed =>
    obtain ⟨hgeneration, -, generation, hnext, -⟩ := h
    cases todo with
    | nil => exact .inr ⟨by simp only [Stage.turned]; omega, course, done ++ [w], rfl, rfl⟩
    | cons => exact .inl (Nat.le_refl _)
  | handed =>
    unfold assessing
    split
    · exact .inl (Nat.le_refl _)
    · exact .inl (Nat.le_refl _)
  | spared => exact .inl (Nat.le_refl _)
  | rated => exact .inl (Nat.le_refl _)
  | found unscored outcome stats =>
    exact .inl (Nat.le_of_eq ((congrArg Tally.generations stats).trans h.1.symm))
  | closed => exact .inl (Nat.le_refl _)
  | worked => exact .inl (Nat.le_refl _)
  | settled => exact .inl (Nat.le_refl _)
  | fixed outcome stats =>
    exact .inl (Nat.le_of_eq ((congrArg Tally.generations stats).trans h.1.symm))
  | ended => exact .inl (Nat.le_refl _)

variable [Root α]

theorem accounted_iterate (settings : Settings α) (c : Collaborators α ω) (root : Node)
    (s : Search α ω) (n : Nat) :
    let moment := (step settings c)^[n] (start root s)
    moment.stage.Sized settings.populationSize ∧
      moment.stage.Accounted settings moment.search.stats := by
  induction n with
  | zero => exact ⟨trivial, trivial⟩
  | succ n ih =>
    rw [Function.iterate_succ_apply']
    obtain ⟨hsize, haccounted⟩ := ih
    have hstep := passage settings c ((step settings c)^[n] (start root s)).stage
      ((step settings c)^[n] (start root s)).search
    exact ⟨hsize.passage hstep, haccounted.passage hsize hstep⟩

/-- Every generation there has been had a moment at which all its variants had had their turn. -/
theorem exists_turned (settings : Settings α) (c : Collaborators α ω) (root : Node)
    (s : Search α ω) (n : Nat) :
    ∀ generation, 1 ≤ generation →
      generation ≤ ((step settings c)^[n] (start root s)).stage.turned →
      ∃ k course full, ((step settings c)^[k] (start root s)).stage = .varying course full [] ∧
        course.generation = generation := by
  induction n with
  | zero =>
    intro generation hfirst hle
    exact absurd hle (Nat.not_le_of_gt hfirst)
  | succ n ih =>
    intro generation hfirst hle
    have hturned := turned_passage (accounted_iterate settings c root s n).2
      (passage settings c _ ((step settings c)^[n] (start root s)).search)
    have hnext : ((step settings c)^[n + 1] (start root s)).stage =
        (((step settings c)^[n] (start root s)).stage.next settings c
          ((step settings c)^[n] (start root s)).search).1.1 := by
      rw [Function.iterate_succ_apply']
      rfl
    rw [← hnext] at hturned
    by_cases hold : generation ≤ ((step settings c)^[n] (start root s)).stage.turned
    · exact ih generation hfirst hold
    · obtain hkept | ⟨hmore, course, full, hstage, hgeneration⟩ := hturned
      · exact absurd (hle.trans hkept) hold
      · exact ⟨n + 1, course, full, hstage, by omega⟩

/-- The accounts of a run that returns a report after `G` generations of size `P`. Every
generation has exactly `P` variants while they have their turns, and there have been `G` of them;
each turn is counted once; no more pairs are crossed than `G - 1` generations have; and what
is evaluated is what was edited or bred, all of which is evaluated unless variants were evaluated in
turn and one of them was a repair. -/
theorem accounts {settings : Settings α} {c : Collaborators α ω} {root : Node} {s : Search α ω}
    {report : RunReport α} (h : (run settings c root s).1 = .ok report) :
    let moment : Nat → Moment α ω := fun n => (step settings c)^[n] (start root s)
    let t := report.stats
    (∀ n course done todo, (moment n).stage = .varying course done todo →
      (done ++ todo).length = settings.populationSize) ∧
    (∀ generation, 1 ≤ generation → generation ≤ t.generations →
      ∃ n course full, (moment n).stage = .varying course full [] ∧
        course.generation = generation) ∧
    t.insertions + t.deletions + t.refusedMutations + t.idleMutations + t.oracleCalls =
      settings.populationSize * t.generations ∧
    t.oracleMisses ≤ t.oracleCalls ∧
    t.crossings + t.missedCrossings ≤ settings.populationSize / 2 / 2 * (t.generations - 1) ∧
    t.evaluations ≤
      t.insertions + t.deletions + (t.oracleCalls - t.oracleMisses) + 2 * t.crossings ∧
    (¬ (report.outcome = .repaired ∧ settings.parallel = false) →
      t.insertions + t.deletions + (t.oracleCalls - t.oracleMisses) ≤ t.evaluations) := by
  intro moment t
  obtain ⟨n, ratings, hn⟩ := iterate_step_start settings c root s
  have hover : (moment n).stage = .over (.ok report) := by
    rw [← h]
    exact congrArg Moment.stage hn
  have hfinal := (accounted_iterate settings c root s n).2
  have hreached := exists_turned settings c root s n
  rw [show ((step settings c)^[n] (start root s)).stage = _ from hover] at hfinal hreached
  obtain ⟨owed, hpaid, hbalance⟩ := hfinal
  refine ⟨fun n course done todo hstage => ?_, hreached, hbalance.turns_eq, hbalance.misses_le,
    hbalance.pairs_le, hbalance.evaluations_le, fun hall => ?_⟩
  · have hsize := (accounted_iterate settings c root s n).1
    rwa [show ((step settings c)^[n] (start root s)).stage = _ from hstage] at hsize
  · obtain rfl := hpaid.resolve_right hall
    exact hbalance.edits_le

/-- Two generations of four variants, all shown to the oracle. -/
def twoGenerations : Settings Rat := ⟨4, 2, 1, .program, [.delete], false, some 0⟩

/-- Parents that are alike, and an oracle that proposes every time: all eight programs are
evaluated. -/
theorem accounts_twoGenerations : ∃ (_ : Root Rat) (report : RunReport Rat),
    (run twoGenerations (turningWith mixedRun mixedRun) blank (unused .standard)).1 =
        .ok report ∧
      report.stats.generations = 2 ∧ report.stats.missedCrossings = 1 ∧
      report.stats.turns = 4 * report.stats.generations ∧
      report.stats.crossings + report.stats.missedCrossings ≤ 1 ∧
      report.stats.evaluations ≤ report.stats.edits + 2 * report.stats.crossings ∧
      report.stats.edits ≤ report.stats.evaluations := by
  let _ : Root Rat := ⟨id⟩
  have hcounts : ((run twoGenerations (turningWith mixedRun mixedRun) blank
      (unused .standard)).1.toOption.map fun report =>
        (report.stats.generations, report.stats.missedCrossings, report.outcome)) =
      some (2, 1, .exhausted) := by decide +kernel
  cases hrun : (run twoGenerations (turningWith mixedRun mixedRun) blank (unused .standard)).1 with
  | error fault =>
    rw [hrun] at hcounts
    cases hcounts
  | ok report =>
    rw [hrun] at hcounts
    obtain ⟨hgenerations, hrest⟩ := Prod.mk.inj (Option.some.inj hcounts)
    obtain ⟨hmissed, houtcome⟩ := Prod.mk.inj hrest
    obtain ⟨-, -, hturns, -, hpairs, hle, hge⟩ := accounts hrun
    rw [show report.stats.generations = 2 from hgenerations] at hpairs
    refine ⟨_, report, hrun, hgenerations, hmissed, hturns, hpairs, hle, hge ?_⟩
    rw [show report.outcome = .exhausted from houtcome]
    nofun

end Search

end GeneticRepair
