import GeneticRepair.Proofs.Evolution.Accounts
import GeneticRepair.Proofs.Evolution.Heredity
import GeneticRepair.Proofs.Evolution.Veil

/-!
# `Proofs/Evolution/Tracking.lean` — the best variant of a run

The evaluator keeps the best variant that it was offered, the history its fitness after each
generation. Not every variant of a generation is offered: in turn, one that comes with a fitness is
passed over, and in a batch it is offered again. It makes no difference, because it has been outdone
before (`Variant.Outdone`), and so between two generations the best variant is what would have come
of offering the original and then all variants of all generations in their order (`Tracks`).

* `turnout_evaluateGeneration`: what the evaluation of a generation does, in either mode.
* `tracked_evolve`: the induction over the generations.
* `best_tracked`: history and best variant of every report.
-/

set_option autoImplicit false

namespace GeneticRepair

open Evaluator (fitter Tops leader Highest Foremost)

variable {α ω : Type} [Scalar α]

/-- A variant is no repair, and it is not fitter than the best one so far. -/
structure Variant.Outdone (maximum : α) (best : Option (Variant α)) (v : Variant α) : Prop where
  unfixed : Search.isRepair maximum v = false
  tops : Tops best v

theorem Variant.Hereditary.outdone (maximum : α) (best : Option (Variant α)) :
    Variant.Hereditary (·.Outdone maximum best) where
  copyAs _ h := ⟨h.unfixed, h.tops⟩
  become _ _ _ := ⟨rfl, .of_none rfl⟩

namespace Search

variable {settings : Settings α} {c : Collaborators α ω}

/-- Breeding does not look at the history. -/
theorem history_nextGeneration (settings : Settings α) (c : Collaborators α ω)
    (original : Variant α) (population : List (Variant α)) (s : Search α ω) :
    (nextGeneration settings c original population s).2.stats.history = s.stats.history := by
  let φ : Veil α ω ω := ⟨id, id, id, id, id, fun _ => s.stats.history⟩
  have hblind := Veil.blind_nextGeneration settings (φ := φ) (Veil.consults_self rfl c.oracle)
    original population
  have hown := hblind.own (s := s) rfl
  exact (congrArg (·.stats.history) hown).symm

variable [Root α]

/-! ## The evaluation of a generation -/

/-- What comes of the evaluation of a generation: the fix is the first repair, and if there is none
the best variant is what offering all variants makes of it. -/
structure Turnout (maximum : α) (s s' : Search α ω) (vs : List (Variant α))
    (fix : Option (Variant α)) : Prop where
  history_eq : s'.stats.history = s.stats.history
  generations_eq : s'.stats.generations = s.stats.generations
  fix_eq : fix = vs.find? (isRepair maximum)
  best_eq : fix = none →
    s'.bench.evaluator.best = vs.foldl fitter s.bench.evaluator.best

section

variable {maximum : α} {handed vs : List (Variant α)} {fix : Option (Variant α)}
  {s s' : Search α ω}

theorem turnout_evaluateInTurn (htrans : ∀ x y z : α, x < y → y < z → x < z)
    (hhanded : ∀ v ∈ handed, v.Outdone maximum s.bench.evaluator.best)
    (h : evaluateInTurn c maximum handed s = (.ok (vs, fix), s')) :
    Turnout maximum s s' vs fix := by
  induction handed generalizing vs fix s with
  | nil =>
    obtain ⟨hanswer, rfl⟩ := Prod.mk.inj h
    obtain ⟨rfl, rfl⟩ := Prod.mk.inj (Except.ok.inj hanswer)
    exact ⟨rfl, rfl, rfl, fun _ => rfl⟩
  | cons v handed ih =>
    obtain ⟨hv, hlater⟩ := List.forall_mem_cons.mp hhanded
    by_cases hscored : v.fitness.isSome = true
    · -- passing over the variant is as good as offering it
      rw [evaluateInTurn_of_isSome hscored, bind_apply] at h
      rcases hrest : evaluateInTurn c maximum handed s with ⟨answer, t⟩
      rw [hrest] at h
      obtain ⟨hanswer, rfl⟩ := Prod.mk.inj h
      obtain ⟨⟨us, fix⟩, rfl, heq⟩ := exists_of_map_eq_ok hanswer
      obtain ⟨rfl, rfl⟩ := Prod.mk.inj heq
      obtain ⟨hhistory, hgenerations, hfix, hbest⟩ := ih hlater hrest
      refine ⟨hhistory, hgenerations, ?_, fun hnone => ?_⟩
      · rw [List.find?_cons, hv.unfixed, hfix]
      · rw [List.foldl_cons, Evaluator.fitter_of_tops hv.tops, hbest hnone]
    · rw [evaluateInTurn_of_isNone hscored, bind_apply] at h
      have hkept := Bench.best_evaluate c.executor v s.bench
      rcases hev : s.bench.evaluate c.executor v with ⟨e | ⟨a, w⟩, b⟩
      · rw [evaluateNext_of_error hev] at h
        cases h
      · rw [hev] at hkept
        have hoffered : (b.offer w).evaluator.best = fitter s.bench.evaluator.best w := by
          rw [Bench.offer_eq, hkept]
        rw [evaluateNext_of_ok hev] at h
        simp only [] at h
        cases hrepair : isRepair maximum w with
        | true =>
          rw [hrepair, if_pos rfl] at h
          obtain ⟨hanswer, rfl⟩ := Prod.mk.inj h
          obtain ⟨rfl, rfl⟩ := Prod.mk.inj (Except.ok.inj hanswer)
          refine ⟨rfl, rfl, ?_, nofun⟩
          rw [List.find?_cons, hrepair]
        | false =>
          simp only [hrepair, Bool.false_eq_true, if_false] at h
          rw [bind_apply] at h
          generalize hnext : ({ s with
            bench := b.offer w
            stats := { s.stats with evaluations := s.stats.evaluations + 1 } } : Search α ω) = t
            at h
          rcases hrest : evaluateInTurn c maximum handed t with ⟨answer, u⟩
          rw [hrest] at h
          obtain ⟨hanswer, rfl⟩ := Prod.mk.inj h
          obtain ⟨⟨us, fix⟩, rfl, heq⟩ := exists_of_map_eq_ok hanswer
          obtain ⟨rfl, rfl⟩ := Prod.mk.inj heq
          subst hnext
          obtain ⟨hhistory, hgenerations, hfix, hbest⟩ := ih (fun u hu => ⟨(hlater u hu).unfixed, by
            show Tops (b.offer w).evaluator.best u
            rw [hoffered]
            exact (hlater u hu).tops.offer htrans w⟩) hrest
          refine ⟨hhistory, hgenerations, ?_, fun hnone => ?_⟩
          · rw [List.find?_cons, hrepair, hfix]
          · rw [List.foldl_cons, hbest hnone, ← hoffered]

/-- The jobs of a batch are evaluated and no more. -/
theorem evaluateJobs_frame (jobs : List (Nat × Variant α)) (s : Search α ω) :
    (evaluateJobs c jobs s).2.bench.evaluator.best = s.bench.evaluator.best ∧
      (evaluateJobs c jobs s).2.stats = s.stats := by
  induction jobs generalizing s with
  | nil => exact ⟨rfl, rfl⟩
  | cons entry jobs ih =>
    obtain ⟨job, v⟩ := entry
    obtain ⟨hbest, hstats⟩ := ih (onBench (Bench.evaluate c.executor v) s).2
    exact ⟨hbest.trans (Bench.best_evaluate c.executor v s.bench), hstats⟩

theorem turnout_evaluateBatch {number : Nat}
    (h : evaluateBatch c maximum number handed s = (.ok (vs, fix), s')) :
    Turnout maximum s s' vs fix := by
  unfold evaluateBatch at h
  rw [bind_apply, bind_apply] at h
  generalize hjobs : List.filterMap _ _ = jobs at h
  obtain ⟨hbest, hstats⟩ := evaluateJobs_frame (c := c) jobs s
  cases hsettled : settle (evaluateJobs c jobs s).1 0 handed with
  | error e =>
    rw [hsettled] at h
    cases h
  | ok evaluated =>
    rw [hsettled] at h
    obtain ⟨hanswer, rfl⟩ := Prod.mk.inj h
    obtain ⟨rfl, rfl⟩ := Prod.mk.inj (Except.ok.inj hanswer)
    have hhistory := congrArg Tally.history hstats
    have hgenerations := congrArg Tally.generations hstats
    refine ⟨hhistory, hgenerations, rfl, fun _ => ?_⟩
    have hoffers := Bench.offers_eq evaluated (evaluateJobs c jobs s).2.bench
    rw [← hbest]
    exact congrArg (fun b : Bench α ω => b.evaluator.best) hoffers

/-- In either mode. -/
theorem turnout_evaluateGeneration (htrans : ∀ x y z : α, x < y → y < z → x < z) {number : Nat}
    (hhanded : ∀ v ∈ handed, v.Outdone maximum s.bench.evaluator.best)
    (h : evaluateGeneration settings c maximum number handed s = (.ok (vs, fix), s')) :
    Turnout maximum s s' vs fix := by
  unfold evaluateGeneration at h
  split at h
  · exact turnout_evaluateBatch h
  · exact turnout_evaluateInTurn htrans hhanded h

end

/-! ## From generation to generation -/

/-- At some moment of a run a generation is handed over to be evaluated, and that comes to the
given variants and, if there is one, a fix. -/
def TurnsOut (settings : Settings α) (c : Collaborators α ω) (root : Node) (s : Search α ω)
    (generation : Nat) (vs : List (Variant α)) (fix : Option (Variant α)) : Prop :=
  let moment : Nat → Moment α ω := fun n => (step settings c)^[n] (start root s)
  ∃ n course handed t, (moment n).stage = assessing settings c course handed ∧
    course.generation = generation ∧
    evaluateGeneration settings c course.maximum generation handed (moment n).search =
      (.ok (vs, fix), t)

/-- The generations of a run up to now, none of which has a fix, and the history that they leave:
its entries are the fitness of the best variant before the first generation and after each. -/
structure Record (settings : Settings α) (c : Collaborators α ω) (root : Node) (s : Search α ω)
    (original : Variant α) (past : List (List (Variant α))) (history : List α) : Prop where
  scored : original.fitness.isSome = true
  turnsOut : ∀ g vs, past[g]? = some vs → TurnsOut settings c root s (g + 1) vs none
  length_eq : history.length = past.length + 1
  history_eq : ∀ g ≤ past.length,
    history[g]? = (leader (original :: (past.take g).flatten)).bind (·.fitness)

/-- A search between two generations: its best variant is that of all variants so far, and none of
them is a repair. -/
structure Tracks (settings : Settings α) (c : Collaborators α ω) (root : Node) (s₀ : Search α ω)
    (original : Variant α) (maximum : α) (past : List (List (Variant α))) (remaining : Nat)
    (population : List (Variant α)) (s : Search α ω) : Prop where
  reached : Leads settings c (.fresh root, s₀)
    (.between ⟨original, maximum, past.length + 1, remaining⟩ population, s)
  record : Record settings c root s₀ original past s.stats.history
  best_eq : s.bench.evaluator.best = leader (original :: past.flatten)
  unrepaired : ∀ v ∈ original :: past.flatten, isRepair maximum v = false
  population_mem : ∀ v ∈ population, v ∈ past.flatten

theorem turnsOut_of_leads {root : Node} {s₀ s s' : Search α ω} {course : Course α}
    {handed vs : List (Variant α)} {fix : Option (Variant α)}
    (h : Leads settings c (.fresh root, s₀) (assessing settings c course handed, s))
    (hev : evaluateGeneration settings c course.maximum course.generation handed s =
      (.ok (vs, fix), s')) : TurnsOut settings c root s₀ course.generation vs fix := by
  obtain ⟨n, ratings, hn⟩ := h []
  have hmoment : (step settings c)^[n] (start root s₀) = _ := hn
  refine ⟨n, course, handed, s', congrArg Moment.stage hmoment, rfl, ?_⟩
  simp only [hmoment]
  exact hev

theorem accounted_of_leads {root : Node} {s₀ s : Search α ω} {stage : Stage α}
    (h : Leads settings c (.fresh root, s₀) (stage, s)) : stage.Accounted settings s.stats := by
  obtain ⟨n, ratings, hn⟩ := h []
  have haccounted := (accounted_iterate settings c root s₀ n).2
  rwa [show (step settings c)^[n] (start root s₀) = _ from hn] at haccounted

section

variable (hirrefl : ∀ x : α, ¬ x < x) (htrans : ∀ x y z : α, x < y → y < z → x < z)

include hirrefl htrans

omit [Root α] in
/-- With a fitness to begin with there is always a best variant. -/
theorem exists_leader {original : Variant α} (h : original.fitness.isSome = true)
    (vs : List (Variant α)) :
    ∃ v fitness, leader (original :: vs) = some v ∧ v.fitness = some fitness ∧
      Highest fitness (original :: vs) ∧ Foremost v (original :: vs) := by
  obtain ⟨-, hall⟩ | ⟨v, hv, hforemost⟩ := Evaluator.leader_spec hirrefl htrans (original :: vs)
  · rw [hall original List.mem_cons_self] at h
    cases h
  · obtain ⟨fitness, -, -, -, hfitness, hhighest, -⟩ := id hforemost
    exact ⟨v, fitness, hv, hfitness, hhighest, hforemost⟩

namespace Record

variable {root : Node} {s : Search α ω} {original : Variant α} {past : List (List (Variant α))}
  {history : List α}

/-- Every entry is the highest fitness up to its generation. -/
theorem highest (h : Record settings c root s original past history) {g : Nat} {fitness : α}
    (hg : history[g]? = some fitness) : Highest fitness (original :: (past.take g).flatten) := by
  obtain ⟨hlt, -⟩ := List.getElem?_eq_some_iff.mp hg
  obtain ⟨v, fitness', hv, hfitness, hhighest, -⟩ :=
    exists_leader hirrefl htrans h.scored (past.take g).flatten
  rw [h.length_eq] at hlt
  rw [h.history_eq g (Nat.le_of_lt_succ hlt), hv, Option.bind_some, hfitness] at hg
  obtain rfl := Option.some.inj hg
  exact hhighest

/-- A later entry is not below an earlier one, because more variants stand for it. -/
theorem rising (h : Record settings c root s original past history) {i j : Nat} {x y : α}
    (hij : i ≤ j) (hi : history[i]? = some x) (hj : history[j]? = some y) : ¬ y < x := by
  obtain ⟨v, hv, hfitness⟩ := (h.highest hirrefl htrans hi).attained
  refine (h.highest hirrefl htrans hj).not_lt v ?_ x hfitness
  refine (List.mem_cons.mp hv).elim (fun heq => heq ▸ List.mem_cons_self) fun hv => ?_
  obtain ⟨vs, hvs, hv⟩ := List.mem_flatten.mp hv
  exact List.mem_cons_of_mem _
    (List.mem_flatten.mpr ⟨vs, (List.take_prefix_take_left hij).subset hvs, hv⟩)

omit hirrefl htrans in
theorem first_eq (h : Record settings c root s original past history) :
    history[0]? = original.fitness := by
  obtain ⟨fitness, hfitness⟩ := Option.isSome_iff_exists.mp h.scored
  have hleader : leader [original] = some original :=
    Evaluator.fitter_of_above hfitness nofun
  rw [h.history_eq 0 (Nat.zero_le _), List.take_zero, List.flatten_nil, hleader, Option.bind_some]

omit hirrefl htrans in
/-- The last entry stands for all generations. -/
theorem getLast?_eq (h : Record settings c root s original past history) :
    history.getLast? = (leader (original :: past.flatten)).bind (·.fitness) := by
  rw [List.getLast?_eq_getElem?, h.length_eq, Nat.add_sub_cancel, h.history_eq _ (Nat.le_refl _),
    List.take_length]

/-- The next generation makes the next entry. -/
theorem next (h : Record settings c root s original past history) {vs : List (Variant α)}
    (hvs : TurnsOut settings c root s (past.length + 1) vs none) {best : Option (Variant α)}
    (hbest : best = leader (original :: (past ++ [vs]).flatten)) :
    Record settings c root s original (past ++ [vs])
      (history ++ [(best.map fitnessOrZero).getD 0]) := by
  obtain ⟨v, fitness, hv, hfitness, -⟩ :=
    exists_leader hirrefl htrans h.scored (past ++ [vs]).flatten
  refine ⟨h.scored, fun g us hus => ?_, by simp [h.length_eq], fun g hg => ?_⟩
  · obtain hlt | hge := Nat.lt_or_ge g past.length
    · rw [List.getElem?_append_left hlt] at hus
      exact h.turnsOut g us hus
    · rw [List.getElem?_append_right hge, List.getElem?_singleton] at hus
      split at hus
      · obtain rfl := Option.some.inj hus
        obtain rfl : g = past.length := by omega
        exact hvs
      · cases hus
  · rw [List.length_append, List.length_singleton] at hg
    obtain hlt | rfl := Nat.lt_or_eq_of_le hg
    · have hle := Nat.le_of_lt_succ hlt
      rw [List.getElem?_append_left (h.length_eq ▸ hlt), List.take_append_of_le_length hle]
      exact h.history_eq g hle
    · rw [← h.length_eq, List.getElem?_concat_length, h.length_eq, hbest, hv,
        List.take_of_length_le (by simp), hv, Option.bind_some, hfitness, Option.map_some,
        Option.getD_some, fitnessOrZero, hfitness, Option.getD_some]

end Record

/-! ### One generation -/

namespace Tracks

variable {root : Node} {s₀ s : Search α ω} {original : Variant α} {maximum : α}
  {past : List (List (Variant α))} {remaining : Nat} {population : List (Variant α)}

/-- Whatever there has been up to now is outdone. -/
theorem outdone (h : Tracks settings c root s₀ original maximum past remaining population s) :
    ∀ v ∈ original :: past.flatten, v.Outdone maximum s.bench.evaluator.best := by
  intro v hv
  refine ⟨h.unrepaired v hv, ?_⟩
  rw [h.best_eq]
  exact Evaluator.tops_of_mem htrans hirrefl hv

/-- A generation is bred from what is outdone, and so its evaluation turns out in the same way in
either mode. -/
theorem turnout (h : Tracks settings c root s₀ original maximum past (remaining + 1) population s)
    (hcontinues : (isCancelled c s).1 = false) {bred vs : List (Variant α)}
    {fix : Option (Variant α)} {t t' : Search α ω}
    (hbred : nextGeneration settings c original population
      (enter (past.length + 1) (isCancelled c s).2).2 = (bred, t))
    (hev : evaluateGeneration settings c maximum (past.length + 1) bred t = (.ok (vs, fix), t')) :
    Leads settings c (.fresh root, s₀)
        (assessing settings c ⟨original, maximum, past.length + 1, remaining⟩ bred, t) ∧
      TurnsOut settings c root s₀ (past.length + 1) vs fix ∧
      t.stats.history = s.stats.history ∧ t.bench.evaluator.best = s.bench.evaluator.best ∧
      t.stats.generations = past.length + 1 ∧ Turnout maximum t t' vs fix := by
  have hhanded : Leads settings c
      (.between ⟨original, maximum, past.length + 1, remaining + 1⟩ population, s) _ :=
    leads_handed hcontinues
  have hhistory := history_nextGeneration settings c original population
    (enter (past.length + 1) (isCancelled c s).2).2
  obtain ⟨heq, houtdone⟩ : _ = s.bench.evaluator ∧ _ :=
    Steady.nextGeneration (.outdone maximum s.bench.evaluator.best) (.inr fun _ hv => ⟨hv.1, hv.2⟩)
      settings (h.outdone hirrefl htrans original List.mem_cons_self)
      (fun v hv => h.outdone hirrefl htrans v (List.mem_cons_of_mem _ (h.population_mem v hv)))
      (enter (past.length + 1) (isCancelled c s).2).2
  rw [hbred] at hhanded hhistory heq houtdone
  have hreached := h.reached.trans hhanded
  have hgenerations : t.stats.generations = past.length + 1 := by
    have haccounted := accounted_of_leads hreached
    unfold assessing at haccounted
    split at haccounted
    · exact haccounted.1.symm
    · exact haccounted.1.symm
  refine ⟨hreached, turnsOut_of_leads hreached hev, hhistory, congrArg Evaluator.best heq,
    hgenerations, turnout_evaluateGeneration htrans (fun v hv => ?_) hev⟩
  rw [show t.bench.evaluator = s.bench.evaluator from heq]
  exact houtdone v hv

/-- A generation without a fix is one more of them. -/
theorem next (h : Tracks settings c root s₀ original maximum past (remaining + 1) population s)
    (hcontinues : (isCancelled c s).1 = false) {bred vs : List (Variant α)} {t t' : Search α ω}
    (hbred : nextGeneration settings c original population
      (enter (past.length + 1) (isCancelled c s).2).2 = (bred, t))
    (hev : evaluateGeneration settings c maximum (past.length + 1) bred t = (.ok (vs, none), t')) :
    Tracks settings c root s₀ original maximum (past ++ [vs]) remaining vs (recordBest t').2 := by
  obtain ⟨hreached, hturnsOut, hhistory, hbest, -, hturnout⟩ :=
    h.turnout hirrefl htrans hcontinues hbred hev
  have hflat : original :: (past ++ [vs]).flatten = original :: past.flatten ++ vs := by simp
  have hleader : t'.bench.evaluator.best = leader (original :: (past ++ [vs]).flatten) := by
    rw [hturnout.best_eq rfl, hbest, h.best_eq, hflat, Evaluator.leader_append]
  refine ⟨hreached.trans ?_, ?_, hleader, fun v hv => ?_, fun v hv => ?_⟩
  · have hclosed : Leads settings c _ _ :=
      leads_evaluateGeneration ⟨original, maximum, past.length + 1, remaining⟩ bred t
    rw [bind_apply, hev] at hclosed
    rw [List.length_append]
    exact hclosed
  · show Record settings c root s₀ original (past ++ [vs]) (t'.stats.history ++ [_])
    rw [hturnout.history_eq, hhistory]
    exact h.record.next hirrefl htrans hturnsOut hleader
  · rw [hflat] at hv
    obtain hv | hv := List.mem_append.mp hv
    · exact h.unrepaired v hv
    · have hnone := List.find?_eq_none.mp hturnout.fix_eq.symm v hv
      exact Bool.eq_false_iff.mpr hnone
  · rw [List.flatten_append]
    exact List.mem_append_right _ (by simpa using hv)

end Tracks

/-! ### All generations -/

/-- How a report goes with the generations of its run that have no fix. -/
inductive Ending (settings : Settings α) (c : Collaborators α ω) (root : Node) (s : Search α ω)
    (original : Variant α) (maximum : α) (past : List (List (Variant α))) (report : RunReport α) :
    Prop where
  /-- There is no repair, and the best variant is reported. -/
  | gaveUp (record : Record settings c root s original past report.stats.history)
    (outcome : report.outcome = .exhausted ∨ report.outcome = .cancelled)
    (generations : report.stats.generations = past.length)
    (best : leader (original :: past.flatten) = some report.best)
    (fitness : report.bestFitness = fitnessOrZero report.best)
    (maximum : report.maxFitness = maximum)
  /-- The original needs no repair. -/
  | flawless (record : Record settings c root s original past report.stats.history)
    (outcome : report.outcome = .repaired) (none : past = [])
    (generations : report.stats.generations = 0) (best : report.best = original)
    (repair : isRepair maximum original = true) (maximum : report.maxFitness = maximum)
  /-- The last generation has the first repair. -/
  | fixed {vs : List (Variant α)}
    (record : Record settings c root s original past report.stats.history)
    (outcome : report.outcome = .repaired)
    (generations : report.stats.generations = past.length + 1)
    (turnsOut : TurnsOut settings c root s (past.length + 1) vs (some report.best))
    (first : vs.find? (isRepair maximum) = some report.best)
    (unrepaired : ∀ v ∈ original :: past.flatten, isRepair maximum v = false)
    (maximum : report.maxFitness = maximum)

variable {root : Node} {s₀ : Search α ω} {original : Variant α} {maximum : α}

namespace Ending

variable {past : List (List (Variant α))} {report : RunReport α}

omit hirrefl htrans

theorem record (h : Ending settings c root s₀ original maximum past report) :
    Record settings c root s₀ original past report.stats.history := by
  cases h with
  | gaveUp record => exact record
  | flawless record => exact record
  | fixed record => exact record

theorem maxFitness_eq (h : Ending settings c root s₀ original maximum past report) :
    report.maxFitness = maximum := by
  cases h with
  | gaveUp _ _ _ _ _ hmaximum => exact hmaximum
  | flawless _ _ _ _ _ _ hmaximum => exact hmaximum
  | fixed _ _ _ _ _ _ hmaximum => exact hmaximum

theorem fit (h : Ending settings c root s₀ original maximum past report) :
    report.outcome ≠ .unfit := by
  intro hunfit
  cases h with
  | gaveUp _ outcome =>
    rw [hunfit] at outcome
    exact outcome.elim nofun nofun
  | flawless _ outcome =>
    rw [hunfit] at outcome
    cases outcome
  | fixed _ outcome =>
    rw [hunfit] at outcome
    cases outcome

theorem of_unrepaired (h : Ending settings c root s₀ original maximum past report)
    (houtcome : report.outcome = .exhausted ∨ report.outcome = .cancelled) :
    past.length = report.stats.generations ∧
      leader (original :: past.flatten) = some report.best ∧
      report.bestFitness = fitnessOrZero report.best := by
  cases h with
  | gaveUp _ _ generations best fitness => exact ⟨generations.symm, best, fitness⟩
  | flawless _ outcome =>
    rw [outcome] at houtcome
    exact houtcome.elim nofun nofun
  | fixed _ outcome =>
    rw [outcome] at houtcome
    exact houtcome.elim nofun nofun

theorem of_flawless (h : Ending settings c root s₀ original maximum past report)
    (houtcome : report.outcome = .repaired) (hgenerations : report.stats.generations = 0) :
    past.length = 0 ∧ report.best = original ∧ isRepair maximum report.best = true := by
  cases h with
  | gaveUp _ outcome =>
    rw [houtcome] at outcome
    exact outcome.elim nofun nofun
  | flawless _ _ hpast _ best repair => exact ⟨hpast ▸ rfl, best, best ▸ repair⟩
  | fixed _ _ generations => exact absurd (generations.symm.trans hgenerations) (Nat.succ_ne_zero _)

theorem of_fixed (h : Ending settings c root s₀ original maximum past report)
    (houtcome : report.outcome = .repaired) (hgenerations : 1 ≤ report.stats.generations) :
    report.stats.generations = past.length + 1 ∧
      (∀ v ∈ original :: past.flatten, isRepair maximum v = false) ∧
      ∃ before after, TurnsOut settings c root s₀ report.stats.generations
          (before ++ report.best :: after) (some report.best) ∧
        isRepair maximum report.best = true ∧ ∀ v ∈ before, isRepair maximum v = false := by
  cases h with
  | gaveUp _ outcome =>
    rw [houtcome] at outcome
    exact outcome.elim nofun nofun
  | flawless _ _ _ generations => exact absurd generations (Nat.pos_iff_ne_zero.mp hgenerations)
  | fixed _ _ generations turnsOut first unrepaired =>
    obtain ⟨hrepair, before, after, rfl, hbefore⟩ := List.find?_eq_some_iff_append.mp first
    refine ⟨generations, unrepaired, before, after, generations.symm ▸ turnsOut, hrepair,
      fun v hv => ?_⟩
    simpa using hbefore v hv

include hirrefl htrans in
/-- Without a repair the best variant is reported, with the fitness of the last entry. -/
theorem foremost (h : Ending settings c root s₀ original maximum past report)
    (houtcome : report.outcome = .exhausted ∨ report.outcome = .cancelled) :
    Foremost report.best (original :: past.flatten) ∧
      report.best.fitness = some report.bestFitness ∧
      report.stats.history.getLast? = some report.bestFitness := by
  obtain ⟨-, hbest, hfitness⟩ := h.of_unrepaired houtcome
  obtain ⟨v, highest, hv, hhighest, -, hforemost⟩ :=
    exists_leader hirrefl htrans h.record.scored past.flatten
  obtain rfl := Option.some.inj (hbest.symm.trans hv)
  have hreported : report.best.fitness = some report.bestFitness := by
    rw [hfitness, fitnessOrZero, hhighest, Option.getD_some]
  refine ⟨hforemost, hreported, ?_⟩
  rw [h.record.getLast?_eq, hbest, Option.bind_some, hreported]

end Ending

theorem Tracks.gaveUp {s : Search α ω} {past : List (List (Variant α))} {remaining : Nat}
    {population : List (Variant α)} {outcome : Outcome}
    (h : Tracks settings c root s₀ original maximum past remaining population s)
    (houtcome : outcome = .exhausted ∨ outcome = .cancelled) :
    Ending settings c root s₀ original maximum past
      (conclude outcome (s.bench.evaluator.best.getD original) maximum s).1 := by
  obtain ⟨v, fitness, hv, hfitness, -⟩ :=
    exists_leader hirrefl htrans h.record.scored past.flatten
  have hgenerations : s.stats.generations = past.length :=
    (Nat.succ.inj (accounted_of_leads h.reached).1).symm
  refine .gaveUp h.record houtcome hgenerations ?_ rfl rfl
  show _ = some (s.bench.evaluator.best.getD original)
  rw [h.best_eq, hv, Option.getD_some]

theorem tracked_evolve (remaining : Nat) {past : List (List (Variant α))}
    {population : List (Variant α)} {s : Search α ω} {report : RunReport α}
    (h : Tracks settings c root s₀ original maximum past remaining population s)
    (hrun : (evolve settings c original maximum (past.length + 1) population remaining s).1 =
      .ok report) :
    ∃ past, Ending settings c root s₀ original maximum past report := by
  induction remaining generalizing past population s with
  | zero =>
    obtain rfl := Except.ok.inj hrun
    exact ⟨past, h.gaveUp hirrefl htrans (.inl rfl)⟩
  | succ remaining ih =>
    cases hcontinues : (isCancelled c s).1 with
    | true =>
      rw [evolve, bind_apply, hcontinues] at hrun
      obtain rfl := Except.ok.inj hrun
      exact ⟨past, h.gaveUp hirrefl htrans (.inr rfl)⟩
    | false =>
      rw [evolve_of_continues hcontinues] at hrun
      rcases hbred : nextGeneration settings c original population
        (enter (past.length + 1) (isCancelled c s).2).2 with ⟨bred, t⟩
      simp only [hbred] at hrun
      rcases hev : evaluateGeneration settings c maximum (past.length + 1) bred t with
        ⟨e | ⟨vs, fix⟩, t'⟩
      · rw [hev] at hrun
        cases hrun
      · rw [hev] at hrun
        cases fix with
        | some fix =>
          obtain rfl := Except.ok.inj hrun
          obtain ⟨-, hturnsOut, hhistory, -, hgenerations, hturnout⟩ :=
            h.turnout hirrefl htrans hcontinues hbred hev
          have hrecord : Record settings c root s₀ original past t'.stats.history := by
            rw [hturnout.history_eq, hhistory]
            exact h.record
          exact ⟨past, .fixed hrecord rfl (hturnout.generations_eq.trans hgenerations) hturnsOut
            hturnout.fix_eq.symm h.unrepaired rfl⟩
        | none =>
          have hnext := h.next hirrefl htrans hcontinues hbred hev
          refine ih hnext ?_
          rw [List.length_append]
          exact hrun

/-! ### The whole run -/

omit hirrefl htrans in
theorem Record.start (hscored : original.fitness.isSome = true) :
    Record settings c root s₀ original [] [fitnessOrZero original] := by
  obtain ⟨fitness, hfitness⟩ := Option.isSome_iff_exists.mp hscored
  refine ⟨hscored, nofun, rfl, fun g hg => ?_⟩
  obtain rfl := Nat.le_zero.mp hg
  have hleader : leader [original] = some original :=
    Evaluator.fitter_of_above hfitness nofun
  rw [List.take_zero, List.flatten_nil, hleader, Option.bind_some, hfitness, fitnessOrZero,
    hfitness]
  rfl

theorem tracked_run (hvalid : settings.validate = .ok ()) {policy : FitnessPolicy α}
    {suspicion : SuspicionPolicy α} (hs : s₀.bench.evaluator = .new policy suspicion)
    {a : Assessment α} {b : Bench α ω} {base : Baseline α} {report : RunReport α}
    (hes : s₀.bench.establish c.executor root = (.ok a, b))
    (hb : b.evaluator.baseline = some base) (hrun : (run settings c root s₀).1 = .ok report) :
    ∃ past, Ending settings c root s₀ ((Variant.new 0 root).assess a.fitness a.failing)
      base.maximum past report := by
  let original := (Variant.new 0 root).assess a.fitness a.failing
  have hopening := opening_of_ok hvalid hes hb
  have hnext : Leads settings c (.fresh root, s₀) ((opening settings c root s₀).1.1,
    (opening settings c root s₀).2) := .next (.fresh root) s₀
  have hoffered : (b.offer original).evaluator.best = leader [original] := by
    obtain ⟨_, he, -⟩ := Bench.fits_of_establish hes
    rw [Bench.offer_eq, he, hs]
    rfl
  have hstart : Record settings c root s₀ original [] [fitnessOrZero original] := .start rfl
  rw [run_of_ok hvalid hes hb] at hrun
  rw [hopening] at hnext
  cases hrepair : isRepair base.maximum original with
  | true =>
    rw [searchFrom, bind_apply, bind_apply, if_pos hrepair] at hrun
    obtain rfl := Except.ok.inj hrun
    exact ⟨[], .flawless hstart rfl rfl rfl rfl hrepair rfl⟩
  | false =>
    have hlow : ¬ isRepair base.maximum original = true := Bool.eq_false_iff.mp hrepair
    rw [searchFrom, bind_apply, bind_apply, if_neg hlow] at hrun
    rw [embark, bind_apply, bind_apply, if_neg hlow] at hnext
    have htracks : Tracks settings c root s₀ original base.maximum [] settings.maxGenerations []
        _ := ⟨hnext, hstart, hoffered, fun v hv => List.mem_singleton.mp hv ▸ hrepair,
          fun v hv => absurd hv List.not_mem_nil⟩
    exact tracked_evolve hirrefl htrans settings.maxGenerations htracks hrun

/-- A report says that the program cannot be tested, or it goes with some generations. -/
theorem ending_of_run {policy : FitnessPolicy α} {suspicion : SuspicionPolicy α}
    (hs : s₀.bench.evaluator = .new policy suspicion) {report : RunReport α}
    (hrun : (run settings c root s₀).1 = .ok report) :
    report.outcome = .unfit ∧ report.stats.history = [] ∨
      ∃ a b base past, s₀.bench.establish c.executor root = (.ok a, b) ∧
        b.evaluator.baseline = some base ∧
        Ending settings c root s₀ ((Variant.new 0 root).assess base.fitness base.tests.negative)
          base.maximum past report := by
  have hvalid : settings.validate = .ok () := by
    cases hvalid : settings.validate with
    | error fault =>
      rw [run, hvalid] at hrun
      cases hrun
    | ok _ => rfl
  rcases hes : s₀.bench.establish c.executor root with ⟨fault | a, b⟩
  · rw [run_of_error hvalid hes] at hrun
    cases fault with
    | unfitBaseline cause =>
      obtain rfl := Except.ok.inj hrun
      exact .inl ⟨rfl, rfl⟩
    | _ => cases hrun
  · obtain ⟨base, he, -, hfits, hfitness, hfailing⟩ := Bench.fits_of_establish hes
    have hb : b.evaluator.baseline = some base := by rw [he]
    obtain ⟨past, hending⟩ := tracked_run hirrefl htrans hvalid hs hes hb hrun
    rw [hfitness, ← hfits.fitness_eq, hfailing] at hending
    exact .inr ⟨a, b, base, past, rfl, hb, hending⟩

end

/-- What a run on a new evaluator reports of its best variants. If the program can be tested, the
history begins with its fitness, and each later entry is the highest fitness among the program and
the variants of the generations up to then, so it never decreases. Without a repair there is one
entry for each generation besides the first, and the best variant is the first one, by generation
and place, that has the fitness of the last entry. A repair is either the program itself, or it is
the first variant of the last generation that reaches the maximum, and then none of an earlier
generation does and that generation has no entry. -/
theorem best_tracked (hirrefl : ∀ x : α, ¬ x < x) (htrans : ∀ x y z : α, x < y → y < z → x < z)
    {root : Node} {s : Search α ω} {policy : FitnessPolicy α} {suspicion : SuspicionPolicy α}
    (hs : s.bench.evaluator = .new policy suspicion) {report : RunReport α}
    (hrun : (run settings c root s).1 = .ok report) :
    let history := report.stats.history
    let generations := report.stats.generations
    (report.outcome = .unfit → history = []) ∧
    (report.outcome ≠ .unfit → ∃ a b base, ∃ past : List (List (Variant α)),
      s.bench.establish c.executor root = (.ok a, b) ∧ b.evaluator.baseline = some base ∧
      report.maxFitness = base.maximum ∧
      let original := (Variant.new 0 root).assess base.fitness base.tests.negative
      (∀ g vs, past[g]? = some vs → TurnsOut settings c root s (g + 1) vs none) ∧
      history.length = past.length + 1 ∧
      history[0]? = some base.fitness ∧
      (∀ g fitness, history[g]? = some fitness →
        Highest fitness (original :: (past.take g).flatten)) ∧
      (∀ (i j : Nat) (x y : α), i ≤ j → history[i]? = some x → history[j]? = some y → ¬ y < x) ∧
      (report.outcome = .exhausted ∨ report.outcome = .cancelled →
        past.length = generations ∧ history.length = 1 + generations ∧
        Foremost report.best (original :: past.flatten) ∧
        report.best.fitness = some report.bestFitness ∧
        history.getLast? = some report.bestFitness) ∧
      (report.outcome = .repaired →
        (generations = 0 → history.length = 1 ∧ report.best = original ∧
          isRepair report.maxFitness report.best = true) ∧
        (1 ≤ generations → history.length = generations ∧ ∃ before after,
          TurnsOut settings c root s generations (before ++ report.best :: after)
            (some report.best) ∧
          isRepair report.maxFitness report.best = true ∧
          ∀ v ∈ original :: (past.flatten ++ before),
            isRepair report.maxFitness v = false))) := by
  intro history generations
  obtain ⟨hunfit, hnone⟩ | ⟨a, b, base, past, hes, hb, hending⟩ :=
    ending_of_run hirrefl htrans hs hrun
  · exact ⟨fun _ => hnone, fun hfit => absurd hunfit hfit⟩
  refine ⟨fun hunfit => absurd hunfit hending.fit, fun _ =>
    ⟨a, b, base, past, hes, hb, hending.maxFitness_eq, ?_⟩⟩
  intro original
  have hrecord : Record settings c root s original past history := hending.record
  have hlength : history.length = past.length + 1 := hrecord.length_eq
  have hhighest (g : Nat) (fitness : α) (hg : history[g]? = some fitness) :=
    hrecord.highest hirrefl htrans hg
  have hrising (i j : Nat) (x y : α) (hij : i ≤ j) (hi : history[i]? = some x)
      (hj : history[j]? = some y) := hrecord.rising hirrefl htrans hij hi hj
  refine ⟨hrecord.turnsOut, hlength, hrecord.first_eq, hhighest, hrising, fun hended => ?_,
    fun hrepaired => ⟨fun hnone => ?_, fun hpositive => ?_⟩⟩
  · obtain ⟨hgenerations, -⟩ := hending.of_unrepaired hended
    refine ⟨hgenerations, ?_, hending.foremost hirrefl htrans hended⟩
    rw [hlength, hgenerations, Nat.add_comm]
  · obtain ⟨hpast, hbest, hrepair⟩ := hending.of_flawless hrepaired hnone
    rw [hlength, hpast, hending.maxFitness_eq]
    exact ⟨rfl, hbest, hrepair⟩
  · obtain ⟨hgenerations, hearlier, before, after, hturnsOut, hrepair, hbefore⟩ :=
      hending.of_fixed hrepaired hpositive
    rw [hending.maxFitness_eq]
    refine ⟨hlength.trans hgenerations.symm, before, after, hturnsOut, hrepair, ?_⟩
    rw [← List.cons_append]
    exact List.forall_mem_append.mpr ⟨hearlier, hbefore⟩

end Search

/-! ## Two statements too many -/

namespace Half

open Search

def program : Node :=
  .make 4 .file [.make 1 .atomicStatement [.leaf 0 "x" ⟨1, 1⟩],
    .make 3 .atomicStatement [.leaf 2 "y" ⟨2, 1⟩]]

/-- Both statements are suspicious. -/
def marks : Store Rat :=
  ⟨#[.fresh [], (Mark.fresh []).raise 1, .fresh [], (Mark.fresh []).raise 1, .fresh []]⟩

/-- The first test passes on the program, the second wants a single statement, and nothing can be
done about the third. -/
def results (root : Node) : List TestResult :=
  [⟨⟨"Test", "builds"⟩, none⟩,
    ⟨⟨"Test", "single"⟩, if root.statements.length = 1 then none else some ⟨"crowded", none⟩⟩,
    ⟨⟨"Test", "hopeless"⟩, some ⟨"out of reach", none⟩⟩]

def team : Collaborators Rat Unit where
  executor := ⟨fun root _ _ _ before => (.ok ⟨results root, none⟩, before)⟩
  oracle := none
  cancelled memory := (false, memory)
  schedule := .inOrder
  seed := 0

def settings : Settings Rat := ⟨2, 2, 0, .program, [.delete], false, some 0⟩

def search : Search Rat Unit := .new ⟨.new .standard .keepAll, marks, .empty, ()⟩

/-- Only the first generation is an improvement, and its best variant is reported. -/
theorem best_tracked_half : ∃ (_ : Root Rat) (report : RunReport Rat)
    (original : Variant Rat) (first second : List (Variant Rat)),
    (run settings team program search).1 = .ok report ∧
      report.outcome = .exhausted ∧ report.stats.history = [1, 11, 11] ∧
      TurnsOut settings team program search 1 first none ∧
      TurnsOut settings team program search 2 second none ∧
      Foremost report.best (original :: (first ++ second)) ∧ report.best.fitness = some 11 := by
  let _ : Root Rat := ⟨id⟩
  have hfacts : ((run settings team program search).1.toOption.map fun r =>
      (r.outcome, r.stats.history, r.bestFitness)) = some (.exhausted, [1, 11, 11], 11) := by
    rw [run]
    unfold restart
    rw [WordStream.ofSeed_eq]
    decide +kernel
  cases hrun : (run settings team program search).1 with
  | error fault =>
    rw [hrun] at hfacts
    cases hfacts
  | ok report =>
    rw [hrun] at hfacts
    obtain ⟨houtcome, htail⟩ := Prod.mk.inj (Option.some.inj hfacts)
    obtain ⟨hhistory, hfitness⟩ := Prod.mk.inj htail
    have hs : search.bench.evaluator = .new .standard .keepAll := rfl
    obtain ⟨-, htracked⟩ :=
      best_tracked (fun x => lt_irrefl x) (fun x y z => lt_trans) hs hrun
    obtain ⟨a, b, base, past, -, -, -, hturnsOut, hlength, -, -, -, hended, -⟩ :=
      htracked (by rw [houtcome]; decide)
    obtain ⟨-, -, hforemost, hbest, -⟩ := hended (.inl houtcome)
    rw [hhistory] at hlength
    obtain ⟨first, second, rfl⟩ := List.length_eq_two.mp (Nat.succ.inj hlength).symm
    rw [List.flatten_cons, List.flatten_singleton] at hforemost
    exact ⟨_, report, _, first, second, hrun, houtcome, hhistory, hturnsOut 0 first rfl,
      hturnsOut 1 second rfl, hforemost, hbest.trans (congrArg some hfitness)⟩

end Half

end GeneticRepair
