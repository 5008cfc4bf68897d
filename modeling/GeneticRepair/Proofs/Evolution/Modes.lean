import Mathlib.Algebra.Order.Field.Rat
import GeneticRepair.Numeric.Rational
import GeneticRepair.Proofs.Assessment.Offers
import GeneticRepair.Proofs.Assessment.Verdicts
import GeneticRepair.Proofs.Evolution.Heredity
import GeneticRepair.Proofs.Evolution.Steps
import GeneticRepair.Proofs.Evolution.Veil

/-!
# `Proofs/Evolution/Modes.lean` — in turn or as a batch

A generation is evaluated one variant after the other, up to a fix, or all at once in any order.
The two modes test different variants, offer different ones and look for the fix in different
lists. They agree because an evaluation gives the verdict on a variant whatever has been evaluated
before, and because the variants that a batch offers again (`Settled`) never get in.

Two runs in different modes stay `Abreast` from generation to generation: they differ in disk and
memory only.

* `agrees_evolve`: the induction over the generations.
* `modes_agree`: the reports of the two runs agree.
-/

set_option autoImplicit false

namespace GeneticRepair

open Evaluator (fitter Tops)

variable {α ω τ : Type}

/-- Something ends in a breakdown. -/
def Breaks {β : Type} (answer : Except RepairFault β) : Prop :=
  ∃ fault, answer = .error fault ∧ fault.IsBreakdown

theorem Breaks.of_map {β γ : Type} {answer : Except RepairFault β} {f : β → γ}
    (h : Breaks answer) : Breaks (answer.map f) := by
  obtain ⟨fault, rfl, hfault⟩ := h
  exact ⟨fault, rfl, hfault⟩

/-- Two reports say the same, except that the second one may have taken more evaluations to find a
fix. -/
structure RunReport.Agrees (r r' : RunReport α) : Prop where
  outcome_eq : r'.outcome = r.outcome
  best_eq : r'.best = r.best
  bestFitness_eq : r'.bestFitness = r.bestFitness
  maxFitness_eq : r'.maxFitness = r.maxFitness
  stats_eq : r'.stats = { r.stats with evaluations := r'.stats.evaluations }
  evaluations_le : r.stats.evaluations ≤ r'.stats.evaluations
  evaluations_eq : r.outcome ≠ .repaired → r'.stats.evaluations = r.stats.evaluations

theorem RunReport.Agrees.refl (r : RunReport α) : r.Agrees r :=
  ⟨rfl, rfl, rfl, rfl, rfl, Nat.le_refl _, fun _ => rfl⟩

/-- Two answers of runs agree, unless one of them is a breakdown. -/
def Agree (answer answer' : Except RepairFault (RunReport α)) : Prop :=
  Breaks answer ∨ Breaks answer' ∨ ∃ r r', answer = .ok r ∧ answer' = .ok r' ∧ r.Agrees r'

/-- Test runs can be repeated, there is no oracle, and when to cancel is read off a clock that test
runs do not touch. -/
structure Collaborators.Repeatable (c : Collaborators α ω)
    (answers : Node → Selection → Store α → Except TestRunError TestRun) (clock : ω → τ) :
    Prop where
  oracle_eq : c.oracle = none
  executor : c.executor.Repeatable answers clock
  cancelled_eq : ∀ memory memory', clock memory = clock memory' →
    (c.cancelled memory).1 = (c.cancelled memory').1 ∧
      clock (c.cancelled memory).2 = clock (c.cancelled memory').2

/-- What becomes of a variant in the evaluation of its generation. -/
inductive Variant.Rated (verdict : Variant α → Except IntegrityFault (Variant α)) :
    Variant α → Variant α → Prop where
  | kept {v : Variant α} (known : v.fitness.isSome = true) : Rated verdict v v
  | new {v w : Variant α} (unknown : v.fitness = none) (judged : verdict v = .ok w) :
    Rated verdict v w

/-- A variant from before that evaluations have nothing to say about: it does not wait for a
localization, it is no fix, and it is not fitter than the best one so far. -/
structure Variant.Settled [Scalar α] (maximum : α) (best : Option (Variant α)) (v : Variant α) :
    Prop where
  localized : v.stale = false
  unfixed : Search.isRepair maximum v = false
  tops : Tops best v

theorem Variant.Hereditary.settled [Scalar α] (maximum : α) (best : Option (Variant α)) :
    Variant.Hereditary (·.Settled maximum best) where
  copyAs _ h := ⟨h.localized, h.unfixed, h.tops⟩
  become _ _ h := ⟨h.localized, rfl, .of_none rfl⟩

/-- A bench with another disk and another memory. -/
def Veil.elsewhere (disk : Disk) (memory : ω) : Veil α ω ω :=
  ⟨id, fun _ => disk, fun _ => memory, id, id, id⟩

namespace Search

/-- The search some evaluations later. -/
def later (s : Search α ω) (count : Nat) (best : Option (Variant α)) (disk : Disk) (memory : ω) :
    Search α ω :=
  { s with
    bench := s.bench.later count best disk memory
    stats := { s.stats with evaluations := s.stats.evaluations + count } }

theorem later_later (s : Search α ω) (count count' : Nat) (best best' : Option (Variant α))
    (disk disk' : Disk) (memory memory' : ω) :
    (s.later count best disk memory).later count' best' disk' memory' =
      s.later (count + count') best' disk' memory' := by
  simp only [later, Bench.later, Nat.add_assoc]

/-- Two searches that differ in disk and memory only, at the same time of the clock. -/
def Abreast (clock : ω → τ) (s s' : Search α ω) : Prop :=
  ∃ disk memory, s' = (Veil.elsewhere disk memory).over s ∧ clock memory = clock s.bench.memory

variable [Scalar α] [Root α]

variable {answers : Node → Selection → Store α → Except TestRunError TestRun} {clock : ω → τ}
  {c : Collaborators α ω} {base : Baseline α} {maximum : α}
  {replies : Node → Selection → ScratchFolder → Store α → Except TestRunError TestRun}

/-! ## In turn -/

/-- A variant is evaluated, counted and offered. -/
theorem evaluateNext_verdict (hc : c.executor.Steadfast replies clock) {s : Search α ω}
    (hb : s.bench.evaluator.baseline = some base) {v w : Variant α} (hv : v.stale = false)
    (hw : s.bench.verdict base replies v = .ok w) :
    Breaks (evaluateNext c v s).1 ∨
      ∃ a disk memory, evaluateNext c v s =
          (.ok (a, w), s.later 1 (fitter s.bench.evaluator.best w) disk memory) ∧
        clock memory = clock s.bench.memory := by
  obtain ⟨answer, disk, memory, hev, hclock, ⟨fault, rfl⟩ | hsays⟩ :=
    Bench.evaluate_verdict hc hb hv
  · rw [evaluateNext_of_error hev]
    exact .inl ⟨.storage fault, rfl, trivial⟩
  · rw [hw] at hsays
    obtain ⟨⟨a, w'⟩, rfl, rfl⟩ := exists_of_map_eq_ok hsays
    rw [evaluateNext_of_ok hev, Bench.offer_eq]
    exact .inr ⟨a, disk, memory, rfl, hclock⟩

/-- Evaluated in turn up to the first fix, every variant gets the verdict on it. -/
theorem evaluateInTurn_of_rated (hc : c.executor.Steadfast replies clock)
    (htrans : ∀ x y z : α, x < y → y < z → x < z)
    {verdict : Variant α → Except IntegrityFault (Variant α)} {vs ws : List (Variant α)}
    (h : List.Forall₂ (Variant.Rated verdict) vs ws) {s : Search α ω}
    (hb : s.bench.evaluator.baseline = some base)
    (hverdict : s.bench.verdict base replies = verdict)
    (hsettled : ∀ v ∈ vs, v.Settled maximum s.bench.evaluator.best) :
    Breaks (evaluateInTurn c maximum vs s).1 ∨
      ∃ us count best disk memory,
        evaluateInTurn c maximum vs s =
            (.ok (us, ws.find? (isRepair maximum)), s.later count best disk memory) ∧
          clock memory = clock s.bench.memory ∧
          count ≤ (vs.filter (·.fitness.isNone)).length ∧
          (ws.find? (isRepair maximum) = none → us = ws ∧
            count = (vs.filter (·.fitness.isNone)).length ∧
            best = ws.foldl fitter s.bench.evaluator.best) := by
  induction h generalizing s with
  | nil =>
    exact .inr ⟨[], 0, s.bench.evaluator.best, s.bench.disk, s.bench.memory, rfl, rfl,
      Nat.le_refl 0, fun _ => ⟨rfl, rfl, rfl⟩⟩
  | @cons v w vs ws hrated hrest ih =>
    obtain ⟨hv, hvs⟩ := List.forall_mem_cons.mp hsettled
    cases hrated with
    | kept known =>
      have hnone : v.fitness.isNone = false := by simpa using known
      rw [evaluateInTurn_of_isSome known, bind_apply, List.find?_cons, hv.unfixed,
        List.filter_cons, hnone, List.foldl_cons, Evaluator.fitter_of_tops hv.tops]
      obtain hbreaks | ⟨us, count, best, disk, memory, heq, hclock, hle, hnone⟩ :=
        ih hb hverdict hvs
      · exact .inl hbreaks.of_map
      · rw [heq]
        refine .inr ⟨v :: us, count, best, disk, memory, rfl, hclock, hle, fun hfix => ?_⟩
        obtain ⟨rfl, hcount, hbest⟩ := hnone hfix
        exact ⟨rfl, hcount, hbest⟩
    | new unknown judged =>
      have hnone : v.fitness.isNone = true := by rw [unknown]; rfl
      rw [evaluateInTurn_of_isNone (by rw [unknown]; nofun), bind_apply, List.find?_cons,
        List.filter_cons, hnone, if_pos rfl, List.length_cons, List.foldl_cons]
      obtain ⟨fault, hfault, hbreakdown⟩ | ⟨a, disk, memory, heq, hclock⟩ :=
        evaluateNext_verdict hc hb hv.localized (hverdict ▸ judged)
      · rcases hnext : evaluateNext c v s with ⟨answer, s'⟩
        rw [hnext] at hfault
        obtain rfl : answer = _ := hfault
        exact .inl ⟨fault, rfl, hbreakdown⟩
      · rw [heq]
        simp only []
        cases hfix : isRepair maximum w with
        | true =>
          exact .inr ⟨w :: vs, 1, _, disk, memory, rfl, hclock, Nat.succ_le_succ (Nat.zero_le _),
            nofun⟩
        | false =>
          simp only [Bool.false_eq_true, if_false, bind_apply]
          obtain hbreaks | ⟨us, count, best, disk', memory', heq', hclock', hle, hnone⟩ :=
            ih (s := s.later 1 (fitter s.bench.evaluator.best w) disk memory) hb hverdict
              fun u hu => ⟨(hvs u hu).localized, (hvs u hu).unfixed, (hvs u hu).tops.offer htrans w⟩
          · exact .inl hbreaks.of_map
          · rw [heq', later_later]
            refine .inr ⟨w :: us, 1 + count, best, disk', memory', rfl, hclock'.trans hclock, ?_,
              fun hfix => ?_⟩
            · rw [Nat.add_comm]
              exact Nat.succ_le_succ hle
            · obtain ⟨rfl, rfl, hbest⟩ := hnone hfix
              exact ⟨rfl, Nat.add_comm _ _, hbest⟩

/-! ## As a batch -/

/-- What the evaluation of a variant hands back: the verdict, unless storage fails. -/
def Tells (verdict : Variant α → Except IntegrityFault (Variant α)) (v : Variant α)
    (answer : Except RepairFault (Variant α)) : Prop :=
  (∃ fault, answer = .error (.storage fault)) ∨ answer = (verdict v).mapError .integrity

/-- Every job brings the verdict on its variant, whatever has been done before. -/
theorem evaluateJobs_verdict (hc : c.executor.Steadfast replies clock)
    {jobs : List (Nat × Variant α)} (hjobs : ∀ job ∈ jobs, job.2.stale = false)
    {s : Search α ω} (hb : s.bench.evaluator.baseline = some base) :
    ∃ results disk memory,
      evaluateJobs c jobs s = (results,
          { s with bench := s.bench.later jobs.length s.bench.evaluator.best disk memory }) ∧
        clock memory = clock s.bench.memory ∧
        results.map (·.1) = jobs.map (·.1) ∧
        ∀ result ∈ results, ∃ v, (result.1, v) ∈ jobs ∧
          Tells (s.bench.verdict base replies) v result.2 := by
  induction jobs generalizing s with
  | nil => exact ⟨[], s.bench.disk, s.bench.memory, rfl, rfl, rfl, nofun⟩
  | cons entry jobs ih =>
    obtain ⟨job, v⟩ := entry
    obtain ⟨hv, hvs⟩ := List.forall_mem_cons.mp hjobs
    obtain ⟨answer, disk, memory, hev, hclock, htells⟩ := Bench.evaluate_verdict hc hb hv
    obtain ⟨results, disk', memory', hrest, hclock', hkeys, hall⟩ :=
      ih hvs (s := { s with bench := s.bench.later 1 s.bench.evaluator.best disk memory }) hb
    have hcount : 1 + jobs.length = ((job, v) :: jobs).length := Nat.add_comm _ _
    refine ⟨(job, answer.map (·.2)) :: results, disk', memory', ?_, hclock'.trans hclock,
      congrArg (job :: ·) hkeys, List.forall_mem_cons.mpr ⟨⟨v, List.mem_cons_self, ?_⟩, ?_⟩⟩
    · rw [evaluateJobs, bind_apply, bind_apply, onBench_eq hev rfl, hrest]
      simp only [Bench.later, Nat.add_assoc, hcount]
      rfl
    · exact htells.imp_left fun ⟨fault, hfault⟩ => ⟨fault, by rw [hfault]; rfl⟩
    · exact fun result hresult => (hall result hresult).imp fun w hw =>
        ⟨List.mem_cons_of_mem _ hw.1, hw.2⟩

/-- Every variant without fitness finds its verdict among the results, under its place; places are
counted from the given one on. -/
def Brings (verdict : Variant α → Except IntegrityFault (Variant α))
    (results : List (Nat × Except RepairFault (Variant α))) (job : Nat)
    (generation : List (Variant α)) : Prop :=
  ∀ i v, (generation.filter (·.fitness.isNone))[i]? = some v →
    ∃ answer, results.lookup (job + i) = some answer ∧ Tells verdict v answer

namespace Brings

variable {verdict : Variant α → Except IntegrityFault (Variant α)}
  {results : List (Nat × Except RepairFault (Variant α))} {job : Nat} {v : Variant α}
  {generation : List (Variant α)}

omit [Scalar α] [Root α] in
/-- A variant with fitness has no place. -/
theorem skip (h : Brings verdict results job (v :: generation)) (hv : v.fitness.isSome = true) :
    Brings verdict results job generation := by
  intro i w hw
  refine h i w ?_
  have hnone : ¬ v.fitness.isNone = true := by simp [Option.isSome_iff_ne_none.mp hv]
  rw [List.filter_cons, if_neg hnone]
  exact hw

omit [Scalar α] [Root α] in
theorem first (h : Brings verdict results job (v :: generation)) (hv : v.fitness = none) :
    ∃ answer, results.lookup job = some answer ∧ Tells verdict v answer := by
  refine h 0 v ?_
  rw [List.filter_cons_of_pos (by rw [hv]; rfl)]
  rfl

omit [Scalar α] [Root α] in
theorem later (h : Brings verdict results job (v :: generation)) (hv : v.fitness = none) :
    Brings verdict results (job + 1) generation := by
  intro i w hw
  rw [Nat.add_right_comm, Nat.add_assoc]
  refine h (i + 1) w ?_
  rw [List.filter_cons_of_pos (by rw [hv]; rfl)]
  exact hw

end Brings

omit [Root α] [Scalar α] in
/-- In their places, the results rate the generation. -/
theorem settle_rated {verdict : Variant α → Except IntegrityFault (Variant α)}
    {results : List (Nat × Except RepairFault (Variant α))} {generation : List (Variant α)}
    {job : Nat} (h : Brings verdict results job generation) :
    Breaks (settle results job generation) ∨
      ∃ ws, settle results job generation = .ok ws ∧
        List.Forall₂ (Variant.Rated verdict) generation ws := by
  induction generation generalizing job with
  | nil => exact .inr ⟨[], rfl, .nil⟩
  | cons v generation ih =>
    rw [settle]
    cases hv : v.fitness with
    | some fitness =>
      have hsome : v.fitness.isSome = true := by rw [hv]; rfl
      obtain hbreaks | ⟨ws, hws, hrated⟩ := ih (h.skip hsome)
      · exact .inl hbreaks.of_map
      · rw [hws]
        exact .inr ⟨v :: ws, rfl, .cons (.kept hsome) hrated⟩
    | none =>
      obtain ⟨answer, hanswer, htells⟩ := h.first hv
      simp only [Option.isSome_none, Bool.false_eq_true, if_false, hanswer]
      obtain ⟨fault, rfl⟩ | rfl := htells
      · exact .inl ⟨.storage fault, rfl, trivial⟩
      · cases hw : verdict v with
        | error fault => exact .inl ⟨.integrity fault, rfl, trivial⟩
        | ok w =>
          obtain hbreaks | ⟨ws, hws, hrated⟩ := ih (h.later hv)
          · exact .inl hbreaks.of_map
          · refine .inr ⟨w :: ws, ?_, .cons (.new hv hw) hrated⟩
            show (settle results (job + 1) generation).map (w :: ·) = _
            rw [hws]
            rfl

/-- In whichever order a batch is done, each variant without fitness has its verdict in the end. -/
theorem evaluateJobs_brings (hc : c.executor.Steadfast replies clock) (number : Nat)
    {generation : List (Variant α)} (hgeneration : ∀ v ∈ generation, v.stale = false)
    {s : Search α ω} (hb : s.bench.evaluator.baseline = some base) :
    let unscored := generation.filter (·.fitness.isNone)
    ∃ results disk memory,
      evaluateJobs c ((c.schedule.order number unscored.length).filterMap fun job =>
          unscored[job]?.map (job, ·)) s =
        (results, { s with
          bench := s.bench.later unscored.length s.bench.evaluator.best disk memory }) ∧
        clock memory = clock s.bench.memory ∧
        Brings (s.bench.verdict base replies) results 0 generation := by
  intro unscored
  have hperm : (c.schedule.order number unscored.length).Perm (List.range unscored.length) :=
    c.schedule.perm _ _
  obtain ⟨hkeys, hplaces⟩ := jobs_spec c.schedule number unscored
  generalize (c.schedule.order number unscored.length).filterMap _ = jobs at hkeys hplaces ⊢
  have hlength : jobs.length = unscored.length := by
    rw [← List.length_map (·.1), hkeys, hperm.length_eq, List.length_range]
  have hlocalized : ∀ job ∈ jobs, job.2.stale = false := fun job hjob =>
    hgeneration _ (List.mem_filter.mp (List.mem_of_getElem? (hplaces job hjob))).1
  obtain ⟨results, disk, memory, heq, hclock, hsame, hall⟩ :=
    evaluateJobs_verdict hc hlocalized hb
  rw [hlength] at heq
  refine ⟨results, disk, memory, heq, hclock, fun i v hv => ?_⟩
  rw [Nat.zero_add]
  have hi : i ∈ results.map (·.1) := by
    rw [hsame, hkeys, hperm.mem_iff, List.mem_range]
    exact (List.getElem?_eq_some_iff.mp hv).1
  obtain ⟨⟨i, answer⟩, hresult, rfl⟩ := List.mem_map.mp hi
  cases hlookup : results.lookup i with
  | none => exact absurd rfl (bne_iff_ne.mp (List.lookup_eq_none_iff.mp hlookup _ hresult))
  | some found =>
    obtain ⟨w, hw, htells⟩ := hall _ (mem_of_lookup hlookup)
    obtain rfl : w = v := Option.some.inj ((hplaces _ hw).symm.trans hv)
    exact ⟨found, rfl, htells⟩

/-- What a batch comes to, read off its results. -/
def batched (maximum : α) (s : Search α ω) (count : Nat) (disk : Disk) (memory : ω) :
    Except RepairFault (List (Variant α)) → Except RepairFault (Evaluated α) × Search α ω
  | .error fault => (.error fault, s.later count s.bench.evaluator.best disk memory)
  | .ok ws => (.ok (ws, ws.find? (isRepair maximum)),
    s.later count (ws.foldl fitter s.bench.evaluator.best) disk memory)

/-- A batch comes to what its results say; every variant is offered, unless there is an error. -/
theorem evaluateBatch_brings (hc : c.executor.Steadfast replies clock) (maximum : α)
    (number : Nat) {generation : List (Variant α)} (hgeneration : ∀ v ∈ generation, v.stale = false)
    {s : Search α ω} (hb : s.bench.evaluator.baseline = some base) :
    ∃ results disk memory,
      evaluateBatch c maximum number generation s =
          batched maximum s (generation.filter (·.fitness.isNone)).length disk memory
            (settle results 0 generation) ∧
        clock memory = clock s.bench.memory ∧
        Brings (s.bench.verdict base replies) results 0 generation := by
  obtain ⟨results, disk, memory, heq, hclock, hbrings⟩ :=
    evaluateJobs_brings hc number hgeneration hb
  refine ⟨results, disk, memory, ?_, hclock, hbrings⟩
  rw [evaluateBatch, bind_apply, heq, bind_apply]
  cases settle results 0 generation with
  | error fault => rfl
  | ok ws =>
    simp only [batched]
    rw [bind_apply]
    simp only [onBench, Bench.offers_eq]
    rfl

/-- Evaluated as a batch, every variant gets the verdict on it and is offered. -/
theorem evaluateBatch_rated (hc : c.executor.Steadfast replies clock) (maximum : α)
    (number : Nat) {generation : List (Variant α)} (hgeneration : ∀ v ∈ generation, v.stale = false)
    {s : Search α ω} (hb : s.bench.evaluator.baseline = some base) :
    Breaks (evaluateBatch c maximum number generation s).1 ∨
      ∃ ws disk memory,
        List.Forall₂ (Variant.Rated (s.bench.verdict base replies)) generation ws ∧
          evaluateBatch c maximum number generation s =
            (.ok (ws, ws.find? (isRepair maximum)),
              s.later (generation.filter (·.fitness.isNone)).length
                (ws.foldl fitter s.bench.evaluator.best) disk memory) ∧
          clock memory = clock s.bench.memory := by
  obtain ⟨results, disk, memory, heq, hclock, hbrings⟩ :=
    evaluateBatch_brings hc maximum number hgeneration hb
  rw [heq]
  obtain ⟨fault, hfault, hbreakdown⟩ | ⟨ws, hws, hrated⟩ := settle_rated hbrings
  · rw [hfault]
    exact .inl ⟨fault, rfl, hbreakdown⟩
  · rw [hws]
    exact .inr ⟨ws, disk, memory, hrated, rfl, hclock⟩

omit [Root α] [Scalar α] in
theorem localized_of_rated {verdict : Variant α → Except IntegrityFault (Variant α)}
    (hverdict : ∀ v w, verdict v = .ok w → w.stale = v.stale) {vs ws : List (Variant α)}
    (h : List.Forall₂ (Variant.Rated verdict) vs ws) (hvs : ∀ v ∈ vs, v.stale = false) :
    ∀ w ∈ ws, w.stale = false := by
  induction h with
  | nil => exact nofun
  | @cons v w vs ws hrated hrest ih =>
    obtain ⟨hv, hvs⟩ := List.forall_mem_cons.mp hvs
    refine List.forall_mem_cons.mpr ⟨?_, ih hvs⟩
    cases hrated with
    | kept known => exact hv
    | new unknown judged => exact (hverdict v w judged).trans hv

/-! ## Generation by generation -/

omit [Root α] in
theorem varyAll_of_mode (settings : Settings α) (parallel : Bool) (vs : List (Variant α)) :
    varyAll { settings with parallel := parallel } c vs = varyAll settings c vs := by
  induction vs with
  | nil => rfl
  | cons v vs ih =>
    rw [varyAll, varyAll, ih]
    rfl

omit [Root α] in
/-- Breeding does not ask for the mode. -/
theorem nextGeneration_of_mode (settings : Settings α) (parallel : Bool) (original : Variant α)
    (population : List (Variant α)) :
    nextGeneration { settings with parallel := parallel } c original population =
      nextGeneration settings c original population := by
  unfold nextGeneration
  simp only [varyAll_of_mode]
  rfl

namespace Abreast

variable {s s' : Search α ω}

omit [Scalar α] [Root α] in
theorem isCancelled (hc : c.Repeatable answers clock) (h : Abreast clock s s') :
    (isCancelled c s').1 = (isCancelled c s).1 ∧
      Abreast clock (isCancelled c s).2 (isCancelled c s').2 := by
  obtain ⟨disk, memory, rfl, hclock⟩ := h
  obtain ⟨hsame, hafter⟩ := hc.cancelled_eq _ _ hclock
  exact ⟨hsame, disk, (c.cancelled memory).2, rfl, hafter⟩

omit [Scalar α] [Root α] in
theorem enter (h : Abreast clock s s') (generation : Nat) :
    Abreast clock (enter generation s).2 (enter generation s').2 := by
  obtain ⟨disk, memory, rfl, hclock⟩ := h
  exact ⟨disk, memory, rfl, hclock⟩

omit [Root α] in
theorem recordBest (h : Abreast clock s s') :
    Abreast clock (recordBest s).2 (recordBest s').2 := by
  obtain ⟨disk, memory, rfl, hclock⟩ := h
  exact ⟨disk, memory, rfl, hclock⟩

omit [Root α] in
/-- Breeding looks at neither disk nor memory, and leaves both alone. -/
theorem nextGeneration {c' : Collaborators α ω} (hc : c.oracle = none) (hc' : c'.oracle = none)
    (h : Abreast clock s s') (settings : Settings α) (original : Variant α)
    (population : List (Variant α)) :
    (nextGeneration settings c' original population s').1 =
        (nextGeneration settings c original population s).1 ∧
      Abreast clock (nextGeneration settings c original population s).2
        (nextGeneration settings c' original population s').2 := by
  obtain ⟨disk, memory, rfl, hclock⟩ := h
  have hblind (disk : Disk) (memory : ω) {d : Collaborators α ω} (hd : d.oracle = none) :=
    Veil.blind_nextGeneration settings
      (show (Veil.elsewhere disk memory).Consults c.oracle d.oracle by rw [hc, hd]; trivial)
      original population
  refine ⟨by rw [hblind disk memory hc'], disk, memory, by rw [hblind disk memory hc'], ?_⟩
  -- the search itself has its own disk and memory
  have hown := (hblind s.bench.disk s.bench.memory hc).own (s := s) rfl
  exact hclock.trans (congrArg (clock ·.bench.memory) hown)

end Abreast

section

variable (hc : c.Repeatable answers clock) (hirrefl : ∀ x : α, ¬ x < x)
  (htrans : ∀ x y z : α, x < y → y < z → x < z)

include hc hirrefl htrans

/-- From searches abreast both modes find the same fix, or come abreast again. -/
theorem evaluations_agree {s s' : Search α ω} (h : Abreast clock s s')
    (hb : s.bench.evaluator.baseline = some base) (number : Nat) {generation : List (Variant α)}
    (hsettled : ∀ v ∈ generation, v.Settled maximum s.bench.evaluator.best) :
    Breaks (evaluateInTurn c maximum generation s).1 ∨
      Breaks (evaluateBatch c maximum number generation s').1 ∨
      (∃ us ws fix t t', evaluateInTurn c maximum generation s = (.ok (us, some fix), t) ∧
        evaluateBatch c maximum number generation s' = (.ok (ws, some fix), t') ∧
        (conclude .repaired fix maximum t).1.Agrees (conclude .repaired fix maximum t').1) ∨
      ∃ ws t t', evaluateInTurn c maximum generation s = (.ok (ws, none), t) ∧
        evaluateBatch c maximum number generation s' = (.ok (ws, none), t') ∧
        Abreast clock t t' ∧ t.bench.evaluator.baseline = some base ∧
        (∀ v : Variant α, v.Settled maximum s.bench.evaluator.best →
          v.Settled maximum t.bench.evaluator.best) ∧
        ∀ w ∈ ws, w.Settled maximum t.bench.evaluator.best := by
  obtain ⟨disk, memory, rfl, hclock⟩ := h
  obtain hbreaks | ⟨ws, disk', memory', hrated, hbatch, hclock'⟩ :=
    evaluateBatch_rated hc.executor.steadfast maximum number (fun v hv => (hsettled v hv).localized)
      (show ((Veil.elsewhere disk memory).over s).bench.evaluator.baseline = some base from hb)
  · exact .inr (.inl hbreaks)
  obtain hbreaks | ⟨us, count, best, disk'', memory'', hinTurn, hclock'', hle, hnone⟩ :=
    evaluateInTurn_of_rated hc.executor.steadfast htrans hrated hb rfl hsettled
  · exact .inl hbreaks
  refine .inr (.inr ?_)
  cases hfix : ws.find? (isRepair maximum) with
  | some fix =>
    rw [hfix] at hbatch hinTurn
    exact .inl ⟨us, ws, fix, _, _, hinTurn, hbatch, rfl, rfl, rfl, rfl, rfl,
      Nat.add_le_add_left hle _, fun hne => absurd rfl hne⟩
  | none =>
    rw [hfix] at hbatch hinTurn
    obtain ⟨rfl, rfl, rfl⟩ := hnone hfix
    refine .inr ⟨us, _, _, hinTurn, hbatch, ⟨disk', memory', rfl, ?_⟩, hb, fun v hv =>
      ⟨hv.localized, hv.unfixed, hv.tops.offers htrans us⟩, fun w hw => ⟨?_, ?_, ?_⟩⟩
    · exact (hclock'.trans hclock).trans hclock''.symm
    · exact localized_of_rated (fun v w => Bench.stale_of_verdict) hrated
        (fun v hv => (hsettled v hv).localized) w hw
    · simpa using List.find?_eq_none.mp hfix w hw
    · exact Evaluator.tops_of_mem htrans hirrefl hw

/-- What is abreast after a generation goes on so, in whichever mode the generation was
evaluated. -/
theorem agree_proceed (settings : Settings α) (original : Variant α) (generation remaining : Nat)
    {next : List (Variant α)} {t t' : Search α ω} (h : Abreast clock t t')
    (hb : t.bench.evaluator.baseline = some base)
    (hsettled : ∀ v ∈ next, v.Settled maximum t.bench.evaluator.best)
    (hgoesOn : ∀ (population : List (Variant α)) (u u' : Search α ω), Abreast clock u u' →
      u.bench.evaluator.baseline = some base →
      (∀ v : Variant α, v.Settled maximum t.bench.evaluator.best →
        v.Settled maximum u.bench.evaluator.best) →
      (∀ v ∈ population, v.Settled maximum u.bench.evaluator.best) →
      Agree (evolve { settings with parallel := false } c original maximum (generation + 1)
          population remaining u).1
        (evolve { settings with parallel := true } c original maximum (generation + 1) population
          remaining u').1) :
    let inTurn := evaluateInTurn c maximum next t
    let batch := evaluateBatch c maximum generation next t'
    Agree (proceed { settings with parallel := false } c original maximum generation remaining
        inTurn.1 inTurn.2).1
      (proceed { settings with parallel := true } c original maximum generation remaining
        batch.1 batch.2).1 := by
  intro inTurn batch
  obtain ⟨fault, hfault, hbreakdown⟩ | ⟨fault, hfault, hbreakdown⟩ |
      ⟨us, ws, fix, u, u', hinTurn, hbatch, hagrees⟩ |
      ⟨ws, u, u', hinTurn, hbatch, habreast, hb', hkept, hws⟩ :=
    evaluations_agree hc hirrefl htrans h hb generation hsettled
  · rw [show inTurn.1 = _ from hfault]
    exact .inl ⟨fault, rfl, hbreakdown⟩
  · rw [show batch.1 = _ from hfault]
    exact .inr (.inl ⟨fault, rfl, hbreakdown⟩)
  · rw [show inTurn = _ from hinTurn, show batch = _ from hbatch]
    exact .inr (.inr ⟨_, _, rfl, rfl, hagrees⟩)
  · rw [show inTurn = _ from hinTurn, show batch = _ from hbatch]
    exact hgoesOn ws _ _ habreast.recordBest hb' hkept hws

/-- Runs that are abreast agree in the end. -/
theorem agree_evolve {settings : Settings α} {original : Variant α} (remaining : Nat)
    {generation : Nat} {population : List (Variant α)} {s s' : Search α ω}
    (h : Abreast clock s s') (hb : s.bench.evaluator.baseline = some base)
    (horiginal : original.Settled maximum s.bench.evaluator.best)
    (hpopulation : ∀ v ∈ population, v.Settled maximum s.bench.evaluator.best) :
    Agree (evolve { settings with parallel := false } c original maximum generation population
        remaining s).1
      (evolve { settings with parallel := true } c original maximum generation population
        remaining s').1 := by
  induction remaining generalizing generation population s s' with
  | zero =>
    obtain ⟨disk, memory, rfl, -⟩ := h
    exact .inr (.inr ⟨_, _, rfl, rfl, .refl _⟩)
  | succ remaining ih =>
    obtain ⟨hasked, hcancel⟩ := h.isCancelled hc
    cases hcontinues : (isCancelled c s).1 with
    | true =>
      obtain ⟨disk, memory, heq, -⟩ := hcancel
      rw [evolve, evolve, bind_apply, bind_apply, hasked, hcontinues, heq]
      exact .inr (.inr ⟨_, _, rfl, rfl, .refl _⟩)
    | false =>
      rw [hcontinues] at hasked
      obtain ⟨hsame, hbred⟩ := (hcancel.enter generation).nextGeneration hc.oracle_eq hc.oracle_eq settings
        original population
      obtain ⟨heq, hsettled⟩ : _ = s.bench.evaluator ∧ _ :=
        Steady.nextGeneration (.settled maximum s.bench.evaluator.best) (.inl hc.oracle_eq) settings
          horiginal hpopulation (enter generation (isCancelled c s).2).2
      rw [← heq] at hb hsettled horiginal
      have hnext := agree_proceed hc hirrefl htrans settings original generation remaining hbred hb
        hsettled fun next u u' habreast hb' hkept hnext =>
          ih habreast hb' (hkept original horiginal) hnext
      rw [evolve_of_continues hcontinues, evolve_of_continues hasked]
      simp only [nextGeneration_of_mode, hsame]
      exact hnext

theorem agree_searchFrom (settings : Settings α) {original : Variant α}
    (horiginal : original.stale = false) {s s' : Search α ω} (h : Abreast clock s s')
    (hb : s.bench.evaluator.baseline = some base) :
    Agree (searchFrom { settings with parallel := false } c original maximum s).1
      (searchFrom { settings with parallel := true } c original maximum s').1 := by
  obtain ⟨disk, memory, rfl, hclock⟩ := h
  rw [searchFrom, searchFrom, bind_apply, bind_apply, bind_apply, bind_apply]
  cases hfix : isRepair maximum original with
  | true => exact .inr (.inr ⟨_, _, rfl, rfl, .refl _⟩)
  | false =>
    refine agree_evolve hc hirrefl htrans settings.maxGenerations ⟨disk, memory, rfl, hclock⟩
      (?_ : _ = some base) ⟨horiginal, hfix, ?_⟩ fun v hv => absurd hv List.not_mem_nil
    · rw [← hb]
      simp only [onBench, record, Bench.offer_eq]
      rfl
    · show Tops (s.bench.evaluator.offer original).2.best original
      rw [Evaluator.offer_eq]
      exact Evaluator.tops_offered hirrefl s.bench.evaluator.best original

end

/-! ## The first run -/

/-- First runs at the same time of the clock come to the same, unless storage fails. -/
theorem establish_abreast (hc : c.executor.Steadfast replies clock) {b : Bench α ω}
    (hvalid : b.evaluator.validate = .ok ()) (disk : Disk) {memory : ω}
    (hclock : clock memory = clock b.memory) (root : Node) :
    Breaks (b.establish c.executor root).1 ∨
      Breaks (((Veil.elsewhere disk memory).overBench b).establish c.executor root).1 ∨
      ∃ disk' memory', clock memory' = clock (b.establish c.executor root).2.memory ∧
        ((Veil.elsewhere disk memory).overBench b).establish c.executor root =
          ((b.establish c.executor root).1,
            (Veil.elsewhere disk' memory').overBench (b.establish c.executor root).2) := by
  let b' := (Veil.elsewhere disk memory).overBench b
  have hvalid' : b'.evaluator.validate = .ok () := hvalid
  rcases htrial : b.trial c.executor 0 root (.everything true) with ⟨fault | said, b₁⟩
  · rw [Bench.establish_of_unstored hvalid htrial]
    exact .inl ⟨.storage fault, rfl, trivial⟩
  rcases htrial' : b'.trial c.executor 0 root (.everything true) with ⟨fault | said', b₁'⟩
  · rw [show b'.establish c.executor root = _ from Bench.establish_of_unstored hvalid' htrial']
    exact .inr (.inl ⟨.storage fault, rfl, trivial⟩)
  obtain ⟨disk₁, memory₁, rfl, hclock₁, hsaid⟩ := Bench.trial_answers hc htrial
  obtain ⟨disk', memory', rfl, hclock', hsaid'⟩ := Bench.trial_answers hc htrial'
  obtain rfl := hsaid said rfl
  obtain rfl := hsaid' said' rfl
  let good (φ : Veil α ω ω) : Prop :=
    ∃ disk memory, φ = .elsewhere disk memory ∧ clock memory = clock b.memory
  have hgood : ∀ φ, good φ → φ.Faithful := by
    rintro φ ⟨disk, memory, rfl, -⟩
    exact ⟨fun _ => rfl, fun _ => rfl, fun _ => rfl, fun _ => rfl, fun _ _ => rfl⟩
  have htries : (Veil.elsewhere disk memory).Tries (.elsewhere disk' memory') c.executor c.executor
      0 root (.everything true) b := by
    rw [Veil.Tries, htrial]
    exact htrial'
  obtain ⟨_, ⟨disk₂, memory₂, rfl, hclock₂⟩, heq⟩ := Veil.veiled_establish good hgood
    ⟨disk, memory, rfl, hclock⟩ ⟨_, ⟨disk', memory', rfl, hclock'.trans hclock⟩, htries⟩
  exact .inr (.inr ⟨disk₂, memory₂, hclock₂.trans (Bench.clock_establish hc root b).symm, heq⟩)

theorem breaks_run {settings : Settings α} (hvalid : settings.validate = .ok ()) {root : Node}
    {s : Search α ω} (h : Breaks (s.bench.establish c.executor root).1) :
    Breaks (run settings c root s).1 := by
  obtain ⟨fault, hfault, hbreakdown⟩ := h
  have hes : s.bench.establish c.executor root = (.error fault, _) := Prod.ext hfault rfl
  rw [run_of_error hvalid hes]
  cases fault with
  | unfitBaseline cause => exact hbreakdown.elim
  | _ => exact ⟨_, rfl, hbreakdown⟩

/-- If results of test runs depend on nothing but the program with its marks and the selected tests,
and the environment does not fail, then whether generations are evaluated in turn or as batches, and
in which order a batch is done, makes no difference to what a run on a new evaluator reports. Only
the evaluations that led to a fix may be more in a batch. -/
theorem modes_agree (hc : c.Repeatable answers clock) (hirrefl : ∀ x : α, ¬ x < x)
    (htrans : ∀ x y z : α, x < y → y < z → x < z) (settings : Settings α)
    (hsettings : settings.validate = .ok ()) (policy : FitnessPolicy α)
    (suspicion : SuspicionPolicy α) (hpolicies : (Evaluator.new policy suspicion).validate = .ok ())
    (root : Node) (s s' : Search α ω) (hs : s.bench.evaluator = .new policy suspicion)
    (hs' : s'.bench.evaluator = .new policy suspicion) (hstore : s'.bench.store = s.bench.store)
    (hclock : clock s'.bench.memory = clock s.bench.memory)
    (hholds : ¬ Breaks (run { settings with parallel := false } c root s).1)
    (hholds' : ¬ Breaks (run { settings with parallel := true } c root s').1) :
    ∃ r r', (run { settings with parallel := false } c root s).1 = .ok r ∧
      (run { settings with parallel := true } c root s').1 = .ok r' ∧ r.Agrees r' := by
  have hvalid (parallel : Bool) : ({ settings with parallel := parallel } : Settings α).validate =
      .ok () := hsettings
  have hbench : s'.bench =
      (Veil.elsewhere s'.bench.disk s'.bench.memory).overBench s.bench := by
    show Bench.mk s'.bench.evaluator s'.bench.store _ _ = Bench.mk s.bench.evaluator _ _ _
    rw [hs', hs, hstore]
    rfl
  have hagree : Agree (run { settings with parallel := false } c root s).1
      (run { settings with parallel := true } c root s').1 := by
    have hfresh : s.bench.evaluator.validate = .ok () := hs ▸ hpolicies
    have hfirst := establish_abreast hc.executor.steadfast hfresh s'.bench.disk hclock root
    rw [← hbench] at hfirst
    obtain hbreaks | hbreaks | ⟨disk, memory, hmemory, hes'⟩ := hfirst
    · exact .inl (breaks_run (hvalid false) hbreaks)
    · exact .inr (.inl (breaks_run (hvalid true) hbreaks))
    rcases hes : s.bench.establish c.executor root with ⟨fault | a, b⟩
    · have hfault := Bench.fault_of_establish hfresh (congrArg Prod.fst hes)
      rw [hes] at hes'
      rw [run_of_error (hvalid false) hes, run_of_error (hvalid true) hes']
      obtain hbreakdown | ⟨cause, rfl⟩ := hfault
      · refine .inl ⟨fault, ?_, hbreakdown⟩
        cases fault with
        | unfitBaseline cause => exact hbreakdown.elim
        | _ => rfl
      · exact .inr (.inr ⟨_, _, rfl, rfl, .refl _⟩)
    · rw [hes] at hes' hmemory
      obtain ⟨base, he, -⟩ := Bench.fits_of_establish hes
      have hb : b.evaluator.baseline = some base := by rw [he]
      rw [run_of_ok (hvalid false) hes hb, run_of_ok (hvalid true) hes' hb]
      exact agree_searchFrom hc hirrefl htrans settings rfl ⟨disk, memory, rfl, hmemory⟩ hb
  exact (hagree.resolve_left hholds).resolve_left hholds'

/-! ## A statement too many -/

namespace Surplus

def program : Node :=
  .make 4 .file [.make 1 .atomicStatement [.leaf 0 "x" ⟨1, 1⟩],
    .make 3 .atomicStatement [.leaf 2 "y" ⟨2, 1⟩]]

/-- Both statements are suspicious. -/
def marks : Store Rat :=
  ⟨#[.fresh [], (Mark.fresh []).raise 1, .fresh [], (Mark.fresh []).raise 1, .fresh []]⟩

/-- One test wants a single statement, the other one wants nothing. -/
def results (root : Node) : List TestResult :=
  [⟨⟨"Test", "single"⟩, if root.statements.length = 1 then none else some ⟨"crowded", none⟩⟩,
    ⟨⟨"Test", "builds"⟩, none⟩]

/-- Batches are done from the last job to the first. -/
def team : Collaborators Rat Unit where
  executor := ⟨fun root _ _ _ before => (.ok ⟨results root, none⟩, before)⟩
  oracle := none
  cancelled memory := (false, memory)
  schedule := ⟨fun _ size => (List.range size).reverse, fun _ _ => List.reverse_perm _⟩
  seed := 0

theorem repeatable_team : team.Repeatable
    (fun root _ _ => .ok ⟨results root, none⟩) (fun _ => ()) :=
  ⟨rfl, ⟨fun _ _ _ _ _ => rfl, fun _ _ _ _ _ => rfl⟩, fun _ _ _ => ⟨rfl, rfl⟩⟩

def settings : Settings Rat := ⟨2, 1, 0, .program, [.delete], false, some 0⟩

def search : Search Rat Unit := .new ⟨.new .standard .keepAll, marks, .empty, ()⟩

end Surplus

open Surplus in
/-- Deleting either statement is a fix. In turn one variant is evaluated, as a batch two are. -/
theorem modes_agree_surplus : ∃ (_ : Root Rat) (r r' : RunReport Rat),
    (run { settings with parallel := false } team program search).1 = .ok r ∧
      (run { settings with parallel := true } team program search).1 = .ok r' ∧
      r.Agrees r' ∧ r.outcome = .repaired ∧
      r.stats.evaluations = 1 ∧ r'.stats.evaluations = 2 := by
  let _ : Root Rat := ⟨id⟩
  have hcounts (parallel : Bool) :
      ((run { settings with parallel := parallel } team program search).1.toOption.map fun r =>
        (r.outcome, r.stats.evaluations)) = some (.repaired, if parallel then 2 else 1) := by
    rw [run]
    unfold restart
    rw [WordStream.ofSeed_eq]
    cases parallel with
    | _ => decide +kernel
  have hholds (parallel : Bool) :
      ¬ Breaks (run { settings with parallel := parallel } team program search).1 := by
    rintro ⟨fault, hfault, -⟩
    have hcount := hcounts parallel
    rw [hfault] at hcount
    cases hcount
  obtain ⟨r, r', hrun, hrun', hagrees⟩ := modes_agree repeatable_team (fun x => lt_irrefl x)
    (fun x y z => lt_trans) settings (by decide) .standard .keepAll (by decide) program search
    search rfl rfl rfl rfl (hholds false) (hholds true)
  have hinTurn := hcounts false
  have hbatch := hcounts true
  rw [hrun] at hinTurn
  rw [hrun'] at hbatch
  obtain ⟨houtcome, hone⟩ := Prod.mk.inj (Option.some.inj hinTurn)
  exact ⟨_, r, r', hrun, hrun', hagrees, houtcome, hone, (Prod.mk.inj (Option.some.inj hbatch)).2⟩

end Search

end GeneticRepair
