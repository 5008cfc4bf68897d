import GeneticRepair.Proofs.Evolution.Confined
import GeneticRepair.Proofs.Evolution.Passage
import GeneticRepair.Proofs.Evolution.Veil

/-!
# `Proofs/Evolution/Carried.lean` — what one run leaves for the next

A run starts from a new generator, a new count of variants and new books, but the evaluator keeps
its best variant. So a search that has been used offers the variants of a run to the best one of
earlier runs. Apart from that it is as good as a new one: a run on a used search is the run on a new
one behind a veil (`Veil.carry`), and its report is the report of that run with the old best variant
put in (`RunReport.carrying`).

* `carried_run`: this for one run, and with it `carrying_eq_iff`: when it makes no difference.
* `run_carries`: both for every sequence of earlier runs.
-/

set_option autoImplicit false

namespace GeneticRepair

open Evaluator (fitter Tops)

/-! ## Two best variants -/

/-- The best variant, after a run whose best one is given, if there was one before. -/
def Evaluator.champion (old best : Option (Variant Rat)) : Option (Variant Rat) :=
  match best with
  | none => old
  | some v => fitter old v

/-- A fitness or that of the old best variant, whichever is greater. -/
def Evaluator.lift (old : Option (Variant Rat)) (fitness : Rat) : Rat :=
  match old.bind (·.fitness) with
  | none => fitness
  | some incumbent => max incumbent fitness

open Evaluator (champion lift)

namespace Evaluator

variable {old best : Option (Variant Rat)} {v : Variant Rat}

/-- It makes no difference whether a variant is offered before or after the old best one is put
in. -/
theorem fitter_champion (old best : Option (Variant Rat)) (v : Variant Rat) :
    fitter (champion old best) v = champion old (fitter best v) := by
  cases best with
  | none =>
    show fitter old v = champion old (fitter none v)
    cases hv : v.fitness with
    | none =>
      rw [fitter_of_tops (.of_none hv), fitter_of_tops (.of_none hv)]
      rfl
    | some fitness =>
      have hfirst : fitter none v = some v := fitter_of_above hv fun incumbent h => by cases h
      rw [hfirst]
      rfl
  | some u =>
    show fitter (fitter old u) v = champion old (fitter (some u) v)
    obtain ⟨hsame, htops⟩ | ⟨fitness, hin, hv, habove⟩ := fitter_cases (some u) v
    · rw [hsame]
      refine fitter_of_tops fun fitness hv => ?_
      obtain ⟨own, hu, hown⟩ := htops fitness hv
      obtain ⟨incumbent, hincumbent, hnot⟩ := tops_offered (fun x : Rat => lt_irrefl x) old u own hu
      exact ⟨incumbent, hincumbent, not_lt.mpr ((not_lt.mp hown).trans (not_lt.mp hnot))⟩
    · rw [hin]
      show _ = fitter old v
      obtain ⟨hsame, -⟩ | ⟨own, hin', hu, habove'⟩ := fitter_cases old u
      · rw [hsame]
      · have hown : own < fitness := habove own hu
        rw [hin', fitter_of_above hv habove,
          fitter_of_above hv fun incumbent h => (habove' incumbent h).trans hown]

theorem fitness_fitter (old : Option (Variant Rat)) {fitness : Rat}
    (hv : v.fitness = some fitness) :
    ∃ w, fitter old v = some w ∧ w.fitness = some (lift old fitness) := by
  unfold lift
  obtain ⟨hsame, htops⟩ | ⟨own, hin, hown, habove⟩ := fitter_cases old v
  · obtain ⟨incumbent, hincumbent, hnot⟩ := htops fitness hv
    obtain ⟨u, rfl, hu⟩ := Option.bind_eq_some_iff.mp hincumbent
    refine ⟨u, hsame, ?_⟩
    rw [hincumbent, hu]
    exact congrArg some (max_eq_left (not_lt.mp hnot)).symm
  · obtain rfl := Option.some.inj (hv.symm.trans hown)
    refine ⟨v, hin, ?_⟩
    rw [hv]
    cases hbest : old.bind (·.fitness) with
    | none => rfl
    | some incumbent => exact congrArg some (max_eq_right (habove incumbent hbest).le).symm

end Evaluator

/-! ## The veil over a used search -/

/-- The books with the old best fitness in every entry of the history but the first, which is that
of the program under repair itself. -/
def raised (old : Option (Variant Rat)) : List Rat → List Rat
  | [] => []
  | first :: later => first :: later.map (lift old)

theorem raised_append (old : Option (Variant Rat)) {history : List Rat} (h : history ≠ [])
    (fitness : Rat) :
    raised old (history ++ [fitness]) = raised old history ++ [lift old fitness] := by
  cases history with
  | nil => exact absurd rfl h
  | cons first later =>
    simp only [List.cons_append, raised, List.map_append, List.map_cons, List.map_nil]

variable {ω : Type}

/-- A search whose evaluator has a best variant and a count from earlier runs. -/
def Veil.carry (old : Option (Variant Rat)) (count : Nat) : Veil Rat ω ω where
  evaluator e := { e with best := champion old e.best, evaluations := e.evaluations + count }
  disk := id
  memory := id
  phase := id
  evaluations := id
  history := raised old

namespace Veil

variable (old : Option (Variant Rat)) (count : Nat)

theorem faithful_carry : (Veil.carry old count : Veil Rat ω ω).Faithful where
  policy_eq _ := rfl
  suspicion_eq _ := rfl
  baseline_eq _ := rfl
  count_eq e := by simp only [carry, Nat.add_right_comm]
  adopt_eq _ _ := rfl

theorem tries_carry (executor : Executor Rat ω) (id : Nat) (root : Node) (selection : Selection)
    (b : Bench Rat ω) :
    (Veil.carry old count).Tries (.carry old count) executor executor id root selection b := by
  unfold Tries Bench.trial
  cases hprepare : b.evaluator.policy.scratchArea.prepare id b.disk with
  | error fault => simp only [overBench, carry, id_eq, hprepare]
  | ok prepared =>
    simp only [overBench, carry, id_eq, hprepare]
    split
    · rfl
    · rfl

theorem offer_carry (b : Bench Rat ω) (v : Variant Rat) :
    ((Veil.carry old count).overBench b).offer v =
      (Veil.carry old count).overBench (b.offer v) := by
  simp only [Bench.offer_eq, overBench, carry, id_eq, Evaluator.fitter_champion]

end Veil

namespace Search

/-- A used search beside a new one, once the program under repair has been evaluated: there is a
best variant with a fitness, and the history has begun. -/
structure Carries (old : Option (Variant Rat)) (s s' : Search Rat ω) : Prop where
  veiled : ∃ count, s' = (Veil.carry old count).over s
  led : ∃ v fitness, s.bench.evaluator.best = some v ∧ v.fitness = some fitness
  begun : s.stats.history ≠ []

/-- A computation does the same on both searches and leaves one beside the other. -/
def Together {β : Type} (old : Option (Variant Rat)) (x : StateM (Search Rat ω) β) : Prop :=
  ∀ s s', Carries old s s' → (x s').1 = (x s).1 ∧ Carries old (x s).2 (x s').2

variable {old : Option (Variant Rat)} {β γ : Type}

namespace Together

theorem pure (a : β) : Together old (pure a : StateM (Search Rat ω) β) := fun _ _ h => ⟨rfl, h⟩

theorem bind {x : StateM (Search Rat ω) β} {f : β → StateM (Search Rat ω) γ}
    (hx : Together old x) (hf : ∀ a, Together old (f a)) : Together old (x >>= f) := by
  intro s s' h
  obtain ⟨hsame, hafter⟩ := hx s s' h
  rw [bind_apply, bind_apply, hsame]
  exact hf _ _ _ hafter

/-- What is blind to the veil, keeps a best variant and does not touch the history. -/
theorem of_blind {x : StateM (Search Rat ω) β}
    (hblind : ∀ count, (Veil.carry old count).Blind x x)
    (hled : ∀ s, (∃ v fitness, s.bench.evaluator.best = some v ∧ v.fitness = some fitness) →
      ∃ v fitness, (x s).2.bench.evaluator.best = some v ∧ v.fitness = some fitness)
    (hbegun : ∀ s, (x s).2.stats.history = s.stats.history) : Together old x := by
  rintro s _ ⟨⟨count, rfl⟩, h, hhistory⟩
  rw [hblind]
  exact ⟨rfl, ⟨count, rfl⟩, hled s h, hbegun s ▸ hhistory⟩

theorem recordBest : Together old (recordBest : StateM (Search Rat ω) Unit) := by
  have hentry {s : Search Rat ω} {v : Variant Rat} {fitness : Rat}
      (hbest : s.bench.evaluator.best = some v) (hv : v.fitness = some fitness) :
      Search.recordBest s = ((), { s with
        stats := { s.stats with history := s.stats.history ++ [fitness] } }) := by
    show ((), { s with stats := { s.stats with
      history := s.stats.history ++ [(s.bench.evaluator.best.map fitnessOrZero).getD 0] } }) = _
    rw [hbest, Option.map_some, Option.getD_some, fitnessOrZero, hv, Option.getD_some]
  rintro s _ ⟨⟨count, rfl⟩, ⟨v, fitness, hbest, hv⟩, hhistory⟩
  obtain ⟨w, hw, hfitness⟩ := Evaluator.fitness_fitter old hv
  have hbest' : ((Veil.carry old count).over s).bench.evaluator.best = some w := by
    show champion old s.bench.evaluator.best = some w
    rw [hbest]
    exact hw
  rw [hentry hbest hv, hentry hbest' hfitness]
  refine ⟨rfl, ⟨count, ?_⟩, ⟨v, fitness, hbest, hv⟩, by simp⟩
  simp only [Veil.over, Veil.carry, ← raised_append old hhistory]

end Together

variable {c : Collaborators Rat ω}

theorem together_offer (v : Variant Rat) :
    Together old (onBench fun b => ((), b.offer v) : StateM (Search Rat ω) Unit) := by
  refine .of_blind (fun count s => ?_) (fun s ⟨u, fitness, hbest, hu⟩ => ?_) fun s => rfl
  · exact onBench_eq (congrArg ((), ·) (Veil.offer_carry old count s.bench v)) rfl
  · show ∃ v' fitness, (s.bench.offer v).evaluator.best = some v' ∧ _
    rw [Bench.offer_eq]
    obtain ⟨hsame, -⟩ | ⟨fitness', hin, hv, -⟩ := Evaluator.fitter_cases s.bench.evaluator.best v
    · exact ⟨u, fitness, hsame.trans hbest, hu⟩
    · exact ⟨v, fitness', hin, hv⟩

theorem together_offers (vs : List (Variant Rat)) :
    Together old (onBench fun b => ((), vs.foldl Bench.offer b) :
      StateM (Search Rat ω) Unit) := by
  induction vs with
  | nil => exact .pure ()
  | cons v vs ih => exact (together_offer v).bind fun _ => ih

theorem together_count (n : Nat) :
    Together old (record fun t => { t with evaluations := t.evaluations + n } :
      StateM (Search Rat ω) Unit) :=
  .of_blind (fun _ _ => rfl) (fun _ hled => hled) fun _ => rfl

theorem together_nextGeneration (settings : Settings Rat) (original : Variant Rat)
    (population : List (Variant Rat)) :
    Together old (nextGeneration settings c original population) := by
  have hany : Variant.Hereditary fun _ : Variant Rat => True :=
    ⟨fun _ _ => trivial, fun _ _ _ => trivial⟩
  refine .of_blind (fun count => Veil.blind_nextGeneration settings
    (Veil.consults_self rfl c.oracle) original population) (fun s hled => ?_) fun s => ?_
  · rw [(Steady.nextGeneration hany (.inr fun _ _ => trivial) settings trivial
      (fun _ _ => trivial) s).1]
    exact hled
  · let still : Veil Rat ω ω := ⟨id, id, id, id, id, fun _ => s.stats.history⟩
    have hown := Veil.Blind.own (Veil.blind_nextGeneration settings
      (show still.Consults c.oracle c.oracle from Veil.consults_self rfl c.oracle)
      original population) (s := s) rfl
    exact (congrArg (·.stats.history) hown).symm

variable [Root Rat]

theorem together_evaluate (v : Variant Rat) :
    Together old (onBench (Bench.evaluate c.executor v)) := by
  refine .of_blind (fun count s => ?_) (fun s hled => ?_) fun s => rfl
  · obtain ⟨_, rfl, heq⟩ := Veil.veiled_evaluate (· = .carry old count)
      (fun _ h => h ▸ Veil.faithful_carry old count) rfl (v := v) (b := s.bench)
      fun selection => ⟨_, rfl, Veil.tries_carry old count c.executor v.id v.root selection _⟩
    exact onBench_eq heq rfl
  · show ∃ v' fitness, (s.bench.evaluate c.executor v).2.evaluator.best = some v' ∧ _
    rw [Bench.best_evaluate]
    exact hled

theorem together_evaluateInTurn (maximum : Rat) (vs : List (Variant Rat)) :
    Together old (evaluateInTurn c maximum vs) := by
  induction vs with
  | nil => exact .pure _
  | cons v vs ih =>
    unfold evaluateInTurn
    split
    · exact ih.bind fun rest => .pure _
    · refine (together_evaluate v).bind fun answer => ?_
      rcases answer with e | ⟨a, w⟩
      · exact .pure _
      · refine (together_count 1).bind fun _ => (together_offer w).bind fun _ => ?_
        split
        · exact .pure _
        · exact ih.bind fun rest => .pure _

theorem together_evaluateJobs (jobs : List (Nat × Variant Rat)) :
    Together old (evaluateJobs c jobs) := by
  induction jobs with
  | nil => exact .pure _
  | cons entry jobs ih =>
    exact (together_evaluate entry.2).bind fun result => ih.bind fun rest => .pure _

theorem together_evaluateGeneration (settings : Settings Rat) (maximum : Rat) (number : Nat)
    (generation : List (Variant Rat)) :
    Together old (evaluateGeneration settings c maximum number generation) := by
  unfold evaluateGeneration
  split
  · refine (together_evaluateJobs _).bind fun results => (together_count _).bind fun _ => ?_
    cases settle results 0 generation with
    | error e => exact .pure _
    | ok evaluated => exact (together_offers evaluated).bind fun _ => .pure _
  · exact together_evaluateInTurn maximum generation

/-! ## To the end of a run -/

end Search

/-- A report with the best variant of earlier runs put in: it is the one to beat for the best
variant of a run without a fix, and in the history of every run after the first entry. -/
def RunReport.carrying (old : Option (Variant Rat)) (r : RunReport Rat) : RunReport Rat :=
  let stats := { r.stats with history := raised old r.stats.history }
  match r.outcome with
  | .repaired | .unfit => { r with stats := stats }
  | .exhausted | .cancelled =>
    { r with
      best := (fitter old r.best).getD r.best
      bestFitness := lift old r.bestFitness
      stats := stats }

namespace Search

variable {old : Option (Variant Rat)}

/-- The answer of a run on a used search, given that on a new one. -/
def Carried (old : Option (Variant Rat)) (answer answer' : Except RepairFault (RunReport Rat)) :
    Prop :=
  answer' = answer.map (·.carrying old) ∧
    ∀ r, answer = .ok r → r.outcome = .exhausted ∨ r.outcome = .cancelled →
      r.best.fitness = some r.bestFitness

theorem carried_error (fault : RepairFault) : Carried old (.error fault) (.error fault) :=
  ⟨rfl, fun _ h => by cases h⟩

/-- A fix and an unfit program are reported without a look at the best variant. -/
theorem carried_closed {r : RunReport Rat} (h : r.outcome = .repaired ∨ r.outcome = .unfit) :
    Carried old (.ok r) (.ok (r.carrying old)) := by
  refine ⟨rfl, ?_⟩
  rintro _ ⟨⟩ (hout | hout)
  · simp [hout] at h
  · simp [hout] at h

theorem carried_giveUp {s s' : Search Rat ω} (h : Carries old s s') {outcome : Outcome}
    (hout : outcome = .exhausted ∨ outcome = .cancelled) (original : Variant Rat) (maximum : Rat) :
    let ending : StateM (Search Rat ω) (Except RepairFault (RunReport Rat)) := do
      let best ← bestOr original
      return .ok (← conclude outcome best maximum)
    Carried old (ending s).1 (ending s').1 := by
  obtain ⟨⟨count, rfl⟩, ⟨v, fitness, hbest, hv⟩, -⟩ := h
  obtain ⟨w, hw, hfitness⟩ := Evaluator.fitness_fitter old hv
  show Carried old (.ok ⟨outcome, s.bench.evaluator.best.getD original,
      fitnessOrZero (s.bench.evaluator.best.getD original), maximum, s.stats⟩)
    (.ok ⟨outcome, (champion old s.bench.evaluator.best).getD original,
      fitnessOrZero ((champion old s.bench.evaluator.best).getD original), maximum,
      { s.stats with history := raised old s.stats.history }⟩)
  rw [hbest, show champion old (some v) = some w from hw, Option.getD_some, Option.getD_some,
    fitnessOrZero, fitnessOrZero, hv, hfitness]
  constructor
  · obtain rfl | rfl := hout
    · simp only [Except.map, RunReport.carrying, hw, Option.getD_some]
    · simp only [Except.map, RunReport.carrying, hw, Option.getD_some]
  · rintro _ ⟨⟩ -
    exact hv

variable [Root Rat] {c : Collaborators Rat ω}

/-- What comes after a generation, given that the rest of the run is as it should be. -/
theorem carried_proceed {settings : Settings Rat} {original : Variant Rat} {maximum : Rat}
    {generation remaining : Nat} {s s' : Search Rat ω} (h : Carries old s s')
    (answer : Except RepairFault (Evaluated Rat))
    (hrest : ∀ (population : List (Variant Rat)) (u u' : Search Rat ω), Carries old u u' →
      Carried old
        (evolve settings c original maximum (generation + 1) population remaining u).1
        (evolve settings c original maximum (generation + 1) population remaining u').1) :
    Carried old (proceed settings c original maximum generation remaining answer s).1
      (proceed settings c original maximum generation remaining answer s').1 := by
  rcases answer with e | ⟨next, fix⟩
  · exact carried_error e
  · cases fix with
    | some fix =>
      obtain ⟨⟨count, rfl⟩, -, -⟩ := h
      exact carried_closed (.inl rfl)
    | none => exact hrest next _ _ (Together.recordBest s s' h).2

theorem carried_evolve (settings : Settings Rat) (original : Variant Rat) (maximum : Rat)
    (remaining : Nat) {generation : Nat} {population : List (Variant Rat)}
    {s s' : Search Rat ω} (h : Carries old s s') :
    Carried old (evolve settings c original maximum generation population remaining s).1
      (evolve settings c original maximum generation population remaining s').1 := by
  induction remaining generalizing generation population s s' with
  | zero => exact carried_giveUp h (.inl rfl) original maximum
  | succ remaining ih =>
    have hasked : Together old (isCancelled c) :=
      .of_blind (fun _ _ => rfl) (fun _ hled => hled) fun _ => rfl
    obtain ⟨hsame, hcancel⟩ := hasked s s' h
    cases hcontinues : (isCancelled c s).1 with
    | true =>
      have hended := carried_giveUp hcancel (.inr rfl) original maximum
      rw [evolve, bind_apply, bind_apply, hsame, hcontinues]
      exact hended
    | false =>
      rw [hcontinues] at hsame
      have hentered : Together old (enter generation : StateM (Search Rat ω) Unit) :=
        .of_blind (fun _ _ => rfl) (fun _ hled => hled) fun _ => rfl
      rw [evolve_of_continues hcontinues, evolve_of_continues hsame]
      obtain ⟨hbred, hafter⟩ := together_nextGeneration settings original population _ _
        (hentered _ _ hcancel).2 (c := c)
      obtain ⟨hassessed, hafter'⟩ := together_evaluateGeneration settings maximum generation
        (nextGeneration settings c original population
          (enter generation (isCancelled c s).2).2).1 _ _ hafter (c := c)
      simp only [hbred, hassessed]
      exact carried_proceed hafter' _ fun population u u' h' => ih h'

/-- The program under repair is offered to the old best variant before anything is bred. -/
theorem carried_searchFrom (settings : Settings Rat) {original : Variant Rat} {fitness : Rat}
    (horiginal : original.fitness = some fitness) (maximum : Rat) {s : Search Rat ω}
    (hbest : s.bench.evaluator.best = none) (hhistory : s.stats.history = []) (count : Nat) :
    Carried old (searchFrom settings c original maximum s).1
      (searchFrom settings c original maximum ((Veil.carry old count).over s)).1 := by
  let begin (s : Search Rat ω) : Search Rat ω :=
    { s with
      bench := s.bench.offer original
      stats := { s.stats with history := s.stats.history ++ [fitnessOrZero original] } }
  have hstarts (s : Search Rat ω) : searchFrom settings c original maximum s =
      if isRepair maximum original then
        (do return .ok (← conclude .repaired original maximum) : StateM (Search Rat ω) _) (begin s)
      else evolve settings c original maximum 1 [] settings.maxGenerations (begin s) := by
    rw [searchFrom, bind_apply, bind_apply]
    split
    · rfl
    · rfl
  have hbegun : begin ((Veil.carry old count).over s) = (Veil.carry old count).over (begin s) := by
    simp only [begin, Veil.over, Veil.offer_carry]
    simp only [Veil.carry, hhistory, raised, List.nil_append, List.map_nil]
  rw [hstarts, hstarts, hbegun]
  split
  · exact carried_closed (.inl rfl)
  · refine carried_evolve settings original maximum _ ⟨⟨count, rfl⟩, ⟨original, fitness, ?_,
      horiginal⟩, by simp [begin]⟩
    show (s.bench.offer original).evaluator.best = some original
    rw [Bench.offer_eq, hbest]
    exact Evaluator.fitter_of_above horiginal fun incumbent h => by cases h

/-! ## The first run -/

theorem adopt_of_baseline (root : Node) (run : TestRun) (u : Universe) (b : Bench Rat ω)
    (baseline : Option (Baseline Rat)) :
    ({ b with evaluator := { b.evaluator with baseline := baseline } } : Bench Rat ω).adopt root run
      u = b.adopt root run u := by
  unfold Bench.adopt Bench.localize
  cases run.coverage with
  | none => rfl
  | some coverage => rfl

/-- The first run does not look at an earlier baseline. -/
theorem establish_of_baseline (executor : Executor Rat ω) (root : Node) (b : Bench Rat ω)
    (baseline : Option (Baseline Rat)) :
    let b' : Bench Rat ω := { b with evaluator := { b.evaluator with baseline := baseline } }
    (b'.establish executor root).1 = (b.establish executor root).1 ∧
      ∀ a, (b.establish executor root).1 = .ok a →
        (b'.establish executor root).2 = (b.establish executor root).2 := by
  intro b'
  have htrial : b'.trial executor 0 root (.everything true) =
      ((b.trial executor 0 root (.everything true)).1,
        { (b.trial executor 0 root (.everything true)).2 with evaluator := b'.evaluator }) := by
    unfold Bench.trial
    simp only [b']
    cases b.evaluator.policy.scratchArea.prepare 0 b.disk with
    | error fault => rfl
    | ok prepared =>
      simp only []
      split
      · rfl
      · rfl
  have hkept := (Bench.trial_frame executor 0 root (.everything true) b).1
  have hvalidate : b'.evaluator.validate = b.evaluator.validate := rfl
  unfold Bench.establish
  rw [hvalidate, htrial]
  cases b.evaluator.validate with
  | error fault => exact ⟨rfl, nofun⟩
  | ok _ =>
    generalize b.trial executor 0 root (.everything true) = tried at hkept
    rcases tried with ⟨fault | e | run, b₁⟩
    · exact ⟨rfl, nofun⟩
    · cases e with
      | _ => exact ⟨rfl, nofun⟩
    · simp only []
      split
      · exact ⟨rfl, nofun⟩
      · split
        · exact ⟨rfl, nofun⟩
        · have hrebased : b'.evaluator = { b₁.evaluator with baseline := baseline } := by
            rw [show b₁.evaluator = b.evaluator from hkept]
          rw [hrebased, adopt_of_baseline]
          exact ⟨rfl, fun _ _ => rfl⟩

/-- A run on a used search reports what a run on a new search at the same moment reports, with the
old best variant put in. -/
theorem carried_run (settings : Settings Rat) (root : Node) (s : Search Rat ω) :
    let e := s.bench.evaluator
    let fresh := Search.new { s.bench with evaluator := .new e.policy e.suspicion }
    Carried e.best (run settings c root fresh).1 (run settings c root s).1 := by
  intro e fresh
  cases hvalid : settings.validate with
  | error fault =>
    rw [run, hvalid]
    exact carried_error (.badSetting fault)
  | ok _ =>
    let based : Bench Rat ω :=
      { fresh.bench with evaluator := { fresh.bench.evaluator with baseline := e.baseline } }
    have hbench : s.bench = (Veil.carry e.best e.evaluations).overBench based := by
      simp only [Veil.overBench, Veil.carry, based, fresh, Search.new, Evaluator.new, Nat.zero_add,
        id_eq]
      rfl
    obtain ⟨hsame, hafter⟩ := establish_of_baseline c.executor root fresh.bench e.baseline
    obtain ⟨_, rfl, hveiled⟩ := Veil.veiled_establish (· = .carry e.best e.evaluations)
      (fun _ h => h ▸ Veil.faithful_carry e.best e.evaluations) rfl
      ⟨_, rfl, Veil.tries_carry e.best e.evaluations c.executor 0 root (.everything true) based⟩
    rw [← hbench] at hveiled
    rcases hes : fresh.bench.establish c.executor root with ⟨fault | a, b⟩
    · have hanswer := (congrArg Prod.fst hveiled).trans (hsame.trans (congrArg Prod.fst hes))
      rcases hes' : s.bench.establish c.executor root with ⟨answer, b'⟩
      rw [hes'] at hanswer
      obtain rfl : answer = _ := hanswer
      rw [run_of_error hvalid hes, run_of_error hvalid hes']
      cases fault with
      | unfitBaseline cause => exact carried_closed (.inr rfl)
      | _ => exact carried_error _
    · have hrebased : based.establish c.executor root = (.ok a, b) :=
        (Prod.ext hsame (hafter a (congrArg Prod.fst hes))).trans hes
      rw [hrebased] at hveiled
      obtain ⟨base, he, -⟩ := Bench.fits_of_establish hes
      have hb : b.evaluator.baseline = some base := by rw [he]
      have hbest : b.evaluator.best = none := by rw [he]; rfl
      rw [run_of_ok hvalid hes hb, run_of_ok hvalid hveiled hb]
      exact carried_searchFrom settings rfl base.maximum (s := outset _ b) hbest rfl e.evaluations

/-! ## Runs after runs -/

theorem samePolicies_run (settings : Settings Rat) (root : Node) (s : Search Rat ω) :
    SamePolicies s.bench.evaluator (run settings c root s).2.bench.evaluator := by
  have hiterate (n : Nat) : SamePolicies s.bench.evaluator
      ((step settings c)^[n] (start root s)).search.bench.evaluator := by
    induction n with
    | zero => exact ⟨rfl, rfl⟩
    | succ n ih =>
      rw [Function.iterate_succ_apply']
      obtain ⟨hpolicy, hsuspicion⟩ := samePolicies_next settings c
        ((step settings c)^[n] (start root s)).stage ((step settings c)^[n] (start root s)).search
      exact ⟨hpolicy.trans ih.1, hsuspicion.trans ih.2⟩
  obtain ⟨n, ratings, hn⟩ := iterate_step_start settings c root s
  have hend := hiterate n
  rwa [hn] at hend

theorem samePolicies_after (settings : Settings Rat) (earlier : List Node) (s : Search Rat ω) :
    SamePolicies s.bench.evaluator (after settings c earlier s).bench.evaluator := by
  induction earlier generalizing s with
  | nil => exact ⟨rfl, rfl⟩
  | cons root earlier ih =>
    obtain ⟨hpolicy, hsuspicion⟩ := ih (run settings c root s).2
    obtain ⟨hpolicy', hsuspicion'⟩ := samePolicies_run settings root s (c := c)
    exact ⟨hpolicy.trans hpolicy', hsuspicion.trans hsuspicion'⟩

end Search

/-- A report to which it makes no difference that there is a best variant of earlier runs. The best
variant of a run without a fix is fitter, if it is not the very same, and so is every entry of the
history but the first, or as fit. -/
structure RunReport.Withstands (r : RunReport Rat) (old : Option (Variant Rat)) : Prop where
  best : r.outcome = .exhausted ∨ r.outcome = .cancelled → ∀ v fitness, old = some v →
    v.fitness = some fitness → fitness < r.bestFitness ∨ v = r.best
  history : ∀ v fitness, old = some v → v.fitness = some fitness →
    ∀ entry ∈ r.stats.history.tail, fitness ≤ entry

theorem Evaluator.lift_eq_iff {old : Option (Variant Rat)} {fitness : Rat} :
    lift old fitness = fitness ↔
      ∀ v incumbent, old = some v → v.fitness = some incumbent → incumbent ≤ fitness := by
  unfold lift
  cases hold : old.bind (·.fitness) with
  | none =>
    refine iff_of_true rfl ?_
    rintro v incumbent rfl hv
    exact absurd (hold.symm.trans hv) nofun
  | some own =>
    obtain ⟨u, rfl, hu⟩ := Option.bind_eq_some_iff.mp hold
    refine max_eq_right_iff.trans ⟨?_, fun h => h u own rfl hu⟩
    rintro hle v incumbent ⟨⟩ hv
    obtain rfl := Option.some.inj (hu.symm.trans hv)
    exact hle

theorem raised_eq_iff {old : Option (Variant Rat)} {history : List Rat} :
    raised old history = history ↔ ∀ entry ∈ history.tail, lift old entry = entry := by
  cases history with
  | nil => exact iff_of_true rfl nofun
  | cons first later =>
    show first :: later.map (lift old) = first :: later ↔ ∀ entry ∈ later, _
    induction later with
    | nil => exact iff_of_true rfl nofun
    | cons entry later ih =>
      simp only [List.cons.injEq, true_and, List.map_cons, List.forall_mem_cons] at ih ⊢
      rw [ih]

/-- A best variant stays the best one if it is fitter than the old one, or the same. -/
theorem Evaluator.getD_fitter_eq_iff {old : Option (Variant Rat)} {w : Variant Rat} {fitness : Rat}
    (hw : w.fitness = some fitness) :
    (fitter old w).getD w = w ↔
      ∀ v incumbent, old = some v → v.fitness = some incumbent → incumbent < fitness ∨ v = w := by
  constructor
  · rintro h v incumbent rfl hv
    refine or_iff_not_imp_left.mpr fun hnot => ?_
    have htops : Tops (some v) w := fun other hother =>
      ⟨incumbent, hv, Option.some.inj (hw.symm.trans hother) ▸ hnot⟩
    rwa [fitter_of_tops htops] at h
  · intro h
    obtain ⟨hsame, htops⟩ | ⟨-, hin, -, -⟩ := fitter_cases old w
    · obtain ⟨incumbent, hincumbent, hnot⟩ := htops fitness hw
      obtain ⟨v, rfl, hv⟩ := Option.bind_eq_some_iff.mp hincumbent
      rw [hsame]
      exact (h v incumbent rfl hv).resolve_left hnot
    · rw [hin]
      rfl

theorem RunReport.carrying_eq_iff {old : Option (Variant Rat)} {r : RunReport Rat}
    (hr : r.outcome = .exhausted ∨ r.outcome = .cancelled → r.best.fitness = some r.bestFitness) :
    r.carrying old = r ↔ r.Withstands old := by
  have hhistory : raised old r.stats.history = r.stats.history ↔ ∀ v fitness, old = some v →
      v.fitness = some fitness → ∀ entry ∈ r.stats.history.tail, fitness ≤ entry := by
    simp only [raised_eq_iff, Evaluator.lift_eq_iff]
    exact ⟨fun h v fitness hold hv entry hentry => h entry hentry v fitness hold hv,
      fun h entry hentry v fitness hold hv => h v fitness hold hv entry hentry⟩
  obtain ⟨outcome, best, bestFitness, maxFitness, stats⟩ := r
  have hstats : ({ stats with history := raised old stats.history } : Tally Rat) = stats ↔
      raised old stats.history = stats.history := by
    constructor
    · exact fun h => congrArg Tally.history h
    · intro h
      rw [h]
  have hfixed (hclosed : ¬ (outcome = .exhausted ∨ outcome = .cancelled)) :
      (⟨outcome, best, bestFitness, maxFitness,
          { stats with history := raised old stats.history }⟩ : RunReport Rat) =
        ⟨outcome, best, bestFitness, maxFitness, stats⟩ ↔
      RunReport.Withstands ⟨outcome, best, bestFitness, maxFitness, stats⟩ old := by
    simp only [RunReport.mk.injEq, true_and]
    exact (hstats.trans hhistory).trans ⟨fun h => ⟨fun hout => absurd hout hclosed, h⟩,
      (·.history)⟩
  have hopen (hout : outcome = .exhausted ∨ outcome = .cancelled) :
      (⟨outcome, (fitter old best).getD best, lift old bestFitness, maxFitness,
          { stats with history := raised old stats.history }⟩ : RunReport Rat) =
        ⟨outcome, best, bestFitness, maxFitness, stats⟩ ↔
      RunReport.Withstands ⟨outcome, best, bestFitness, maxFitness, stats⟩ old := by
    have hscored := hr hout
    simp only [RunReport.mk.injEq, true_and]
    constructor
    · rintro ⟨hbest, -, hsame⟩
      exact ⟨fun _ => (Evaluator.getD_fitter_eq_iff hscored).mp hbest,
        hhistory.mp (hstats.mp hsame)⟩
    · intro h
      refine ⟨(Evaluator.getD_fitter_eq_iff hscored).mpr (h.best hout), ?_,
        hstats.mpr (hhistory.mpr h.history)⟩
      refine Evaluator.lift_eq_iff.mpr fun v incumbent hold hv => ?_
      obtain hlt | rfl := h.best hout v incumbent hold hv
      · exact hlt.le
      · exact (Option.some.inj (hv.symm.trans hscored)).le
  cases outcome with
  | repaired => exact hfixed (by decide)
  | unfit => exact hfixed (by decide)
  | exhausted => exact hopen (.inl rfl)
  | cancelled => exact hopen (.inr rfl)

namespace Search

/-- After any earlier runs, a run reports what a run on a new search at the same moment reports,
with the best variant of the earlier ones put in. So the earlier runs make no difference exactly if
that report withstands their best variant. Without an oracle, the moment makes no difference to the
program if it shares no node with the earlier ones: it is marked as it was before them. -/
theorem run_carries [Root Rat] (c : Collaborators Rat ω) (settings : Settings Rat)
    (policy : FitnessPolicy Rat) (suspicion : SuspicionPolicy Rat) (store : Store Rat) (disk : Disk)
    (memory : ω) (earlier : List Node) (root : Node) :
    let used := after settings c earlier (.new ⟨.new policy suspicion, store, disk, memory⟩)
    let new := Search.new { used.bench with evaluator := .new policy suspicion }
    let old := used.bench.evaluator.best
    (run settings c root used).1 = (run settings c root new).1.map (·.carrying old) ∧
      ((run settings c root used).1 = (run settings c root new).1 ↔
        ∀ r, (run settings c root new).1 = .ok r → r.Withstands old) ∧
      (c.oracle = none → store.Holds root →
        (∀ t ∈ earlier, ∀ n ∈ t.preorder, ∀ m ∈ root.preorder, n.id ≠ m.id) →
          store.AgreeOn root new.bench.store) := by
  intro used new old
  obtain ⟨hpolicy, hsuspicion⟩ := samePolicies_after settings earlier
    (.new ⟨.new policy suspicion, store, disk, memory⟩) (c := c)
  obtain ⟨heq, hled⟩ : Carried old (run settings c root new).1 (run settings c root used).1 := by
    have hcarried : Carried old (run settings c root (.new { used.bench with
        evaluator := .new used.bench.evaluator.policy used.bench.evaluator.suspicion })).1 _ :=
      carried_run settings root used
    rwa [show used.bench.evaluator.policy = policy from hpolicy,
      show used.bench.evaluator.suspicion = suspicion from hsuspicion] at hcarried
  refine ⟨heq, ?_, fun hc hroot hapart => ?_⟩
  · rw [heq]
    cases hrun : (run settings c root new).1 with
    | error fault => exact iff_of_true rfl nofun
    | ok r =>
      have hiff : r.carrying old = r ↔ r.Withstands old :=
        RunReport.carrying_eq_iff (hled r hrun)
      simp only [Except.map, Except.ok.injEq, forall_eq', hiff]
  · have hconfined : store.Confined earlier used.bench.store :=
      confined_after hc settings earlier (.new ⟨.new policy suspicion, store, disk, memory⟩)
    exact hconfined.agreeOn hroot hapart

/-! ## A leader of an earlier run -/

namespace Leftover

/-- Two tests that pass on it, and one that nothing passes. -/
def strong : Node := .make 0 .file []

/-- A program that fails all three of them. -/
def weak : Node := .make 1 .other []

def marks : Store Rat := ⟨#[.fresh [], .fresh []]⟩

theorem holds_programs : ∀ t ∈ [strong, weak], marks.Holds t := by
  show ∀ t ∈ [strong, weak], ∀ n ∈ t.preorder, n.id < marks.next
  decide

def results (root : Node) : List TestResult :=
  [.fail ⟨"T", "never"⟩ "no"] ++ ["one", "two"].map fun name =>
    ⟨⟨"T", name⟩, if root.kind = .file then none else some ⟨"no", none⟩⟩

def team : Collaborators Rat Unit where
  executor := ⟨fun root _ _ _ before => (.ok ⟨results root, none⟩, before)⟩
  oracle := none
  cancelled memory := (false, memory)
  schedule := .inOrder
  seed := 0

def settings : Settings Rat := ⟨2, 1, 0, .program, [.delete], false, some 0⟩

/-- Positive tests count ten times as much as negative ones. -/
def policy : FitnessPolicy Rat := ⟨1, 10, true, none⟩

def search : Search Rat Unit := .new ⟨.new policy .keepAll, marks, .empty, ()⟩

end Leftover

open Leftover in
/-- After a run on the strong program, the run on the weak one reports the strong one. -/
theorem not_runs_independent :
    ¬ ∀ (_ : Root Rat) (c : Collaborators Rat Unit) (settings : Settings Rat)
        (policy : FitnessPolicy Rat) (suspicion : SuspicionPolicy Rat) (store : Store Rat)
        (disk : Disk) (earlier : List Node) (root : Node) (r : RunReport Rat),
      settings.seed.isSome = true → c.oracle = none →
      (∃ answers : Node → Selection → Except TestRunError TestRun,
        ∀ root selection dir store before,
          (c.executor.run root selection dir store before).1 = answers root selection) →
      (∀ t ∈ earlier ++ [root], store.Holds t) →
      (earlier ++ [root]).Pairwise (fun a b => ∀ n ∈ a.preorder, ∀ m ∈ b.preorder, n.id ≠ m.id) →
      let used := after settings c earlier (.new ⟨.new policy suspicion, store, disk, ()⟩)
      (run settings c root used).1 = .ok r →
        (run settings c root (.new { used.bench with evaluator := .new policy suspicion })).1 =
          .ok r := by
  intro hclaim
  let hroot : Root Rat := ⟨id⟩
  let used := after settings team [strong] search
  let new : Search Rat Unit := .new { used.bench with evaluator := .new policy .keepAll }
  let figures (answer : Except RepairFault (RunReport Rat)) :=
    answer.toOption.map fun r => (r.bestFitness, r.maxFitness)
  have hused : figures (run settings team weak used).1 = some (20, 3) := by decide +kernel
  have hnew : figures (run settings team weak new).1 = some (0, 3) := by decide +kernel
  cases hrun : (run settings team weak used).1 with
  | error fault =>
    rw [hrun] at hused
    cases hused
  | ok r =>
    have hsame : (run settings team weak new).1 = .ok r :=
      hclaim hroot team settings policy .keepAll marks .empty [strong] weak r rfl rfl
        ⟨fun root _ => .ok ⟨results root, none⟩, fun _ _ _ _ _ => rfl⟩ holds_programs
        (by decide) hrun
    rw [hsame, ← hrun, hused] at hnew
    exact absurd hnew (by decide)

open Leftover in
/-- What the run on the weak program reports is the report of a new search with the strong program
put in, and the marks of the weak one are what they were. -/
theorem run_carries_leftover : ∃ _ : Root Rat,
    let used := after settings team [strong] search
    let new : Search Rat Unit := .new { used.bench with evaluator := .new policy .keepAll }
    team.oracle = none ∧ marks.Holds weak ∧
      (∀ n ∈ strong.preorder, ∀ m ∈ weak.preorder, n.id ≠ m.id) ∧
      (run settings team weak used).1 =
        (run settings team weak new).1.map (·.carrying used.bench.evaluator.best) ∧
      marks.AgreeOn weak new.bench.store := by
  let _ : Root Rat := ⟨id⟩
  have hholds := holds_programs weak (by simp)
  have hapart : ∀ n ∈ strong.preorder, ∀ m ∈ weak.preorder, n.id ≠ m.id := by decide
  obtain ⟨hreport, -, hmarks⟩ :=
    run_carries team settings policy .keepAll marks .empty () [strong] weak
  exact ⟨_, rfl, hholds, hapart, hreport,
    hmarks rfl hholds (List.forall_mem_singleton.mpr hapart)⟩

end Search

end GeneticRepair
