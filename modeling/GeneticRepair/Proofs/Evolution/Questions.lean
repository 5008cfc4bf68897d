import GeneticRepair.Proofs.Evolution.Relay
import GeneticRepair.Proofs.Evolution.Undisturbed

/-!
# `Proofs/Evolution/Questions.lean` — what an oracle is asked

An oracle is shown a program with its failing tests. It is never shown one without, and it need not
know what to say to that: whoever fails no test reaches the maximum, and a run ends with the first
variant that does. So as long as a run goes on, every variant that may be shown has failing tests,
be they its own or those of a parent (`Variant.Open`).

* `run_of_alike`: `Moment.shown` is all that an oracle is asked.
* `questions_open`: what is shown fails some tests, and they are tests of the first run.
-/

set_option autoImplicit false

namespace GeneticRepair

variable {α ω : Type}

/-- Two oracles say the same about a variant. -/
def Oracle.Alike (oracle oracle' : Oracle α ω) (v : Variant α) (b : Bench α ω) : Prop :=
  oracle'.propose v.root v.failing (b.store, b.memory) =
    oracle.propose v.root v.failing (b.store, b.memory)

namespace Search

/-! ## The questions of a run -/

section

variable [Scalar α]

/-- The variant that the next step shows to the oracle, if it asks one. -/
def Moment.shown (settings : Settings α) (c : Collaborators α ω) (m : Moment α ω) :
    Option (Variant α) :=
  match c.oracle, m.stage with
  | some _, .varying _ _ (v :: _) =>
    if (WordStream.chance settings.oracleProbability m.search.rng).1 then some v else none
  | _, _ => none

variable {settings : Settings α} {c : Collaborators α ω} {oracle oracle' : Oracle α ω}

theorem stage_of_shown {m : Moment α ω} {v : Variant α} (h : m.shown settings c = some v) :
    ∃ course done todo, m.stage = .varying course done (v :: todo) := by
  unfold Moment.shown at h
  split at h
  · next hstage =>
    split at h
    · obtain rfl := Option.some.inj h
      exact ⟨_, _, _, hstage⟩
    · cases h
  · cases h

theorem shown_of_asked (ho : c.oracle = some oracle) {s : Search α ω} {course : Course α}
    {done todo : List (Variant α)} {v : Variant α} {ratings : List (Rating α)}
    (h : (WordStream.chance settings.oracleProbability s.rng).1 = true) :
    (⟨s, .varying course done (v :: todo), ratings⟩ : Moment α ω).shown settings c = some v := by
  unfold Moment.shown
  rw [ho]
  exact if_pos h

omit [Scalar α] in
theorem consult_of_alike {v : Variant α} {s : Search α ω}
    (h : Oracle.Alike oracle oracle' v s.bench) : consult oracle' v s = consult oracle v s := by
  rcases hsaid : oracle.propose v.root v.failing (s.bench.store, s.bench.memory)
    with ⟨answer, store, memory⟩
  have hsaid' : oracle'.propose v.root v.failing (s.bench.store, s.bench.memory) =
      (answer, store, memory) := h.trans hsaid
  rw [consult_of_propose hsaid, consult_of_propose hsaid']

theorem vary_of_alike (ho : c.oracle = some oracle) {v : Variant α} {s : Search α ω}
    (h : (WordStream.chance settings.oracleProbability s.rng).1 = true →
      Oracle.Alike oracle oracle' v s.bench) :
    vary settings { c with oracle := some oracle' } v s = vary settings c v s := by
  unfold vary
  rw [ho]
  simp only []
  rw [bind_apply, bind_apply, withWords]
  generalize WordStream.chance settings.oracleProbability s.rng = drawn at h
  obtain ⟨asked, rng⟩ := drawn
  cases asked with
  | false => rfl
  | true => exact consult_of_alike (h rfl)

variable [Root α]

theorem step_of_alike (ho : c.oracle = some oracle) {m : Moment α ω}
    (h : ∀ v, m.shown settings c = some v → Oracle.Alike oracle oracle' v m.search.bench) :
    step settings { c with oracle := some oracle' } m = step settings c m := by
  obtain ⟨s, stage, ratings⟩ := m
  match stage with
  | .varying course done (v :: todo) =>
    have hvary : vary settings { c with oracle := some oracle' } v s = vary settings c v s :=
      vary_of_alike ho fun hasked => h v (shown_of_asked ho hasked)
    unfold step Stage.next
    simp only [bind_apply, hvary]
  -- nothing else looks at the oracle
  | .varying _ _ [] => rfl
  | .fresh _ => rfl
  | .between _ _ => rfl
  | .crossing _ _ [] => rfl
  | .crossing _ _ [_] => rfl
  | .crossing _ _ (_ :: _ :: _) => rfl
  | .rating _ _ [] => rfl
  | .rating _ _ (_ :: _) => rfl
  | .batch _ _ _ [] => rfl
  | .batch _ _ _ (_ :: _) => rfl
  | .over _ => rfl

/-- What is shown to an oracle in a run is all that it is asked: whoever says the same to that may
take its place. -/
theorem run_of_alike (ho : c.oracle = some oracle) {root : Node} {s : Search α ω}
    (h : ∀ n v, ((step settings c)^[n] (start root s)).shown settings c = some v →
      Oracle.Alike oracle oracle' v ((step settings c)^[n] (start root s)).search.bench) :
    run settings { c with oracle := some oracle' } root s = run settings c root s := by
  have hsame (n : Nat) : (step settings { c with oracle := some oracle' })^[n] (start root s) =
      (step settings c)^[n] (start root s) := by
    induction n with
    | zero => rfl
    | succ n ih =>
      rw [Function.iterate_succ_apply', Function.iterate_succ_apply', ih]
      exact step_of_alike ho (h n)
  obtain ⟨n, ratings, hn⟩ := iterate_step_start settings { c with oracle := some oracle' } root s
  obtain ⟨k, ratings', hk⟩ := iterate_step_start settings c root s
  rw [hsame] at hn
  have hmoment := eq_of_over (congrArg Moment.stage hn) (congrArg Moment.stage hk)
  rw [hn, hk] at hmoment
  have hstage := congrArg Moment.stage hmoment
  have hsearch := congrArg Moment.search hmoment
  exact Prod.ext (Stage.over.inj hstage) hsearch

end

end Search

/-! ## Variants with failing tests -/

/-- The variant is no repair, and some of the tests are known to fail, for its program or for one
that it was made from. -/
structure Variant.Open (base : Baseline Rat) (v : Variant Rat) : Prop where
  unfixed : Search.isRepair base.maximum v = false
  nonempty : v.failing ≠ ∅
  known : ∀ id ∈ v.failing, id ∈ base.tests.all

namespace Variant.Open

variable {base : Baseline Rat} {v w : Variant Rat}

theorem copies (h : w.Open base) (hv : v.Copies w) : v.Open base := by
  obtain ⟨-, hfitness, hfailing⟩ := hv
  refine ⟨?_, hfailing ▸ h.nonempty, hfailing ▸ h.known⟩
  rw [Search.isRepair, hfitness]
  exact h.unfixed

theorem renews (h : w.Open base) {root : Node} (hv : v.Renews w root) : v.Open base := by
  obtain ⟨-, hfitness, hfailing⟩ := hv
  refine ⟨?_, hfailing ▸ h.nonempty, hfailing ▸ h.known⟩
  rw [Search.isRepair, hfitness]
  rfl

/-- With exact figures, whoever misses the maximum fails a test. -/
theorem of_exact {p : FitnessPolicy Rat} (hfits : base.Fits p) {fitness : Rat}
    (hfitness : v.fitness = some fitness) (hexact : p.Exact base.tests fitness v.failing)
    (hunfixed : Search.isRepair base.maximum v = false) : v.Open base := by
  refine ⟨hunfixed, fun hnone => ?_, hexact.known⟩
  have hfull : fitness = base.maximum := by
    rw [hexact.fitness_eq, hnone, p.worth_empty, hfits.maximum_eq]
  have htolerance : (0 : Rat) < Scalar.tolerance := by norm_num [FitnessPolicy.tolerance_eq]
  rw [Search.isRepair, hfitness, hfull] at hunfixed
  exact absurd (by linarith) (of_decide_eq_false hunfixed)

end Variant.Open

namespace Search

/-- All variants in hand have failing tests, except that a batch may have come upon repairs. -/
def Stage.Open (base : Baseline Rat) : Stage Rat → Prop
  | .fresh _ => False
  | .over _ => False
  | .between course population =>
    course.maximum = base.maximum ∧ ∀ v ∈ course.original :: population, v.Open base
  | .crossing course bred parents =>
    course.maximum = base.maximum ∧ ∀ v ∈ course.original :: (bred ++ parents), v.Open base
  | .varying course done todo =>
    course.maximum = base.maximum ∧ ∀ v ∈ course.original :: (done ++ todo), v.Open base
  | .rating course done todo =>
    course.maximum = base.maximum ∧ ∀ v ∈ course.original :: (done ++ todo), v.Open base
  | .batch course generation results _ =>
    course.maximum = base.maximum ∧ (∀ v ∈ course.original :: generation, v.Open base) ∧
      ∀ job v, (job, .ok v) ∈ results → isRepair base.maximum v = false → v.Open base

/-- The run still seeks a repair. -/
structure Seeks (base : Baseline Rat) (s : Search Rat ω) (stage : Stage Rat) : Prop where
  baseline_eq : s.bench.evaluator.baseline = some base
  fits : base.Fits s.bench.evaluator.policy
  stage_open : stage.Open base

variable {base : Baseline Rat} {settings : Settings Rat} {c : Collaborators Rat ω}
  {s s' : Search Rat ω} {stage stage' : Stage Rat}

theorem Seeks.of_eq (h : Seeks base s stage)
    (he : s'.bench.evaluator = s.bench.evaluator) (hstage : stage'.Open base) :
    Seeks base s' stage' :=
  ⟨he ▸ h.baseline_eq, he ▸ h.fits, hstage⟩

theorem open_assessing {course : Course Rat} {generation : List (Variant Rat)}
    (hmaximum : course.maximum = base.maximum)
    (h : ∀ v ∈ course.original :: generation, v.Open base) :
    (assessing settings c course generation).Open base := by
  unfold assessing
  split
  · exact ⟨hmaximum, h, nofun⟩
  · exact ⟨hmaximum, h⟩

theorem open_turn {v w : Variant Rat} (h : v.Open base) (hturn : Turn settings c s v w s') :
    w.Open base ∧ s'.bench.evaluator = s.bench.evaluator := by
  cases hturn with
  | spared evaluator _ => exact ⟨h, evaluator⟩
  | mutated evaluator _ renews => exact ⟨h.renews renews, evaluator⟩
  | missed evaluator _ _ _ => exact ⟨h, evaluator⟩
  | proposed evaluator _ _ _ renews => exact ⟨h.renews renews, evaluator⟩

variable [Root Rat]

/-- A variant that has been evaluated is a repair, or it has failing tests. -/
theorem Seeks.evaluate (h : Seeks base s stage) {v w : Variant Rat} {a : Assessment Rat}
    {b : Bench Rat ω} (hev : s.bench.evaluate c.executor v = (.ok (a, w), b))
    (hunfixed : isRepair base.maximum w = false) : w.Open base := by
  obtain ⟨hexact, stale, rfl⟩ := Bench.exact_of_evaluate h.baseline_eq h.fits hev
  exact .of_exact h.fits rfl hexact hunfixed

theorem Seeks.founded {root : Node} {a : Assessment Rat} {b : Bench Rat ω}
    {original : Variant Rat} (hes : s.bench.establish c.executor root = (.ok a, b))
    (hb : b.evaluator.baseline = some base)
    (horiginal : original = (Variant.new 0 root).assess a.fitness a.failing)
    (hunfixed : isRepair base.maximum original = false) (hs' : s'.bench = b.offer original) :
    Seeks base s' (.between ⟨original, base.maximum, 1, settings.maxGenerations⟩ []) := by
  obtain ⟨found, he, -, hfits, hfitness, hfailing⟩ := Bench.fits_of_establish hes
  rw [he] at hb
  obtain rfl := Option.some.inj hb
  have hoffered : s'.bench.evaluator.policy = s.bench.evaluator.policy ∧
      s'.bench.evaluator.baseline = some found := by
    rw [hs', Bench.offer_eq, he]
    exact ⟨rfl, rfl⟩
  refine ⟨hoffered.2, hoffered.1 ▸ hfits, rfl, List.forall_mem_singleton.mpr ?_⟩
  refine .of_exact hfits (by rw [horiginal]; rfl) ?_ hunfixed
  rw [horiginal, hfitness, hfailing]
  exact FitnessPolicy.exact_baseline _ _

namespace Seeks

variable {course : Course Rat} {gained : Option (Rating Rat)}

theorem between {population : List (Variant Rat)} (h : Seeks base s (.between course population))
    (hrelay : Relay settings c s (.between course population) stage' gained s') :
    (∃ result, stage' = .over result) ∨ Seeks base s' stage' := by
  obtain ⟨hmaximum, hall⟩ := h.stage_open
  cases hrelay with
  | ended => exact .inl ⟨_, rfl⟩
  | entered chosen evaluator _ =>
    obtain ⟨horiginal, hpopulation⟩ := List.forall_mem_cons.mp hall
    refine .inr (h.of_eq evaluator ⟨hmaximum, List.forall_mem_cons.mpr ⟨horiginal, ?_⟩⟩)
    intro v hv
    obtain ⟨w, hw, -, hcopies⟩ := chosen v hv
    exact (hpopulation w hw).copies hcopies

theorem crossing {bred parents : List (Variant Rat)}
    (h : Seeks base s (.crossing course bred parents))
    (hrelay : Relay settings c s (.crossing course bred parents) stage' gained s') :
    (∃ result, stage' = .over result) ∨ Seeks base s' stage' := by
  obtain ⟨hmaximum, hall⟩ := h.stage_open
  cases hrelay with
  | ended => exact .inl ⟨_, rfl⟩
  | @crossed _ _ _ a b _ _ _ _ _ _ _ evaluator _ renews renews' =>
    have ha : a.Open base := hall a (by simp)
    have hb : b.Open base := hall b (by simp)
    refine .inr (h.of_eq evaluator ⟨hmaximum, forall_mem_replace [a, b] hall ?_⟩)
    simp only [List.forall_mem_cons]
    exact ⟨ha, hb, ha.renews renews, hb.renews renews', nofun⟩
  | @alike _ _ _ a b _ evaluator _ =>
    refine .inr (h.of_eq evaluator ⟨hmaximum, forall_mem_replace [a, b] hall fun v hv => ?_⟩)
    exact hall v (List.mem_cons_of_mem _ (List.mem_append_right _ (List.mem_append_left _ hv)))
  | filled copied evaluator _ =>
    obtain ⟨horiginal, hbred⟩ := List.forall_mem_cons.mp hall
    have hcopies := fun v hv => horiginal.copies (copied v hv)
    refine .inr (h.of_eq evaluator ⟨hmaximum, List.forall_mem_cons.mpr ⟨horiginal, ?_⟩⟩)
    exact List.forall_mem_append.mpr ⟨nofun, List.forall_mem_append.mpr ⟨hbred, hcopies⟩⟩

theorem varying {done todo : List (Variant Rat)} (h : Seeks base s (.varying course done todo))
    (hrelay : Relay settings c s (.varying course done todo) stage' gained s') :
    (∃ result, stage' = .over result) ∨ Seeks base s' stage' := by
  obtain ⟨hmaximum, hall⟩ := h.stage_open
  cases hrelay with
  | ended => exact .inl ⟨_, rfl⟩
  | @varied _ _ _ v _ _ turn =>
    obtain ⟨hw, evaluator⟩ := open_turn (hall v (by simp)) turn
    exact .inr (h.of_eq evaluator
      ⟨hmaximum, forall_mem_replace [v] hall (List.forall_mem_singleton.mpr hw)⟩)
  | handed =>
    rw [List.append_nil] at hall
    exact .inr (h.of_eq rfl (open_assessing hmaximum hall))

theorem rating {done todo : List (Variant Rat)} (h : Seeks base s (.rating course done todo))
    (hrelay : Relay settings c s (.rating course done todo) stage' gained s') :
    (∃ result, stage' = .over result) ∨ Seeks base s' stage' := by
  obtain ⟨hmaximum, hall⟩ := h.stage_open
  cases hrelay with
  | ended => exact .inl ⟨_, rfl⟩
  | passed =>
    refine .inr (h.of_eq rfl ⟨hmaximum, ?_⟩)
    rwa [List.append_assoc]
  | @rated _ _ _ v _ _ _ _ evaluated unfixed bench =>
    have hw := h.evaluate evaluated (hmaximum ▸ unfixed)
    obtain ⟨hpolicy, hbaseline, -⟩ := evaluate_frame h.baseline_eq evaluated
    rw [Bench.offer_eq] at bench
    refine .inr ⟨?_, ?_, hmaximum, forall_mem_replace [v] hall (List.forall_mem_singleton.mpr hw)⟩
    · rw [bench]
      exact hbaseline.trans h.baseline_eq
    · rw [bench]
      exact hpolicy ▸ h.fits
  | closed bench =>
    rw [List.append_nil] at hall
    exact .inr (h.of_eq (congrArg Bench.evaluator bench) ⟨hmaximum, hall⟩)

theorem batch {generation : List (Variant Rat)}
    {results : List (Nat × Except RepairFault (Variant Rat))} {jobs : List (Nat × Variant Rat)}
    (h : Seeks base s (.batch course generation results jobs))
    (hrelay : Relay settings c s (.batch course generation results jobs) stage' gained s') :
    (∃ result, stage' = .over result) ∨ Seeks base s' stage' := by
  obtain ⟨hmaximum, hall, hresults⟩ := h.stage_open
  cases hrelay with
  | ended => exact .inl ⟨_, rfl⟩
  | @worked _ _ _ _ v _ answer _ evaluated =>
    obtain ⟨hpolicy, hbaseline, -⟩ := evaluate_frame h.baseline_eq evaluated
    refine .inr ⟨hbaseline.trans h.baseline_eq, hpolicy ▸ h.fits, hmaximum, hall, ?_⟩
    intro job w hw hunfixed
    obtain hw | hw := List.mem_append.mp hw
    · exact hresults job w hw hunfixed
    · obtain ⟨-, hanswer⟩ := Prod.mk.inj (List.mem_singleton.mp hw)
      obtain ⟨⟨a, w'⟩, rfl, rfl⟩ := exists_of_map_eq_ok hanswer.symm
      exact h.evaluate evaluated hunfixed
  | settled settled unfixed bench =>
    obtain ⟨horiginal, hgeneration⟩ := List.forall_mem_cons.mp hall
    rw [Bench.offers_eq] at bench
    refine .inr ⟨?_, ?_, hmaximum, List.forall_mem_cons.mpr ⟨horiginal, fun v hv => ?_⟩⟩
    · rw [bench]
      exact h.baseline_eq
    · rw [bench]
      exact h.fits
    · obtain hv' | ⟨job, hjob⟩ := mem_of_settle settled v hv
      · exact hgeneration v hv'
      · exact hresults job v hjob (hmaximum ▸ unfixed v hv)

/-- As long as the run goes on, it seeks a repair. -/
theorem next (h : Seeks base s stage) (hrelay : Relay settings c s stage stage' gained s') :
    (∃ result, stage' = .over result) ∨ Seeks base s' stage' := by
  cases stage with
  | fresh root => exact h.stage_open.elim
  | between course population => exact h.between hrelay
  | crossing course bred parents => exact h.crossing hrelay
  | varying course done todo => exact h.varying hrelay
  | rating course done todo => exact h.rating hrelay
  | batch course generation results jobs => exact h.batch hrelay
  | _ => exact h.stage_open.elim

end Seeks

/-! ## All questions of a run -/

/-- After the first step a run is over, or it seeks a repair on the baseline of its first run. -/
theorem seeks_iterate (settings : Settings Rat) (c : Collaborators Rat ω) (root : Node)
    (s : Search Rat ω) (n : Nat) :
    let moment : Moment Rat ω := (step settings c)^[n + 1] (start root s)
    (∃ result, moment.stage = .over result) ∨
      ∃ a b base, s.bench.establish c.executor root = (.ok a, b) ∧
        b.evaluator.baseline = some base ∧ Seeks base moment.search moment.stage := by
  have hfirst (stage : Stage Rat) (rating : Option (Rating Rat)) (s' : Search Rat ω)
      (h : Relay settings c s (.fresh root) stage rating s') :
      (∃ result, stage = .over result) ∨
        ∃ a b base, s.bench.establish c.executor root = (.ok a, b) ∧
          b.evaluator.baseline = some base ∧ Seeks base s' stage := by
    cases h with
    | ended => exact .inl ⟨_, rfl⟩
    | founded established baseline assessed unfixed bench =>
      exact .inr ⟨_, _, _, established, baseline,
        .founded established baseline assessed unfixed bench⟩
  refine relay_iterate (P := fun s' stage _ => ∃ a b base,
      s.bench.establish c.executor root = (.ok a, b) ∧ b.evaluator.baseline = some base ∧
        Seeks base s' stage) settings c hfirst ?_ n
  rintro _ _ stage' rating s' - ⟨a, b, base, hes, hb, h⟩ hrelay
  exact (h.next hrelay).imp_right fun hnext => ⟨a, b, base, hes, hb, hnext⟩

/-- Whenever an oracle is shown a variant, some tests are given as failing, and they are tests of
the first run of the program under repair. And what it is shown is all that it is asked: an oracle
that says the same to that leads to the same run. -/
theorem questions_open (settings : Settings Rat) (c : Collaborators Rat ω) (root : Node)
    (s : Search Rat ω) :
    let moment : Nat → Moment Rat ω := fun n => (step settings c)^[n] (start root s)
    (∀ n v, (moment n).shown settings c = some v →
      ∃ a b base, s.bench.establish c.executor root = (.ok a, b) ∧
        b.evaluator.baseline = some base ∧
        v.failing ≠ ∅ ∧ ∀ id ∈ v.failing, id ∈ base.tests.all) ∧
    ∀ oracle oracle', c.oracle = some oracle →
      (∀ n v, (moment n).shown settings c = some v →
        oracle'.propose v.root v.failing
            ((moment n).search.bench.store, (moment n).search.bench.memory) =
          oracle.propose v.root v.failing
            ((moment n).search.bench.store, (moment n).search.bench.memory)) →
      run settings { c with oracle := some oracle' } root s = run settings c root s := by
  intro moment
  refine ⟨fun n v hv => ?_, fun oracle oracle' ho halike => run_of_alike ho halike⟩
  obtain ⟨course, done, todo, hstage⟩ := stage_of_shown hv
  cases n with
  | zero => cases hstage
  | succ n =>
    obtain ⟨result, hover⟩ | ⟨a, b, base, hes, hb, hseeks⟩ := seeks_iterate settings c root s n
    · cases hover.symm.trans hstage
    · have hopen := hseeks.stage_open
      rw [show ((step settings c)^[n + 1] (start root s)).stage = _ from hstage] at hopen
      have hv := hopen.2 v (List.mem_cons_of_mem _ (List.mem_append_right _ List.mem_cons_self))
      exact ⟨a, b, base, hes, hb, hv.nonempty, hv.known⟩

end Search

/-! ## Three statements too many -/

namespace Pruning

open Search

def program : Node :=
  .make 6 .file [.make 1 .atomicStatement [.leaf 0 "a" ⟨1, 1⟩],
    .make 3 .atomicStatement [.leaf 2 "b" ⟨2, 1⟩], .make 5 .atomicStatement [.leaf 4 "c" ⟨3, 1⟩]]

/-- All statements are suspicious. -/
def marks : Store Rat :=
  ⟨#[.fresh [], (Mark.fresh []).raise 1, .fresh [], (Mark.fresh []).raise 1, .fresh [],
    (Mark.fresh []).raise 1, .fresh []]⟩

/-- Each test fails on the programs that have its statement. -/
def failures (root : Node) : List TestId :=
  (["a", "b", "c"].filter fun text => root.preorder.any fun
    | .leaf _ token _ => token == text
    | .inner .. => false).map (⟨"Test", ·⟩)

def results (root : Node) : List TestResult :=
  ["a", "b", "c"].map fun text =>
    let id : TestId := ⟨"Test", text⟩
    ⟨id, if id ∈ failures root then some ⟨"still there", none⟩ else none⟩

/-- Takes out the first statement when it is asked for the first two times, then the last one two
times, and then has no more proposals. It counts the questions. -/
def pruner : Oracle Rat Nat where
  propose root _ before :=
    let (store, count) := before
    if count < 4 then
      let (id, store) := store.allocate (.fresh [])
      let children := root.children.eraseIdx (if count < 2 then 0 else 2)
      (.ok (some (.make id .file children)), store, count + 1)
    else (.ok none, store, count + 1)

def team : Collaborators Rat Nat where
  executor := ⟨fun root _ _ _ before => (.ok ⟨results root, none⟩, before)⟩
  oracle := some pruner
  cancelled memory := (false, memory)
  schedule := .inOrder
  seed := 0

/-- Every variant is shown to the oracle. -/
def settings : Settings Rat := ⟨4, 2, 1, .program, [.delete], false, some 4⟩

def search : Search Rat Nat := .new ⟨.new .standard .keepAll, marks, .empty, 0⟩

/-- An oracle that proposes nothing if it is told of no failing test. -/
def guarded : Oracle Rat Nat where
  propose root failing before :=
    if failing = ∅ then (.ok none, before) else pruner.propose root failing before

/-- The first question tells of failing tests. All questions do, so it does not matter that the guarded
oracle would say something else to a program without any. -/
theorem questions_open_pruning : ∃ _ : Root Rat,
    (∃ v a b base,
      ((step settings team)^[3] (start program search)).shown settings team = some v ∧
      search.bench.establish team.executor program = (.ok a, b) ∧
      b.evaluator.baseline = some base ∧ v.failing ≠ ∅ ∧ ∀ id ∈ v.failing, id ∈ base.tests.all) ∧
    run settings { team with oracle := some guarded } program search =
      run settings team program search := by
  let _ : Root Rat := ⟨id⟩
  have hasked : (((step settings team)^[3] (start program search)).shown settings team).isSome =
      true := by decide +kernel
  obtain ⟨v, hv⟩ := Option.isSome_iff_exists.mp hasked
  obtain ⟨hopen, hsame⟩ := questions_open settings team program search
  obtain ⟨a, b, base, hes, hb, hfailing, hknown⟩ := hopen 3 v hv
  refine ⟨_, ⟨v, a, b, base, hv, hes, hb, hfailing, hknown⟩, ?_⟩
  refine hsame pruner guarded rfl fun n w hw => ?_
  obtain ⟨-, -, -, -, -, hfailing, -⟩ := hopen n w hw
  exact if_neg hfailing

end Pruning

end GeneticRepair
