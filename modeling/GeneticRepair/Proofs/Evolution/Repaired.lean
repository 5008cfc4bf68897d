import GeneticRepair.Proofs.Evolution.Assessed

/-!
# `Proofs/Evolution/Repaired.lean` — when a reported repair passes all tests

A run stops with a repair when a variant comes within a fixed tolerance of the maximal fitness. That
means "passes all tests" only if no single test weighs less than the tolerance, and admissible
weights may well be that small: the weight of the positive tests may even be zero. The condition is
sharp. If both weights are above the tolerance, every reported repair passes all tests
(`failing_eq_empty`); if one is not, there is a run that reports a repair with a failing test
(`exists_light_negative`, `exists_light_positive`).
-/

set_option autoImplicit false

namespace GeneticRepair

/-! ## What a failing test costs -/

namespace FitnessPolicy

variable {p : FitnessPolicy Rat} {u : Universe} {failing : SortedSet TestId} {id : TestId}

theorem size_filter_add_one_le {tests : SortedSet TestId} (hid : id ∈ tests) (hf : id ∈ failing) :
    (tests.filter (· ∉ failing)).size + 1 ≤ tests.size := by
  have hlt : (tests.toList.filter (· ∉ failing)).length < tests.toList.length :=
    List.length_filter_lt_length_iff_exists.mpr ⟨id, hid, by simpa using hf⟩
  exact hlt

theorem worth_add_negativeWeight_le (hp : p.validate = .ok ()) (hid : id ∈ u.negative)
    (hf : id ∈ failing) : p.worth u failing + p.negativeWeight ≤ p.maximum u := by
  obtain ⟨hn, hpos⟩ := validate_eq_ok_iff.mp hp
  have h1 : ((u.passing failing).negative : Rat) + 1 ≤ (u.negative.size : Rat) := by
    exact_mod_cast size_filter_add_one_le hid hf
  have h2 : ((u.passing failing).positive : Rat) ≤ (u.positive.size : Rat) :=
    Nat.cast_le.mpr Universe.size_filter_le
  rw [worth, maximum, weigh_eq, weigh_eq]
  nlinarith

theorem worth_add_positiveWeight_le (hp : p.validate = .ok ()) (hid : id ∈ u.positive)
    (hf : id ∈ failing) : p.worth u failing + p.positiveWeight ≤ p.maximum u := by
  obtain ⟨hn, hpos⟩ := validate_eq_ok_iff.mp hp
  have h1 : ((u.passing failing).negative : Rat) ≤ (u.negative.size : Rat) :=
    Nat.cast_le.mpr Universe.size_filter_le
  have h2 : ((u.passing failing).positive : Rat) + 1 ≤ (u.positive.size : Rat) := by
    exact_mod_cast size_filter_add_one_le hid hf
  rw [worth, maximum, weigh_eq, weigh_eq]
  nlinarith

/-- With both weights above the tolerance, only a program without failing tests comes within the
tolerance of the maximum. -/
theorem failing_eq_empty (hp : p.validate = .ok ()) (hn : Scalar.tolerance < p.negativeWeight)
    (hpos : Scalar.tolerance < p.positiveWeight) {fitness : Rat} (h : p.Exact u fitness failing)
    (hmax : p.maximum u - Scalar.tolerance ≤ fitness) : failing = ∅ := by
  refine SortedSet.ext fun id => ⟨fun hid => ?_, fun hid => absurd hid (SortedSet.not_mem_empty id)⟩
  rw [h.fitness_eq] at hmax
  obtain hneg | hposi := Universe.mem_all_iff.mp (h.known id hid)
  · have := worth_add_negativeWeight_le hp hneg hid
    linarith
  · have := worth_add_positiveWeight_le hp hposi hid
    linarith

end FitnessPolicy

namespace Search

/-- Under the policy, every repair that a run on a new evaluator reports passes all tests. -/
def RepairsPass (p : FitnessPolicy Rat) : Prop :=
  ∀ (ω : Type) [Root Rat] (suspicion : SuspicionPolicy Rat) (settings : Settings Rat)
    (c : Collaborators Rat ω) (root : Node) (s s' : Search Rat ω) (report : RunReport Rat),
    s.bench.evaluator = .new p suspicion → settings.validate = .ok () →
      run settings c root s = (.ok report, s') → report.outcome = .repaired →
        report.best.failing = ∅

theorem repairsPass_of_lt {p : FitnessPolicy Rat} (hp : p.validate = .ok ())
    (hn : Scalar.tolerance < p.negativeWeight) (hpos : Scalar.tolerance < p.positiveWeight) :
    RepairsPass p := by
  intro ω _ suspicion settings c root s s' report hs hsettings hrun hrepaired
  obtain ⟨n, ratings, hn'⟩ := iterate_step_start settings c root s
  have hsound : Sound p ((step settings c)^[n] (start root s)) :=
    sound_iterate (sound_start p suspicion root hs) n
  rw [hn', hrun] at hsound
  obtain ⟨base, hb, hr⟩ := hsound.inOrder hrepaired
  have hfits := hsound.fits base hb
  rw [isRepair] at hr
  cases hf : report.best.fitness with
  | none => rw [hf] at hr; cases hr
  | some fitness =>
    rw [hf, Option.any_some, decide_eq_true_eq, hfits.maximum_eq] at hr
    have hbest : report.best ∈ (⟨s', .over (.ok report), ratings⟩ : Moment Rat ω).variants :=
      List.mem_append_right _ (List.mem_singleton_self _)
    obtain ⟨base', hb', hexact, -⟩ := hsound.assessed report.best hbest fitness hf
    obtain rfl := Option.some.inj (hb.symm.trans hb')
    exact FitnessPolicy.failing_eq_empty hp hn hpos hexact hr

/-! ## A suite that turns -/

/-- Tests that come out one way in the first run and another way ever after. -/
def turning (first later : TestRun) : Executor Rat Bool :=
  ⟨fun _ _ _ _ x => (.ok (if x.2 then later else first), (x.1, true))⟩

/-- Proposes the program itself. -/
def echo : Oracle Rat Bool := ⟨fun root _ x => (.ok (some root), x)⟩

/-- Every variant is shown to the oracle, and nobody cancels. -/
def turningWith (first later : TestRun) : Collaborators Rat Bool :=
  ⟨turning first later, some echo, fun memory => (false, memory), .inOrder, 0⟩

/-- One generation of two variants, both shown to the oracle. -/
def oneGeneration : Settings Rat := ⟨2, 1, 1, .program, [.delete], false, some 0⟩

/-- A search before its first run, on a disk without files. -/
def unused (p : FitnessPolicy Rat) : Search Rat Bool :=
  .new ⟨.new p .keepAll, .empty, .empty, false⟩

/-- A test that fails at first and a test that passes at first. -/
def broken : TestId := ⟨"T", "broken"⟩

def working : TestId := ⟨"T", "working"⟩

/-- The program under repair fails one test of two. -/
def mixedRun : TestRun := ⟨[.fail broken "no", .pass working], none⟩

/-- The other way round. -/
def swappedRun : TestRun := ⟨[.pass broken, .fail working "no"], none⟩

/-- The program under repair has one test, and fails it. -/
def failedRun : TestRun := ⟨[.fail broken "no"], none⟩

/-- A program without statements. -/
def blank : Node := .make 0 .file []

theorem nodup_mixedRun : (mixedRun.results.map (·.id)).Nodup := by decide

theorem validate_oneGeneration : oneGeneration.validate = .ok () := by decide

/-! ## A universe of two tests -/

section Mixed

variable {u : Universe}
  (h : u.outcomes = mixedRun.results.map fun r => (r.id, r.hasPassed))

include h

theorem sorts_of_mixed :
    u.negative = .ofList [broken] ∧ u.positive = .ofList [working] := by
  rw [Universe.negative, Universe.positive, Universe.withOutcome, Universe.withOutcome, h]
  exact ⟨rfl, rfl⟩

theorem mem_all_of_mixed (id : TestId) : id ∈ u.all ↔ id ∈ swappedRun.results.map (·.id) := by
  show _ ↔ id ∈ mixedRun.results.map (·.id)
  rw [Universe.mem_all, h]
  constructor
  · rintro ⟨passed, hmem⟩
    obtain ⟨r, hr, heq⟩ := List.mem_map.mp hmem
    obtain ⟨rfl, -⟩ := Prod.mk.inj heq
    exact List.mem_map_of_mem hr
  · intro hmem
    obtain ⟨r, hr, rfl⟩ := List.mem_map.mp hmem
    exact ⟨r.hasPassed, List.mem_map_of_mem hr⟩

theorem complete_swappedRun :
    u.Complete (u.mergedOutcomes swappedRun.results) :=
  Universe.complete_mergedOutcomes nodup_mixedRun fun _ hr =>
    (mem_all_of_mixed h _).mpr (List.mem_map_of_mem hr)

theorem validate_swappedRun :
    u.validate swappedRun.results (.everything true) = .ok () :=
  Universe.validate_eq_ok_iff.mpr ⟨nodup_mixedRun,
    fun _ hr => (mem_all_of_mixed h _).mpr (List.mem_map_of_mem hr),
    fun id hid _ => (mem_all_of_mixed h id).mp hid⟩

theorem working_mem_failures :
    working ∈ Universe.failures (u.mergedOutcomes swappedRun.results) :=
  (complete_swappedRun h).mem_failures.mpr (List.mem_append_left _ (by decide))

theorem broken_not_mem_failures :
    broken ∉ Universe.failures (u.mergedOutcomes swappedRun.results) := by
  intro hmem
  have hcomplete := complete_swappedRun h
  have hpassed : (broken, true) ∈ u.mergedOutcomes swappedRun.results :=
    List.mem_append_left _ (by decide)
  exact absurd (eq_of_mem_of_nodup_keys hcomplete.nodup hpassed
    (hcomplete.mem_failures.mp hmem)) (by decide)

theorem maximum_of_mixed (p : FitnessPolicy Rat) :
    p.maximum u = p.negativeWeight + p.positiveWeight := by
  obtain ⟨hnegative, hpositive⟩ := sorts_of_mixed h
  rw [FitnessPolicy.maximum, FitnessPolicy.weigh_eq, hnegative, hpositive]
  show p.negativeWeight * ((1 : Nat) : Rat) + p.positiveWeight * ((1 : Nat) : Rat) = _
  simp

theorem baselineFitness_of_mixed (p : FitnessPolicy Rat) :
    p.baselineFitness u = p.positiveWeight := by
  rw [FitnessPolicy.baselineFitness, (sorts_of_mixed h).2]
  show p.positiveWeight * ((1 : Nat) : Rat) = _
  simp

/-- The negative test passes in the later run, and that alone gives its weight. -/
theorem negativeWeight_le_worth {p : FitnessPolicy Rat} (hp : p.validate = .ok ()) :
    p.negativeWeight ≤ p.worth u (Universe.failures (u.mergedOutcomes swappedRun.results)) := by
  have hbroken := broken_not_mem_failures h
  generalize Universe.failures (u.mergedOutcomes swappedRun.results) = failing at hbroken
  have hone : ((SortedSet.ofList [broken]).filter (· ∉ failing)).size = 1 := by
    show ([broken].filter (· ∉ failing)).length = 1
    rw [List.filter_cons_of_pos (by simpa using hbroken)]
    rfl
  obtain ⟨hnegative, hpositive⟩ := sorts_of_mixed h
  have hnonneg := (FitnessPolicy.validate_eq_ok_iff.mp hp).2
  rw [FitnessPolicy.worth, FitnessPolicy.weigh_eq, Universe.passing, hnegative, hone, Nat.cast_one,
    mul_one]
  exact le_add_of_nonneg_right (mul_nonneg hnonneg (Nat.cast_nonneg _))

end Mixed

/-! ## The runs -/

section Runs

/-- The only generation: two copies of the program, handed out again by the oracle. -/
theorem nextGeneration_turningWith (first later : TestRun) (original : Variant Rat)
    (s : Search Rat Bool) :
    ∃ v rest s', nextGeneration oneGeneration (turningWith first later) original [] s =
        (v :: rest, s') ∧
      v.root = original.root ∧ v.fitness = none ∧ v.stale = true ∧ s'.bench = s.bench :=
  ⟨_, _, _, rfl, rfl, rfl, rfl, rfl⟩

variable [Root Rat] {p : FitnessPolicy Rat} {first later : TestRun} (root : Node)

/-- The first run makes its results the baseline. -/
theorem establish_turning (later : TestRun) (hp : p.validate = .ok ())
    (hn : (first.results.map (·.id)).Nodup)
    (hne : first.results ≠ []) (hcov : first.coverage = none) :
    ∃ base b, (unused p).bench.establish (turning first later) root =
        (.ok ⟨p.baselineFitness base.tests, base.tests.negative, first.results.length, false, none⟩,
          b) ∧
      b.evaluator = { (Evaluator.new p .keepAll : Evaluator Rat) with baseline := some base } ∧
      base.Fits p ∧ base.tests.outcomes = first.results.map (fun r => (r.id, r.hasPassed)) ∧
      b.disk.Fileless ∧ b.memory = true := by
  have hvalid : (unused p).bench.evaluator.validate = .ok () := by
    show (p.validate >>= fun _ => (SuspicionPolicy.keepAll : SuspicionPolicy Rat).validate) = _
    rw [hp]
    decide
  obtain ⟨u, hu, houtcomes⟩ := Universe.ofFirstRun_of_nodup hn
  have hrun : ∀ dir disk, (turning first later).run root (.everything true) dir
      (unused p).bench.store (disk, (unused p).bench.memory) = (.ok first, (disk, true)) :=
    fun _ _ => rfl
  obtain ⟨disk, hdisk, htrial⟩ := Bench.trial_of_fileless Disk.fileless_empty hrun 0
  rw [Bench.establish_of_trial hvalid htrial hu hne, Bench.adopt, Bench.localize, hcov]
  exact ⟨⟨root, u, p.maximum u, p.baselineFitness u, none⟩, _, rfl, rfl, ⟨rfl, rfl⟩, houtcomes,
    hdisk, rfl⟩

theorem run_of_establish {ω : Type} {settings : Settings Rat} {c : Collaborators Rat ω}
    {s : Search Rat ω} {a : Assessment Rat} {b : Bench Rat ω} {base : Baseline Rat}
    (hsettings : settings.validate = .ok ())
    (hes : s.bench.establish c.executor root = (.ok a, b))
    (hb : b.evaluator.baseline = some base) :
    ∃ s₁ : Search Rat ω, s₁.bench = b ∧ run settings c root s =
      searchFrom settings c ((Variant.new 0 root).assess a.fitness a.failing) base.maximum s₁ :=
  ⟨_, bench_outset _ b, run_of_ok hsettings hes hb⟩

theorem searchFrom_of_isRepair {ω : Type} (settings : Settings Rat) (c : Collaborators Rat ω)
    {v : Variant Rat} {maximum : Rat} (hr : isRepair maximum v = true) (s : Search Rat ω) :
    ∃ report s', searchFrom settings c v maximum s = (.ok report, s') ∧
      report.outcome = .repaired ∧ report.best = v := by
  rw [searchFrom, bind_apply, bind_apply, if_pos hr]
  exact ⟨_, _, rfl, rfl, rfl⟩

/-- A negative test within the tolerance: the program under repair counts as repaired. -/
theorem exists_light_negative (hp : p.validate = .ok ())
    (hn : p.negativeWeight ≤ Scalar.tolerance) : ¬ RepairsPass p := by
  intro hpass
  have hnodup : (failedRun.results.map (·.id)).Nodup := List.nodup_singleton _
  obtain ⟨base, b, hes, he, hfits, houtcomes, -⟩ :=
    establish_turning blank failedRun hp hnodup (List.cons_ne_nil _ _) rfl
  have hb : b.evaluator.baseline = some base := by rw [he]
  have hmem : broken ∈ base.tests.negative := by
    rw [Universe.mem_negative, houtcomes]
    exact List.mem_singleton_self _
  have hr : isRepair base.maximum ((Variant.new 0 blank).assess
      (p.baselineFitness base.tests) base.tests.negative) = true := by
    have hsize : base.tests.negative.size = 1 := by
      rw [Universe.negative, Universe.withOutcome, houtcomes]
      rfl
    show decide _ = true
    rw [decide_eq_true_eq, hfits.maximum_eq, FitnessPolicy.maximum, FitnessPolicy.weigh_eq, hsize,
      FitnessPolicy.baselineFitness]
    push_cast
    linarith
  obtain ⟨s₁, -, hstart⟩ : ∃ s₁, _ ∧ run oneGeneration (turningWith failedRun failedRun) blank
      (unused p) = _ := run_of_establish blank validate_oneGeneration hes hb
  obtain ⟨report, s', hrun, hout, hbest⟩ := searchFrom_of_isRepair oneGeneration
    (turningWith failedRun failedRun) hr s₁
  have hempty := hpass Bool .keepAll oneGeneration _ blank _ s' report rfl
    validate_oneGeneration (hstart.trans hrun) hout
  rw [hbest] at hempty
  exact SortedSet.not_mem_empty broken (hempty ▸ hmem)

theorem evolve_of_fix {ω : Type} {settings : Settings Rat} {c : Collaborators Rat ω}
    {original fix : Variant Rat} {maximum : Rat} {generation remaining : Nat}
    {population vs : List (Variant Rat)} {s s' : Search Rat ω}
    (hc : (isCancelled c s).1 = false)
    (hfix : (do
      let next ← nextGeneration settings c original population
      evaluateGeneration settings c maximum generation next : StateM (Search Rat ω) _)
        (enter generation (isCancelled c s).2).2 = (.ok (vs, some fix), s')) :
    ∃ report s'', evolve settings c original maximum generation population (remaining + 1) s =
      (.ok report, s'') ∧ report.outcome = .repaired ∧ report.best = fix := by
  rw [bind_apply] at hfix
  rw [evolve, bind_apply, hc]
  simp only [Bool.false_eq_true, if_false, bind_apply, hfix]
  exact ⟨_, _, rfl, rfl, rfl⟩

/-- A run that gets to its only generation and finds the fix in its first variant. -/
theorem searchFrom_turningWith {original : Variant Rat} {maximum : Rat} (s : Search Rat Bool)
    (hr : isRepair maximum original ≠ true)
    (hev : ∀ v : Variant Rat, v.root = original.root → v.stale = true →
      ∃ a v' b, (s.bench.offer original).evaluate (turning first later) v = (.ok (a, v'), b) ∧
        isRepair maximum v' = true ∧ v'.failing ≠ ∅) :
    ∃ report s', searchFrom oneGeneration (turningWith first later) original maximum s =
        (.ok report, s') ∧ report.outcome = .repaired ∧ report.best.failing ≠ ∅ := by
  let c := turningWith first later
  let s₁ := (record (fun t => { t with history := t.history ++ [fitnessOrZero original] })
    (onBench (fun b => ((), b.offer original)) s).2).2
  obtain ⟨v, rest, s₂, hnext, hroot, hfitness, hstale, hbench⟩ :=
    nextGeneration_turningWith first later original (enter 1 (isCancelled c s₁).2).2
  obtain ⟨a, v', b, hv, hrep, hfailing⟩ := hev v hroot hstale
  have hv' : s₂.bench.evaluate c.executor v = (.ok (a, v'), b) := by
    rw [hbench]
    exact hv
  have hfound : ∃ s₃, evaluateGeneration oneGeneration c maximum 1 (v :: rest) s₂ =
      (.ok (v' :: rest, some v'), s₃) := by
    show ∃ s₃, evaluateInTurn c maximum (v :: rest) s₂ = _
    rw [evaluateInTurn_of_isNone (by rw [hfitness]; decide), bind_apply, evaluateNext_of_ok hv']
    simp only []
    rw [if_pos hrep]
    exact ⟨_, rfl⟩
  obtain ⟨s₃, hfound⟩ := hfound
  have hgeneration : (do
      let next ← nextGeneration oneGeneration c original []
      evaluateGeneration oneGeneration c maximum 1 next : StateM (Search Rat Bool) _)
        (enter 1 (isCancelled c s₁).2).2 = (.ok (v' :: rest, some v'), s₃) := by
    rw [bind_apply, hnext]
    exact hfound
  obtain ⟨report, s', hevolve, hout, hbest⟩ :
      ∃ report s', evolve oneGeneration c original maximum 1 [] (0 + 1) s₁ = (.ok report, s') ∧
        report.outcome = .repaired ∧ report.best = v' := evolve_of_fix rfl hgeneration
  refine ⟨report, s', ?_, hout, hbest ▸ hfailing⟩
  rw [searchFrom, bind_apply, bind_apply, if_neg hr]
  exact hevolve

/-- A stale variant is run in full, and its results are scored. -/
theorem evaluate_turning (hp : p.validate = .ok ()) {b : Bench Rat Bool} {base : Baseline Rat}
    (hb : b.evaluator.baseline = some base) (hpolicy : b.evaluator.policy = p)
    (hdisk : b.disk.Fileless) (hmemory : b.memory = true) (hcov : later.coverage = none)
    (hv : base.tests.validate later.results (.everything true) = .ok ()) {v : Variant Rat}
    (hstale : v.stale = true) :
    let failing := Universe.failures (base.tests.mergedOutcomes later.results)
    ∃ a b', b.evaluate (turning first later) v =
      (.ok (a, v.assess (p.worth base.tests failing) failing), b') := by
  intro failing
  have hrun : ∀ dir disk, (turning first later).run v.root (.everything true) dir b.count.store
      (disk, b.count.memory) = (.ok later, (disk, true)) := by
    intro dir disk
    show (Except.ok (if b.memory then later else first), (disk, true)) = _
    rw [hmemory, if_pos rfl]
  have hdisk' : b.count.disk.Fileless := hdisk
  obtain ⟨disk, -, htrial⟩ := Bench.trial_of_fileless hdisk' hrun v.id
  have hplan : RetestPlan.choose b.count.evaluator.policy b.count.store base.root v =
      .retest (.everything true) true := by
    rw [RetestPlan.choose, if_pos hstale]
  have hjudge : base.judge b.count.evaluator.policy (.everything true) (.ok later) =
      .ok (.scored (p.worth base.tests failing) failing later) := by
    show base.rate b.evaluator.policy _ later = _
    rw [hpolicy, Baseline.rate_of_valid hp hv]
  rw [Bench.evaluate, hb]
  simp only [hplan, htrial, hjudge, Bench.relocalize, hcov]
  exact ⟨_, _, rfl⟩

/-- A positive test within the tolerance: a variant that trades it for the negative one counts as
repaired. -/
theorem exists_light_positive (hp : p.validate = .ok ())
    (hn : Scalar.tolerance < p.negativeWeight) (hpos : p.positiveWeight ≤ Scalar.tolerance) :
    ¬ RepairsPass p := by
  intro hpass
  obtain ⟨base, b, hes, he, hfits, houtcomes, hdisk, hmemory⟩ :=
    establish_turning blank swappedRun hp nodup_mixedRun (List.cons_ne_nil _ _) rfl
  have hb : b.evaluator.baseline = some base := by rw [he]
  have hmaximum : base.maximum = p.negativeWeight + p.positiveWeight :=
    hfits.maximum_eq.trans (maximum_of_mixed houtcomes p)
  let original := (Variant.new 0 blank).assess (p.baselineFitness base.tests) base.tests.negative
  have hr : isRepair base.maximum original ≠ true := by
    show decide (base.maximum - Scalar.tolerance ≤ p.baselineFitness base.tests) ≠ true
    rw [Ne, decide_eq_true_eq, hmaximum, baselineFitness_of_mixed houtcomes p]
    linarith
  have hev : ∀ v : Variant Rat, v.root = original.root → v.stale = true →
      ∃ a v' b', (b.offer original).evaluate (turning mixedRun swappedRun) v = (.ok (a, v'), b') ∧
        isRepair base.maximum v' = true ∧ v'.failing ≠ ∅ := by
    intro v _ hstale
    obtain ⟨hpolicy', hbaseline', -⟩ := offer_frame b.evaluator original
    have hpolicy : (b.offer original).evaluator.policy = p := hpolicy'.trans (by rw [he]; rfl)
    have hbase : (b.offer original).evaluator.baseline = some base := hbaseline'.trans hb
    obtain ⟨a, b', hev⟩ := evaluate_turning hp hbase hpolicy hdisk hmemory rfl
      (validate_swappedRun houtcomes) hstale
    refine ⟨a, _, b', hev, ?_, fun hempty => ?_⟩
    · have hworth := negativeWeight_le_worth houtcomes hp
      show decide (base.maximum - Scalar.tolerance ≤ _) = true
      rw [decide_eq_true_eq, hmaximum]
      linarith
    · have hworking := working_mem_failures houtcomes
      exact SortedSet.not_mem_empty working (hempty ▸ hworking)
  obtain ⟨s₁, rfl, hstart⟩ : ∃ s₁, _ ∧ run oneGeneration (turningWith mixedRun swappedRun) blank
      (unused p) = _ := run_of_establish blank validate_oneGeneration hes hb
  obtain ⟨report, s', hrun, hout, hfailing⟩ := searchFrom_turningWith s₁ hr hev
  exact hfailing (hpass Bool .keepAll oneGeneration _ blank _ s' report rfl
    validate_oneGeneration (hstart.trans hrun) hout)

end Runs

/-- Admissible weights make a reported repair mean what it says just if each of them is above the
tolerance. -/
theorem repairsPass_iff {p : FitnessPolicy Rat} (hp : p.validate = .ok ()) :
    RepairsPass p ↔
      Scalar.tolerance < p.negativeWeight ∧ Scalar.tolerance < p.positiveWeight := by
  let _ : Root Rat := ⟨id⟩
  constructor
  · intro h
    have hn : Scalar.tolerance < p.negativeWeight :=
      not_le.mp fun hle => exists_light_negative hp hle h
    exact ⟨hn, not_le.mp fun hle => exists_light_positive hp hn hle h⟩
  · exact fun ⟨hn, hpos⟩ => repairsPass_of_lt hp hn hpos

/-- Ten and one are far enough above it. -/
theorem repairsPass_standard :
    (FitnessPolicy.standard : FitnessPolicy Rat).validate = .ok () ∧
      RepairsPass (FitnessPolicy.standard : FitnessPolicy Rat) := by
  have hvalid : (FitnessPolicy.standard : FitnessPolicy Rat).validate = .ok () := by decide
  refine ⟨hvalid, (repairsPass_iff hvalid).mpr ?_⟩
  rw [FitnessPolicy.tolerance_eq]
  exact ⟨by norm_num [FitnessPolicy.standard], by norm_num [FitnessPolicy.standard]⟩

/-- Positive tests may weigh nothing, and then a repair may fail them. -/
theorem not_repairsPass_weightless :
    ¬ ∀ p : FitnessPolicy Rat, p.validate = .ok () → RepairsPass p := by
  let _ : Root Rat := ⟨id⟩
  intro h
  have hvalid : (⟨10, 0, true, none⟩ : FitnessPolicy Rat).validate = .ok () := by decide
  refine exists_light_positive hvalid ?_ ?_ (h _ hvalid)
  · norm_num [FitnessPolicy.tolerance_eq]
  · norm_num [FitnessPolicy.tolerance_eq]

end Search

end GeneticRepair
