import GeneticRepair.Proofs.Assessment.Evaluation
import GeneticRepair.Proofs.Assessment.Retesting

/-!
# `Proofs/Assessment/Incremental.lean` — retesting in part and in full

An evaluation that takes part of its outcomes over from the first run agrees with one that runs all
tests. The executor is any that answers each selection with the verdicts on the selected tests, and
a verdict has to be that of the first run where nothing that the class touches has changed.

* `evaluate_of_answers`: what an evaluation reports, whatever plan it follows, is the verdict on
  every test, as long as the plan leaves out only tests that keep their first verdict.
* `evaluate_incremental`: the plan with incremental retests is like that.
-/

set_option autoImplicit false

namespace GeneticRepair

/-- A test class touches a compilation unit: one of its tests executes a line of a class that
resolves to the unit. -/
def Touches {α : Type} [Scalar α] (u : Universe) (coverage : Coverage) (s : Store α) (root : Node)
    (testClass : String) (unit : Node) : Prop :=
  ∃ id ∈ u.all, id.className = testClass ∧ ∃ lines, coverage.linesOf id = some lines ∧
    ∃ l ∈ lines, ∃ found, s.resolveClass root l.className = some found ∧ found.unit = unit

/-- The executor answers every selection for a program with one result for each of its tests, and
the results are the verdicts. -/
def Executor.Answers {α ω : Type} (executor : Executor α ω) (u : Universe) (root : Node)
    (s : Store α) (verdict : TestId → Bool) : Prop :=
  ∀ selection dir before, ∃ run, (executor.run root selection dir s before).1 = .ok run ∧
    (run.results.map (·.id)).Perm (u.all.toList.filter (selection.selects ·.className)) ∧
    ∀ r ∈ run.results, r.hasPassed = verdict r.id

namespace Universe

variable {u : Universe} {results : List TestResult} {selection : Selection}
  {verdict : TestId → Bool}

/-- The tests that fail by their verdicts. -/
def condemned (u : Universe) (verdict : TestId → Bool) : SortedSet TestId :=
  u.all.filter fun id => !verdict id

theorem mem_condemned {id : TestId} :
    id ∈ u.condemned verdict ↔ id ∈ u.all ∧ verdict id = false := by
  rw [condemned, SortedSet.mem_filter, Bool.not_eq_true']

theorem mem_all_of_ofFirstRun {id : TestId} (h : ofFirstRun results = .ok u) (hid : id ∈ u.all) :
    id ∈ results.map (·.id) := by
  unfold ofFirstRun at h
  split at h
  · cases h
  · obtain rfl := Except.ok.inj h
    obtain ⟨passed, hmem⟩ := mem_all.mp hid
    obtain ⟨r, hr, heq⟩ := List.mem_map.mp hmem
    obtain ⟨rfl, -⟩ := Prod.mk.inj heq
    exact List.mem_map_of_mem hr

/-! ## Results that answer a selection -/

theorem validate_of_perm
    (hp : (results.map (·.id)).Perm (u.all.toList.filter (selection.selects ·.className))) :
    u.validate results selection = .ok () := by
  refine validate_eq_ok_iff.mpr ⟨?_, fun r hr => ?_, fun id hid hselected => ?_⟩
  · exact hp.nodup_iff.mpr (u.all.nodup_toList.filter _)
  · exact (List.mem_filter.mp (hp.mem_iff.mp (List.mem_map_of_mem hr))).1
  · exact hp.mem_iff.mpr (List.mem_filter.mpr ⟨hid, hselected⟩)

/-- What is pieced together is the verdict on every test, if the tests that were left out keep the
verdict of the first run. -/
theorem failures_of_perm
    (hp : (results.map (·.id)).Perm (u.all.toList.filter (selection.selects ·.className)))
    (hv : ∀ r ∈ results, r.hasPassed = verdict r.id)
    (hleft : ∀ id ∈ u.all, selection.selects id.className = false →
      verdict id = u.passedAtFirst id) :
    failures (u.mergedOutcomes results) = u.condemned verdict := by
  obtain ⟨hn, hk, -⟩ := validate_eq_ok_iff.mp (validate_of_perm hp)
  refine SortedSet.ext fun id => ?_
  rw [(complete_mergedOutcomes hn hk).mem_failures, mem_condemned, mergedOutcomes, List.mem_append]
  constructor
  · rintro (hran | hkept)
    · obtain ⟨r, hr, heq⟩ := List.mem_map.mp hran
      obtain ⟨rfl, hfailed⟩ := Prod.mk.inj heq
      exact ⟨hk r hr, by rw [← hv r hr, hfailed]⟩
    · obtain ⟨id', hid, heq⟩ := List.mem_map.mp hkept
      obtain ⟨rfl, hfirst⟩ := Prod.mk.inj heq
      obtain ⟨hall, hran⟩ := List.mem_filter.mp hid
      refine ⟨hall, ?_⟩
      rw [hleft id' hall, hfirst]
      by_contra hselected
      rw [Bool.not_eq_false] at hselected
      exact of_decide_eq_true hran (hp.mem_iff.mpr (List.mem_filter.mpr ⟨hall, hselected⟩))
  · rintro ⟨hall, hfails⟩
    by_cases hran : id ∈ results.map (·.id)
    · obtain ⟨r, hr, rfl⟩ := List.mem_map.mp hran
      refine Or.inl (List.mem_map.mpr ⟨r, hr, ?_⟩)
      rw [hv r hr, hfails]
    · have hselected : selection.selects id.className = false := by
        by_contra hselected
        rw [Bool.not_eq_false] at hselected
        exact hran (hp.mem_iff.mpr (List.mem_filter.mpr ⟨hall, hselected⟩))
      refine Or.inr (List.mem_map.mpr ⟨id, ?_, ?_⟩)
      · exact List.mem_filter.mpr ⟨hall, decide_eq_true hran⟩
      · rw [← hleft id hall hselected, hfails]

theorem negative_eq_condemned (h : ∀ id ∈ u.all, verdict id = u.passedAtFirst id) :
    u.negative = u.condemned verdict := by
  refine SortedSet.ext fun id => ?_
  rw [mem_condemned]
  constructor
  · intro hid
    have hall : id ∈ u.all := mem_all_iff.mpr (Or.inl hid)
    exact ⟨hall, by rw [h id hall, (mem_negative_iff hall).mp hid]⟩
  · rintro ⟨hall, hfails⟩
    exact (mem_negative_iff hall).mpr (by rw [← h id hall, hfails])

end Universe

namespace Bench

variable {ω : Type}

/-- A trial that yields results of such an executor is judged by the verdicts. -/
theorem judge_of_answers {executor : Executor Rat ω} {v : Variant Rat} {b b' : Bench Rat ω}
    {base : Baseline Rat} {verdict : TestId → Bool} {selection : Selection}
    {outcome : Except TestRunError TestRun} (hp : b.evaluator.policy.validate = .ok ())
    (hanswers : executor.Answers base.tests v.root b.store verdict)
    (hleft : ∀ id ∈ base.tests.all, selection.selects id.className = false →
      verdict id = base.tests.passedAtFirst id)
    (htrial : b.count.trial executor v.id v.root selection = (.ok outcome, b')) :
    ∃ run, base.judge b.evaluator.policy selection outcome =
      .ok (.scored (b.evaluator.policy.worth base.tests (base.tests.condemned verdict))
        (base.tests.condemned verdict) run) := by
  obtain ⟨outcome', disk, memory, heq, ⟨fault, hfault⟩ | ⟨dir, before, hrun⟩⟩ :=
    trial_outcome executor v.id v.root selection b.count
  · rw [htrial, hfault] at heq
    cases heq
  · rw [htrial, hrun] at heq
    obtain ⟨houtcome, -⟩ := Prod.mk.inj heq
    obtain ⟨run, hok, hperm, hverdicts⟩ := hanswers selection dir before
    obtain rfl : outcome = .ok run := (Except.ok.inj houtcome).trans hok
    have hfailures : Universe.failures (base.tests.mergedOutcomes run.results) =
        base.tests.condemned verdict := Universe.failures_of_perm hperm hverdicts hleft
    refine ⟨run, ?_⟩
    rw [Baseline.judge, Baseline.rate_of_valid hp (Universe.validate_of_perm hperm), hfailures]

variable [Root Rat]

/-- An evaluation that comes to a fitness and a failing set, in its report and in the variant. It
may only get stuck at the scratch folder of its test run. -/
def Assesses (executor : Executor Rat ω) (v : Variant Rat) (b : Bench Rat ω) (fitness : Rat)
    (failing : SortedSet TestId) : Prop :=
  (∃ selection fault, (b.count.trial executor v.id v.root selection).1 = .error fault ∧
      (b.evaluate executor v).1 = .error (.storage fault)) ∨
    ∃ a v', (b.evaluate executor v).1 = .ok (a, v') ∧ a.fitness = fitness ∧ a.failing = failing ∧
      v'.fitness = some fitness ∧ v'.failing = failing

theorem evaluate_of_answers {executor : Executor Rat ω} {v : Variant Rat} {b : Bench Rat ω}
    {base : Baseline Rat} {verdict : TestId → Bool} (hb : b.evaluator.baseline = some base)
    (hf : base.Fits b.evaluator.policy) (hp : b.evaluator.policy.validate = .ok ())
    (hanswers : executor.Answers base.tests v.root b.store verdict)
    (hleft : ∀ id ∈ base.tests.all,
      (RetestPlan.choose b.evaluator.policy b.store base.root v).reruns id.className = false →
        verdict id = base.tests.passedAtFirst id) :
    b.Assesses executor v
      (b.evaluator.policy.worth base.tests (base.tests.condemned verdict))
      (base.tests.condemned verdict) := by
  -- the tests that the plan in hand leaves out
  have hskipped {plan : RetestPlan}
      (hplan : RetestPlan.choose b.evaluator.policy b.store base.root v = plan) :
      ∀ id ∈ base.tests.all, plan.reruns id.className = false →
        verdict id = base.tests.passedAtFirst id := by
    rw [← hplan]
    exact hleft
  have hev := evaluation executor v hb
  unfold Assesses
  generalize b.evaluate executor v = answer at hev ⊢
  cases hev with
  | inherited plan =>
    have hsame : base.tests.negative = base.tests.condemned verdict :=
      Universe.negative_eq_condemned fun id hid => hskipped plan id hid rfl
    have hworth := (FitnessPolicy.exact_baseline b.evaluator.policy base.tests).fitness_eq
    rw [← hf.fitness_eq] at hworth
    rw [← hsame, ← hworth]
    exact Or.inr ⟨_, _, rfl, rfl, rfl, rfl, rfl⟩
  | unstored plan trial => exact Or.inl ⟨_, _, by rw [trial], rfl⟩
  | refused plan trial judged =>
    obtain ⟨run, hok⟩ := judge_of_answers hp hanswers (hskipped plan) trial
    rw [hok] at judged
    cases judged
  | collapsed plan trial judged =>
    obtain ⟨run, hok⟩ := judge_of_answers hp hanswers (hskipped plan) trial
    rw [hok] at judged
    cases judged
  | @scored selection wanted outcome fitness failing run b' plan trial judged =>
    obtain ⟨run', hok⟩ := judge_of_answers hp hanswers (hskipped plan) trial
    rw [hok] at judged
    obtain ⟨rfl, rfl, rfl⟩ := Judgement.scored.inj (Except.ok.inj judged)
    obtain ⟨stale, hv⟩ := (relocalize_frame wanted run' v b').2
    rw [hv]
    exact Or.inr ⟨_, _, rfl, rfl, rfl, rfl, rfl⟩

/-! ## After the first run -/

/-- What a first run with coverage leaves: a baseline that fits, names as they were, and on each
unit the test classes that touch it. -/
structure Localized (b₀ b₁ : Bench Rat ω) (root : Node) (coverage : Coverage)
    (base : Baseline Rat) : Prop where
  root_eq : base.root = root
  valid : b₁.evaluator.policy.validate = .ok ()
  fits : base.Fits b₁.evaluator.policy
  annotates : b₀.store.Annotates b₁.store
  covered : ∀ testClass unit, Touches base.tests coverage b₁.store root testClass unit →
    unit ∈ root.units ∧ b₁.store.CoveredBy unit.id testClass

theorem localized_of_establish {executor : Executor Rat ω} {root : Node} {b₀ b b₁ : Bench Rat ω}
    {run : TestRun} {coverage : Coverage} {a : Assessment Rat} {base : Baseline Rat}
    (hroot : b₀.store.Holds root)
    (hfirst : b₀.trial executor 0 root (.everything true) = (.ok (.ok run), b))
    (hcoverage : run.coverage = some coverage)
    (hestablish : b₀.establish executor root = (.ok a, b₁))
    (hbase : b₁.evaluator.baseline = some base) : b₀.Localized b₁ root coverage base := by
  have hes := establishment executor root b₀
  rw [hestablish] at hes
  cases hes with
  | @adopted run' u b' valid trial recorded =>
    rw [hfirst] at trial
    obtain ⟨hrun, rfl⟩ := Prod.mk.inj trial
    obtain rfl : run = run' := Except.ok.inj (Except.ok.inj hrun)
    obtain ⟨-, hevaluator, hstore⟩ := adopt_eq root run u b
    have hsame := evaluator_of_trial hfirst
    have hkept : b.store = b₀.store := by
      have := (trial_frame executor 0 root (.everything true) b₀).2
      rwa [hfirst] at this
    rw [localize, hcoverage, hkept] at hstore
    rw [hevaluator] at hbase
    obtain rfl := Option.some.inj hbase
    have hannotates := (Localization.writes_annotates root).localize b.evaluator.suspicion
      run.results coverage b₀.store
    refine ⟨rfl, ?_, ?_, ?_, fun testClass unit ht => ?_⟩
    · rw [hevaluator, hsame]
      exact Evaluator.policy_of_validate valid
    · rw [hevaluator]
      exact ⟨rfl, rfl⟩
    · rw [hstore]
      exact hannotates
    · rw [hstore] at ht ⊢
      obtain ⟨id, hid, rfl, lines, hlines, l, hl, found, hfound, rfl⟩ := ht
      have hunit := Store.unit_mem_of_resolveClass hfound
      rw [hannotates.resolveClass_eq] at hfound
      exact ⟨hunit, Localization.coveredBy_localize
        (Universe.mem_all_of_ofFirstRun recorded hid) hlines hl hfound
        (hroot _ (List.mem_filter.mp hunit).1)⟩

/-- A bench that goes on with the baseline and the policy of another one, except that it decides for
itself about incremental retests; the marks are those of `s`. -/
structure Resumes (b₁ : Bench Rat ω) (incremental : Bool) (s : Store Rat) (b : Bench Rat ω) :
    Prop where
  baseline_eq : b.evaluator.baseline = b₁.evaluator.baseline
  policy_eq : b.evaluator.policy = { b₁.evaluator.policy with incremental := incremental }
  store_eq : b.store = s

/-- Whether retests are incremental makes no difference to the fitness and the failing tests of any
version that mutation and crossover lead to, as long as it has the units of the program. -/
theorem evaluate_incremental {executor : Executor Rat ω} {root : Node} {b₀ b b₁ : Bench Rat ω}
    {run : TestRun} {coverage : Coverage} {a : Assessment Rat} {base : Baseline Rat}
    {s : Store Rat} {versions : List Node} {v : Variant Rat} {verdict : TestId → Bool}
    (hroot : b₀.store.Holds root)
    (hfirst : b₀.trial executor 0 root (.everything true) = (.ok (.ok run), b))
    (hcoverage : run.coverage = some coverage)
    (hestablish : b₀.establish executor root = (.ok a, b₁))
    (hbase : b₁.evaluator.baseline = some base)
    (hnames : (b₁.store.unitNames root).Nodup)
    (hlineage : Lineage b₁.store root s versions) (hv : v.root ∈ versions)
    (hunits : (s.unitNames v.root).Perm (b₁.store.unitNames root))
    (hanswers : executor.Answers base.tests v.root s verdict)
    (hverdict : ∀ id ∈ base.tests.all,
      (∀ unit, Touches base.tests coverage b₁.store root id.className unit →
        Unchanged s v.root unit) → verdict id = base.tests.passedAtFirst id) :
    ∀ incremental b₂, b₁.Resumes incremental s b₂ →
      b₂.Assesses executor v
        (b₁.evaluator.policy.worth base.tests (base.tests.condemned verdict))
        (base.tests.condemned verdict) := by
  intro incremental b₂ hresumes
  have hlocalized := localized_of_establish hroot hfirst hcoverage hestablish hbase
  have hholds : b₁.store.Holds root := hroot.mono (Nat.le_of_eq hlocalized.annotates.next_eq.symm)
  have hgrown := (hlineage.bears hholds).grown
  have hdescends := hlineage.descends hholds hv
  have hassesses := evaluate_of_answers (b := b₂) (hresumes.baseline_eq.trans hbase)
    (by rw [hresumes.policy_eq]; exact ⟨hlocalized.fits.fitness_eq, hlocalized.fits.maximum_eq⟩)
    (by rw [hresumes.policy_eq]; exact hlocalized.valid) (by rw [hresumes.store_eq]; exact hanswers)
    fun id hid hskipped => hverdict id hid fun unit ht => by
      obtain ⟨hunit, hcovered⟩ := hlocalized.covered _ unit ht
      rw [hresumes.store_eq, hlocalized.root_eq] at hskipped
      exact RetestPlan.unchanged_of_skipped hgrown hholds hdescends hnames hunits hskipped hunit
        hcovered
  rw [hresumes.policy_eq] at hassesses
  exact hassesses

end Bench

/-! ## Two units, one of them changed -/

namespace TwoUnits

/-- The unit with the fault. -/
def unitA : Node :=
  .make 3 .file [.make 2 .typeDeclaration [.make 1 .atomicStatement [.leaf 0 "x" ⟨1, 1⟩]]]

def unitB : Node := .make 6 .file [.make 5 .typeDeclaration [.leaf 4 "y" ⟨1, 1⟩]]

def program : Node := .make 7 .other [unitA, unitB]

/-- The faulty statement. -/
def statement : Node := .make 1 .atomicStatement [.leaf 0 "x" ⟨1, 1⟩]

/-- The program without the faulty statement. -/
def shortened : Node :=
  .make 8 .other [.make 9 .file [.make 10 .typeDeclaration []], unitB]

def marks : Store Rat :=
  ⟨#[.fresh [], .fresh [], .fresh [(Attributes.className, "A")],
    .fresh [(Attributes.fileName, "a")], .fresh [], .fresh [(Attributes.className, "B")],
    .fresh [(Attributes.fileName, "b")], .fresh []]⟩

def testA : TestId := ⟨"TestA", "breaks"⟩

def testB : TestId := ⟨"TestB", "works"⟩

def coverage : Coverage := [(testA, .ofList [⟨"A", 1⟩]), (testB, .ofList [⟨"B", 1⟩])]

/-- One test passes always, the other one on every program but the faulty one. -/
def passes (root : Node) (id : TestId) : Bool := id = testB || root.id ≠ 7

def results (root : Node) (selection : Selection) : List TestResult :=
  ([testA, testB].filter (selection.selects ·.className)).map fun id =>
    ⟨id, if passes root id then none else some ⟨"broken", none⟩⟩

def executor : Executor Rat Unit where
  run root selection _ _ before :=
    (.ok ⟨results root selection, if selection.wantsCoverage then some coverage else none⟩, before)

def firstRun : TestRun := ⟨results program (.everything true), some coverage⟩

def bench : Bench Rat Unit := ⟨.new .standard .keepAll, marks, ⟨[]⟩, ()⟩

theorem holds_program : bench.store.Holds program := by
  unfold Store.Holds
  decide

theorem unitNames_program : bench.store.unitNames program = [some "a", some "b"] := by
  decide

theorem results_first : results program (.everything true) =
    [⟨testA, some ⟨"broken", none⟩⟩, ⟨testB, none⟩] := by
  decide

theorem hasPassed_of_mem {root : Node} {selection : Selection} {r : TestResult}
    (h : r ∈ results root selection) : r.hasPassed = passes root r.id := by
  obtain ⟨id, -, rfl⟩ := List.mem_map.mp h
  cases passes root id <;> rfl

theorem answers {u : Universe} (hu : u.outcomes = [(testA, false), (testB, true)]) (root : Node)
    (s : Store Rat) : executor.Answers u root s (passes root) := by
  intro selection dir before
  refine ⟨_, rfl, ?_, fun r hr => hasPassed_of_mem hr⟩
  have hall : u.all.toList.Perm [testA, testB] := by
    refine (List.perm_ext_iff_of_nodup u.all.nodup_toList (by decide)).mpr fun id => ?_
    rw [← SortedSet.mem_iff, Universe.all, SortedSet.mem_ofList, hu]
    rfl
  have hids : (results root selection).map (·.id) =
      [testA, testB].filter (selection.selects ·.className) := by
    rw [results, List.map_map]
    exact List.map_id _
  rw [hids]
  exact (hall.filter _).symm

theorem copySpine_program {s : Store Rat} (hs : s.next = 8) :
    (program.copySpine [0, 0] s).1 =
      some ⟨[⟨8, .other, [unitA, unitB], 0⟩, ⟨9, .file, unitA.children, 0⟩],
        .make 10 .typeDeclaration [statement]⟩ := by
  rw [Node.copySpine_cons_of_some (c := unitA) rfl,
    Node.copySpine_cons_of_some (c := .make 2 .typeDeclaration [statement]) rfl,
    Node.copySpine_nil]
  simp only [Store.next_allocate, hs]
  rfl

theorem delete_statement {s : Store Rat} (hs : s.next = 8) (rng : WordStream) :
    ∃ description, (Mutation.apply .delete program statement .program rng s).1.1 =
        .ok (shortened, description) ∧
      (Mutation.apply .delete program statement .program rng s).2 =
        (program.copySpine [0, 0] s).2 := by
  have hcopy : program.copySpine [0, 0] s = (_, (program.copySpine [0, 0] s).2) :=
    Prod.ext (copySpine_program hs) rfl
  have hslot : Mutation.slotOf program statement = .ok ([0, 0], 0) := rfl
  rw [Mutation.apply, bind_apply, Mutation.delete, hslot]
  simp only []
  rw [bind_apply, Mutation.editAt, bind_apply, hcopy]
  exact ⟨_, rfl, rfl⟩

theorem unitNames_shortened {s : Store Rat} (hs : s.next = 8) (hholds : s.Holds program)
    (hn : s.unitNames program = [some "a", some "b"]) :
    (program.copySpine [0, 0] s).2.unitNames shortened = [some "a", some "b"] := by
  have hgrown := Node.copySpine_extends program [0, 0] s
  obtain ⟨old, hcopied⟩ := Node.copied_of_copySpine hholds (Prod.ext (copySpine_program hs) rfl)
  have hcopy := hcopied.mark_eq [0] unitA (by decide) rfl
  have hsame := hgrown.mark_eq 6 (by rw [hs]; decide)
  rw [hs] at hcopy
  obtain ⟨ha, hb⟩ := List.cons.inj hn
  obtain ⟨hb, -⟩ := List.cons.inj hb
  refine List.cons_eq_cons.mpr ⟨?_, List.cons_eq_cons.mpr ⟨?_, rfl⟩⟩
  · rw [← ha]
    exact congrArg (fun mark : Mark Rat => mark.attributes.get? Attributes.fileName) hcopy
  · rw [← hb]
    exact congrArg (fun mark : Mark Rat => mark.attributes.get? Attributes.fileName) hsame

theorem touches_unitA {u : Universe} {s : Store Rat} (hannotates : marks.Annotates s)
    (hid : testA ∈ u.all) : Touches u coverage s program testA.className unitA := by
  refine ⟨testA, hid, rfl, .ofList [⟨"A", 1⟩], rfl, ⟨"A", 1⟩, List.mem_cons_self,
    ⟨unitA, .make 2 .typeDeclaration [statement]⟩, ?_, rfl⟩
  rw [hannotates.resolveClass_eq]
  rfl

theorem not_unchanged_unitA (s : Store Rat) : ¬ Unchanged s shortened unitA := by
  rintro ⟨u, hu, -, hsame⟩
  have hunits : shortened.units = [.make 9 .file [.make 10 .typeDeclaration []], unitB] := rfl
  rw [hunits] at hu
  obtain rfl | hu := List.mem_cons.mp hu
  · exact absurd hsame (by decide)
  · obtain rfl := List.mem_singleton.mp hu
    exact absurd hsame (by decide)

/-- The test of the changed unit is free to have another verdict, and the other one has its
first. -/
theorem passes_shortened {u : Universe} (hu : u.outcomes = [(testA, false), (testB, true)])
    {s : Store Rat} (s' : Store Rat) (hannotates : marks.Annotates s) (id : TestId)
    (hid : id ∈ u.all)
    (hall : ∀ unit, Touches u coverage s program id.className unit →
      Unchanged s' shortened unit) : passes shortened id = u.passedAtFirst id := by
  obtain ⟨passed, hmem⟩ := Universe.mem_all.mp hid
  rw [hu] at hmem
  obtain h | hmem := List.mem_cons.mp hmem
  · obtain ⟨rfl, -⟩ := Prod.mk.inj h
    exact absurd (hall unitA (touches_unitA hannotates hid)) (not_unchanged_unitA s')
  · obtain ⟨rfl, -⟩ := Prod.mk.inj (List.mem_singleton.mp hmem)
    have hfirst : u.passedAtFirst testB = true := by
      rw [Universe.passedAtFirst_eq_true_iff, Universe.mem_positive, hu]
      exact List.mem_cons_of_mem _ List.mem_cons_self
    rw [hfirst]
    rfl

open Bench in
/-- The fault is deleted: one test gets another verdict, and only its class has to be run. -/
theorem evaluate_incremental_shortened :
    ∃ (_ : Root Rat) (b b₁ : Bench Rat Unit) (run : TestRun) (a : Assessment Rat)
      (base : Baseline Rat) (s : Store Rat) (versions : List Node),
      bench.store.Holds program ∧
        bench.trial executor 0 program (.everything true) = (.ok (.ok run), b) ∧
        run.coverage = some coverage ∧
        bench.establish executor program = (.ok a, b₁) ∧
        b₁.evaluator.baseline = some base ∧
        (b₁.store.unitNames program).Nodup ∧
        Lineage b₁.store program s versions ∧
        shortened ∈ versions ∧
        (s.unitNames shortened).Perm (b₁.store.unitNames program) ∧
        executor.Answers base.tests shortened s (passes shortened) ∧
        (∀ id ∈ base.tests.all,
          (∀ unit, Touches base.tests coverage b₁.store program id.className unit →
            Unchanged s shortened unit) → passes shortened id = base.tests.passedAtFirst id) ∧
        ∀ incremental b₂, b₁.Resumes incremental s b₂ →
          b₂.Assesses executor (.new 1 shortened)
            (b₁.evaluator.policy.worth base.tests (base.tests.condemned (passes shortened)))
            (base.tests.condemned (passes shortened)) := by
  let _ : Root Rat := ⟨fun q => (q.num.toNat.sqrt : Rat) / (q.den.sqrt : Rat)⟩
  obtain ⟨disk, -, hfirst⟩ : ∃ disk : Disk, disk.Fileless ∧
      bench.trial executor 0 program (.everything true) =
        (.ok (.ok firstRun), { bench with disk := disk }) :=
    trial_of_fileless Disk.fileless_empty (fun _ _ => rfl) 0
  generalize ({ bench with disk := disk } : Bench Rat Unit) = b at hfirst
  have hnodup : (firstRun.results.map (·.id)).Nodup := by decide
  obtain ⟨u, hrecorded, hu⟩ := Universe.ofFirstRun_of_nodup hnodup
  rw [firstRun, results_first] at hu
  have hvalid : bench.evaluator.validate = .ok () := by decide
  have hestablish := establish_of_trial hvalid hfirst hrecorded (by decide)
  obtain ⟨-, hevaluator, -⟩ := adopt_eq program firstRun u b
  generalize b.adopt program firstRun u = adopted at hestablish hevaluator
  obtain ⟨a, b₁⟩ := adopted
  have hbase : b₁.evaluator.baseline = some ⟨program, u, _, _, _⟩ :=
    congrArg Evaluator.baseline hevaluator
  have hannotates := (localized_of_establish holds_program hfirst rfl hestablish hbase).annotates
  have hnext : b₁.store.next = 8 := hannotates.next_eq
  have hholds : b₁.store.Holds program := holds_program.mono (Nat.le_of_eq hnext.symm)
  have hnames := (hannotates.unitNames_eq program).trans unitNames_program
  obtain ⟨description, hmade, hstore⟩ := delete_statement hnext (.ofSeed 0)
  have hstart : Lineage b₁.store program b₁.store [program] := .start
  have hlineage := hstart.mutate List.mem_cons_self .delete statement .program (.ofSeed 0)
  rw [hmade, hstore] at hlineage
  have hdistinct : (b₁.store.unitNames program).Nodup := by
    rw [hnames]
    decide
  have hunits : ((program.copySpine [0, 0] b₁.store).2.unitNames shortened).Perm
      (b₁.store.unitNames program) := by
    rw [unitNames_shortened hnext hholds hnames, hnames]
  have hmember : shortened ∈ Mutation.offspring (.ok (shortened, description)) ++ [program] :=
    List.mem_cons_self
  have hanswers := answers hu shortened (program.copySpine [0, 0] b₁.store).2
  have hverdict := passes_shortened hu (program.copySpine [0, 0] b₁.store).2 hannotates
  exact ⟨inferInstance, _, b₁, _, a, _, _, _, holds_program, hfirst, rfl, hestablish, hbase,
    hdistinct, hlineage, hmember, hunits, hanswers, hverdict,
    evaluate_incremental holds_program hfirst rfl hestablish hbase hdistinct hlineage hmember hunits
      hanswers hverdict⟩

end TwoUnits

end GeneticRepair
