import GeneticRepair.Assessment.Evaluator
import GeneticRepair.Proofs.Suspicion.Aligned

/-!
# `Proofs/Assessment/Mirrored.lean` — evaluations side by side

An evaluator compares a variant with the program under repair, asks the executor and writes marks.
On two benches that are alike, with variants that are alike, it makes the same plans. If the
executor answers by the program and its marks, and the disks do not get in the way of one side only,
it comes to the same assessments and leaves benches that are alike.

* `Bench.evaluate_alike`, `Bench.establish_alike`: this for variants and for the first run.
-/

set_option autoImplicit false

namespace GeneticRepair

open List (Forall₂)

variable {α ω : Type} {p q : Pairing}

/-! ## What corresponds -/

/-- Variants of two runs that are the same up to the identities of their nodes. -/
structure Variant.Alike (p : Pairing) (v v' : Variant α) : Prop where
  id_eq : v'.id = v.id
  root : Node.Alike p v.root v'.root
  fitness_eq : v'.fitness = v.fitness
  failing_eq : v'.failing = v.failing
  lineage_eq : v'.lineage = v.lineage
  stale_eq : v'.stale = v.stale

namespace Variant.Alike

variable {v v' : Variant α}

theorem mono (hpq : p ≤ q) (h : Variant.Alike p v v') : Variant.Alike q v v' :=
  { h with root := h.root.mono hpq }

theorem new (id : Nat) {root root' : Node} (h : Node.Alike p root root') :
    Variant.Alike p (.new id root : Variant α) (.new id root') :=
  ⟨rfl, h, rfl, rfl, rfl, rfl⟩

theorem assess (h : Variant.Alike p v v') (fitness : α) (failing : SortedSet TestId) :
    Variant.Alike p (v.assess fitness failing) (v'.assess fitness failing) :=
  ⟨h.id_eq, h.root, rfl, rfl, h.lineage_eq, h.stale_eq⟩

theorem markLocalized (h : Variant.Alike p v v') :
    Variant.Alike p v.markLocalized v'.markLocalized := { h with stale_eq := rfl }

theorem copyAs (h : Variant.Alike p v v') (id : Nat) :
    Variant.Alike p (v.copyAs id) (v'.copyAs id) := { h with id_eq := rfl }

theorem become (h : Variant.Alike p v v') {root root' : Node} (hr : Node.Alike p root root')
    (description : String) :
    Variant.Alike p (v.become root description) (v'.become root' description) :=
  ⟨h.id_eq, hr, rfl, h.failing_eq, congrArg (· ++ [description]) h.lineage_eq, h.stale_eq⟩

theorem markStale (h : Variant.Alike p v v') : Variant.Alike p v.markStale v'.markStale :=
  { h with stale_eq := rfl }

end Variant.Alike

/-- Baselines that are the same up to the identities of their nodes. -/
structure Baseline.Alike (p : Pairing) (base base' : Baseline α) : Prop where
  root : Node.Alike p base.root base'.root
  tests_eq : base'.tests = base.tests
  maximum_eq : base'.maximum = base.maximum
  fitness_eq : base'.fitness = base.fitness
  report_eq : base'.report = base.report

structure Evaluator.Alike (p : Pairing) (e e' : Evaluator α) : Prop where
  policy_eq : e'.policy = e.policy
  suspicion_eq : e'.suspicion = e.suspicion
  baseline : Option.Rel (Baseline.Alike p) e.baseline e'.baseline
  best : Option.Rel (Variant.Alike p) e.best e'.best
  evaluations_eq : e'.evaluations = e.evaluations

variable [Scalar α]

/-- Benches that are the same up to the identities of nodes and the memory; how far their disks
may differ is left open. -/
structure Bench.Alike (like : Disk → Disk → Prop) (p : Pairing) (b b' : Bench α ω) : Prop where
  evaluator : Evaluator.Alike p b.evaluator b'.evaluator
  store : p.Aligns b.store b'.store
  disk : like b.disk b'.disk

/-! ## Plans -/

namespace RetestPlan

variable {s s' : Store α} {root root' : Node} {ns ns' : List Node}

/-- Units under the same names. -/
def Named (p : Pairing) (u u' : String × Node) : Prop := u'.1 = u.1 ∧ Node.Alike p u.2 u'.2

theorem named_alike (hs : p.Aligns s s') (h : Forall₂ (Node.Alike p) ns ns') :
    Option.Rel (Forall₂ (Named p)) (named s ns) (named s' ns') := by
  induction h with
  | nil => exact .some .nil
  | cons hu _ ih =>
    unfold named
    rw [hs.attribute_eq hu]
    cases s.attribute? _ Attributes.fileName with
    | none => exact .none
    | some name =>
      show Option.Rel (Forall₂ (Named p)) ((named s _).bind _) ((named s' _).bind _)
      exact rel_bind ih fun l l' hl => .some (.cons ⟨rfl, hu⟩ hl)

theorem changedAmong_alike {before before' l l' : List (String × Node)}
    (hbefore : Forall₂ (Named p) before before') (h : Forall₂ (Named p) l l') :
    Option.Rel (Forall₂ (Node.Alike p)) (changedAmong before l) (changedAmong before' l') := by
  induction h with
  | nil => exact .some .nil
  | @cons u u' _ _ hu _ ih =>
    obtain ⟨name, node⟩ := u
    obtain ⟨name', node'⟩ := u'
    obtain ⟨rfl, hnode⟩ := hu
    unfold changedAmong
    refine rel_bind (lookup_rel (List.rel_reverse hbefore) _) fun old old' hold => ?_
    refine rel_bind ih fun rest rest' hrest => ?_
    rw [hold.sameContent_eq hnode]
    split
    · exact .some hrest
    · exact .some (.cons hnode hrest)

theorem changedUnits_alike (hs : p.Aligns s s') (h : Node.Alike p root root') {n n' : Node}
    (hn : Node.Alike p n n') :
    Option.Rel (Forall₂ (Node.Alike p)) (changedUnits s root n) (changedUnits s' root' n') := by
  unfold changedUnits
  simp only [Pairing.eq_iff_eq h.id hn.id]
  split
  · exact .some .nil
  · refine rel_bind (named_alike hs h.units) fun before before' hbefore => ?_
    have hnames : before'.map (·.1) = before.map (·.1) :=
      forall₂_map_eq hbefore fun _ _ hu => hu.1
    rw [hnames, ← hn.units.length_eq]
    split
    · exact rel_bind (named_alike hs hn.units) fun l l' hl => changedAmong_alike hbefore hl
    · exact .none

theorem coveringClasses_eq (hs : p.Aligns s s') (h : Forall₂ (Node.Alike p) ns ns') :
    coveringClasses s' ns' = coveringClasses s ns := by
  induction h with
  | nil => rfl
  | cons hu _ ih => rw [coveringClasses, coveringClasses, hs.coveredBy_eq hu, ih]

/-- The same tests are run on both sides. -/
theorem choose_eq (policy : FitnessPolicy α) (hs : p.Aligns s s') (h : Node.Alike p root root')
    {v v' : Variant α} (hv : Variant.Alike p v v') :
    choose policy s' root' v' = choose policy s root v := by
  have hchanged := changedUnits_alike hs h hv.root
  unfold choose
  rw [hv.stale_eq]
  generalize changedUnits s root v.root = changed at hchanged
  generalize changedUnits s' root' v'.root = changed' at hchanged
  cases hchanged with
  | none => rfl
  | some hunits =>
    have hclasses := coveringClasses_eq hs hunits
    cases hunits with
    | nil => rfl
    | cons => simp only [hclasses]

end RetestPlan

/-! ## Executors -/

/-- Scratch folders can be made and removed on both disks or on neither, for the same reason. -/
structure Disk.Interchangeable (like : Disk → Disk → Prop) : Prop where
  prepare : ∀ (area : ScratchArea) (id : Nat) {d d' : Disk}, like d d' →
    Concur (fun r r' => r'.1 = r.1 ∧ like r.2 r'.2) (area.prepare id d) (area.prepare id d')
  discard : ∀ (dir : ScratchFolder) {d d' : Disk}, like d d' →
    Concur like (dir.discard d) (dir.discard d')

theorem Disk.interchangeable_eq : Disk.Interchangeable (· = ·) where
  prepare area id d d' h := by
    subst h
    cases area.prepare id d with
    | error fault => exact .error fault
    | ok r => exact .ok ⟨rfl, rfl⟩
  discard dir d d' h := by
    subst h
    cases dir.discard d with
    | error fault => exact .error fault
    | ok r => exact .ok rfl

/-- What an executor answers, and what it does to the disk, is a function of the program with its
marks, the selected tests and the folder; neither identities nor its memory come into it. -/
def Executor.Consistent (executor : Executor α ω) (like : Disk → Disk → Prop) : Prop :=
  ∀ {p : Pairing} {s s' : Store α} {root root' : Node} {d d' : Disk}, p.Aligns s s' →
    Node.Alike p root root' → like d d' → ∀ selection dir memory memory',
      (executor.run root' selection dir s' (d', memory')).1 =
          (executor.run root selection dir s (d, memory)).1 ∧
        like (executor.run root selection dir s (d, memory)).2.1
          (executor.run root' selection dir s' (d', memory')).2.1

namespace Bench

variable {like : Disk → Disk → Prop} {executor : Executor α ω} {root root' : Node}
  {b b' : Bench α ω}

theorem trial_alike (hlike : Disk.Interchangeable like) (hexecutor : executor.Consistent like)
    (h : Node.Alike p root root') (hb : Bench.Alike like p b b') (id : Nat)
    (selection : Selection) :
    (b'.trial executor id root' selection).1 = (b.trial executor id root selection).1 ∧
      Bench.Alike like p (b.trial executor id root selection).2
        (b'.trial executor id root' selection).2 := by
  have hprepare := hlike.prepare b.evaluator.policy.scratchArea id hb.disk
  unfold trial
  rw [hb.evaluator.policy_eq]
  generalize b.evaluator.policy.scratchArea.prepare id b.disk = prepared at hprepare
  generalize b.evaluator.policy.scratchArea.prepare id b'.disk = prepared' at hprepare
  cases hprepare with
  | error fault => exact ⟨rfl, hb⟩
  | @ok r r' hr =>
    obtain ⟨dir, disk⟩ := r
    obtain ⟨dir', disk'⟩ := r'
    obtain ⟨rfl, hdisk⟩ := hr
    simp only []
    obtain ⟨hanswer, hafter⟩ := hexecutor hb.store h hdisk selection dir' b.memory b'.memory
    rcases hran : executor.run root selection dir' b.store (disk, b.memory) with
      ⟨answer, disk₁, memory₁⟩
    rcases hran' : executor.run root' selection dir' b'.store (disk', b'.memory) with
      ⟨answer', disk₁', memory₁'⟩
    rw [hran, hran'] at hanswer hafter
    have hdiscard := hlike.discard dir' hafter
    simp only [hran, hran'] at hdiscard ⊢
    generalize dir'.discard disk₁ = discarded at hdiscard
    generalize dir'.discard disk₁' = discarded' at hdiscard
    cases hdiscard with
    | error fault => exact ⟨rfl, hb.evaluator, hb.store, hafter⟩
    | ok hdisk => exact ⟨congrArg Except.ok hanswer, hb.evaluator, hb.store, hdisk⟩

theorem Alike.count (hb : Bench.Alike like p b b') :
    Bench.Alike like p b.count b'.count :=
  { hb with
    evaluator := { hb.evaluator with
      evaluations_eq := congrArg (· + 1) hb.evaluator.evaluations_eq } }

variable [Root α]

theorem localize_alike (h : Node.Alike p root root') (hb : Bench.Alike like p b b')
    (run : TestRun) :
    (b'.localize root' run).1 = (b.localize root run).1 ∧
      Bench.Alike like p (b.localize root run).2 (b'.localize root' run).2 := by
  unfold localize
  cases run.coverage with
  | none => exact ⟨rfl, hb⟩
  | some coverage =>
    simp only []
    rw [hb.evaluator.suspicion_eq]
    obtain ⟨hreport, hstore⟩ :=
      Localization.localize_aligned b.evaluator.suspicion h run.results coverage hb.store
    exact ⟨congrArg some hreport, { hb with store := hstore }⟩

theorem relocalize_alike {v v' : Variant α} (hv : Variant.Alike p v v')
    (hb : Bench.Alike like p b b') (wanted : Bool) (run : TestRun) :
    Variant.Alike p (b.relocalize wanted run v).1 (b'.relocalize wanted run v').1 ∧
      Bench.Alike like p (b.relocalize wanted run v).2 (b'.relocalize wanted run v').2 := by
  unfold relocalize
  split
  · exact ⟨hv.markLocalized, (localize_alike hv.root hb run).2⟩
  · exact ⟨hv, hb⟩

omit [Root α] in
theorem judge_eq {base base' : Baseline α} (h : base'.tests = base.tests)
    (policy : FitnessPolicy α) (selection : Selection) (outcome : Except TestRunError TestRun) :
    base'.judge policy selection outcome = base.judge policy selection outcome := by
  have hrate (run : TestRun) :
      base'.rate policy selection run = base.rate policy selection run := by
    rw [Baseline.rate, Baseline.rate, h]
  cases outcome with
  | ok run => exact hrate run
  | error e =>
    cases e with
    | timedOut className elapsed completed =>
      rw [Baseline.judge, Baseline.judge, h]
      simp only [hrate]
    | _ => rfl

/-- An assessment on both sides, with the variants that it was written to. -/
def Assessed (p : Pairing) (r r' : Assessment α × Variant α) : Prop :=
  r'.1 = r.1 ∧ Variant.Alike p r.2 r'.2

theorem evaluate_alike (hlike : Disk.Interchangeable like) (hexecutor : executor.Consistent like)
    {v v' : Variant α} (hv : Variant.Alike p v v') (hb : Bench.Alike like p b b') :
    Concur (Assessed p) (b.evaluate executor v).1 (b'.evaluate executor v').1 ∧
      Bench.Alike like p (b.evaluate executor v).2 (b'.evaluate executor v').2 := by
  have hbaseline := hb.evaluator.baseline
  unfold evaluate
  generalize b.evaluator.baseline = base at hbaseline
  generalize b'.evaluator.baseline = base' at hbaseline
  cases hbaseline with
  | none => exact ⟨.error _, hb⟩
  | @some base base' hbase =>
    have hcount := hb.count
    simp only []
    rw [hcount.evaluator.policy_eq, RetestPlan.choose_eq _ hcount.store hbase.root hv]
    cases RetestPlan.choose b.count.evaluator.policy b.count.store base.root v with
    | inherit =>
      simp only []
      rw [hbase.fitness_eq, hbase.tests_eq]
      exact ⟨.ok ⟨rfl, hv.assess _ _⟩, hcount⟩
    | retest selection wanted =>
      simp only []
      rw [hv.id_eq]
      -- the variants have the same number, so the folders have the same name
      obtain ⟨hsame, htried⟩ := trial_alike hlike hexecutor hv.root hcount v.id selection
      generalize b.count.trial executor v.id v.root selection = tried at hsame htried
      generalize b'.count.trial executor v.id v'.root selection = tried' at hsame htried
      obtain ⟨answer, b₁⟩ := tried
      obtain ⟨answer', b₁'⟩ := tried'
      obtain rfl : answer' = answer := hsame
      cases answer' with
      | error fault => exact ⟨.error _, htried⟩
      | ok outcome =>
        simp only []
        rw [judge_eq hbase.tests_eq]
        rcases base.judge b.count.evaluator.policy selection outcome with
          fault | ⟨failure | ⟨fitness, failing, run⟩⟩
        · exact ⟨.error _, htried⟩
        · simp only []
          rw [hbase.tests_eq]
          exact ⟨.ok ⟨rfl, hv.assess _ _⟩, htried⟩
        · obtain ⟨hv', hb'⟩ := relocalize_alike hv htried wanted run
          exact ⟨.ok ⟨rfl, hv'.assess fitness failing⟩, hb'⟩

/-- A baseline is recorded alike. -/
theorem adopt_alike (h : Node.Alike p root root') (hb : Bench.Alike like p b b') (run : TestRun)
    (u : Universe) :
    (b'.adopt root' run u).1 = (b.adopt root run u).1 ∧
      Bench.Alike like p (b.adopt root run u).2 (b'.adopt root' run u).2 := by
  obtain ⟨hreport, hlocalized⟩ := localize_alike h hb run
  unfold adopt
  rw [hb.evaluator.policy_eq]
  generalize b.localize root run = localized at hreport hlocalized
  generalize b'.localize root' run = localized' at hreport hlocalized
  refine ⟨rfl, { hlocalized with evaluator := { hlocalized.evaluator with baseline := ?_ } }⟩
  exact .some ⟨h, rfl, rfl, rfl, hreport⟩

theorem establish_alike (hlike : Disk.Interchangeable like) (hexecutor : executor.Consistent like)
    (h : Node.Alike p root root') (hb : Bench.Alike like p b b') :
    (b'.establish executor root').1 = (b.establish executor root).1 ∧
      Bench.Alike like p (b.establish executor root).2 (b'.establish executor root').2 := by
  have hvalidate : b'.evaluator.validate = b.evaluator.validate := by
    rw [Evaluator.validate, Evaluator.validate, hb.evaluator.policy_eq, hb.evaluator.suspicion_eq]
  unfold establish
  rw [hvalidate]
  cases b.evaluator.validate with
  | error fault => exact ⟨rfl, hb⟩
  | ok _ =>
    simp only []
    obtain ⟨hsame, htried⟩ := trial_alike hlike hexecutor h hb 0 (.everything true)
    generalize b.trial executor 0 root (.everything true) = tried at hsame htried
    generalize b'.trial executor 0 root' (.everything true) = tried' at hsame htried
    obtain ⟨answer, b₁⟩ := tried
    obtain ⟨answer', b₁'⟩ := tried'
    obtain rfl : answer' = answer := hsame
    rcases answer' with fault | ⟨e | run⟩
    · exact ⟨rfl, htried⟩
    · cases e with
      | _ => exact ⟨rfl, htried⟩
    · simp only []
      split
      · exact ⟨rfl, htried⟩
      · split
        · exact ⟨rfl, htried⟩
        · rename_i u _
          obtain ⟨hassessment, hadopted⟩ := adopt_alike h htried run u
          exact ⟨congrArg Except.ok hassessment, hadopted⟩

end Bench

end GeneticRepair
