import GeneticRepair.Proofs.Evolution.Modes

/-!
# `Proofs/Evolution/Reordered.lean` — batches in another order

A generation that is evaluated as a batch may be done in any order. Without an oracle no variant
waits for a localization, so no evaluation writes what another one reads, and each variant finds its
verdict under its place whenever its turn has come. Two runs that differ in the order of their
batches therefore go through the same generations, with another disk and another memory (`Apart`),
unless scratch storage fails in one of them.

* `matched_evaluateBatch`: this for one batch.
* `matched_run`: the two runs come to the same.
-/

set_option autoImplicit false

namespace GeneticRepair

variable {α ω : Type}

/-- Something ends because scratch storage fails. -/
def Unstored {β : Type} (answer : Except RepairFault β) : Prop :=
  ∃ fault, answer = .error (.storage fault)

theorem Unstored.of_map {β γ : Type} {answer : Except RepairFault β} {f : β → γ}
    (h : Unstored answer) : Unstored (answer.map f) := by
  obtain ⟨fault, rfl⟩ := h
  exact ⟨fault, rfl⟩

theorem Variant.Hereditary.localized : Variant.Hereditary fun v : Variant α => v.stale = false :=
  ⟨fun _ h => h, fun _ _ h => h⟩

/-- Teams that differ in the orders of their batches and in how they look whether to cancel, which
neither of them does. There is no oracle, and the executor answers by what it is given. -/
structure Collaborators.Reordered (c c' : Collaborators α ω)
    (replies : Node → Selection → ScratchFolder → Store α → Except TestRunError TestRun) :
    Prop where
  answersBy : c.executor.AnswersBy replies
  executor_eq : c'.executor = c.executor
  oracle_eq : c.oracle = none
  oracle_eq' : c'.oracle = none
  seed_eq : c'.seed = c.seed
  uncancelled : ∀ memory, (c.cancelled memory).1 = false
  uncancelled' : ∀ memory, (c'.cancelled memory).1 = false

namespace Search

/-- Two searches that differ in disk and memory only. -/
abbrev Apart (s s' : Search α ω) : Prop := Abreast (fun _ => ()) s s'

theorem Apart.refl (s : Search α ω) : Apart s s := ⟨s.bench.disk, s.bench.memory, rfl, rfl⟩

/-- Two computations come to the same, unless storage fails in one of them. -/
def Matched {β : Type} (r r' : Except RepairFault β × Search α ω) : Prop :=
  Unstored r.1 ∨ Unstored r'.1 ∨ r'.1 = r.1 ∧ Apart r.2 r'.2

theorem Matched.refl {β : Type} (r : Except RepairFault β × Search α ω) : Matched r r :=
  .inr (.inr ⟨rfl, .refl r.2⟩)

/-! ## A batch -/

/-- Results that bring the same verdicts settle a generation in the same way. -/
theorem settle_of_brings {verdict : Variant α → Except IntegrityFault (Variant α)}
    {results results' : List (Nat × Except RepairFault (Variant α))}
    {generation : List (Variant α)} {job : Nat} (h : Brings verdict results job generation)
    (h' : Brings verdict results' job generation) :
    Unstored (settle results job generation) ∨ Unstored (settle results' job generation) ∨
      settle results' job generation = settle results job generation := by
  induction generation generalizing job with
  | nil => exact .inr (.inr rfl)
  | cons v generation ih =>
    rw [settle, settle]
    cases hv : v.fitness with
    | some fitness =>
      have hsome : v.fitness.isSome = true := by rw [hv]; rfl
      obtain hfails | hfails | heq := ih (h.skip hsome) (h'.skip hsome)
      · exact .inl hfails.of_map
      · exact .inr (.inl hfails.of_map)
      · rw [heq]
        exact .inr (.inr rfl)
    | none =>
      obtain ⟨answer, hanswer, htells⟩ := h.first hv
      obtain ⟨answer', hanswer', htells'⟩ := h'.first hv
      simp only [Option.isSome_none, Bool.false_eq_true, if_false, hanswer, hanswer']
      obtain ⟨fault, rfl⟩ | rfl := htells
      · exact .inl ⟨fault, rfl⟩
      obtain ⟨fault, rfl⟩ | rfl := htells'
      · exact .inr (.inl ⟨fault, rfl⟩)
      cases verdict v with
      | error fault => exact .inr (.inr rfl)
      | ok w =>
        obtain hfails | hfails | heq := ih (h.later hv) (h'.later hv)
        · exact .inl hfails.of_map
        · exact .inr (.inl hfails.of_map)
        · refine .inr (.inr ?_)
          show (settle results' (job + 1) generation).map (w :: ·) =
            (settle results (job + 1) generation).map (w :: ·)
          rw [heq]

variable [Scalar α] [Root α] {c c' : Collaborators α ω} {base : Baseline α}
  {replies : Node → Selection → ScratchFolder → Store α → Except TestRunError TestRun}

omit [Root α] in
/-- What a batch comes to depends on what its results settle, not on the disk and the memory that
are left. -/
theorem matched_batched (maximum : α) {s s' : Search α ω} (h : Apart s s') (count : Nat)
    (disk disk' : Disk) (memory memory' : ω)
    {settled settled' : Except RepairFault (List (Variant α))}
    (hsettled : Unstored settled ∨ Unstored settled' ∨ settled' = settled) :
    Matched (batched maximum s count disk memory settled)
      (batched maximum s' count disk' memory' settled') := by
  obtain ⟨d, m, rfl, -⟩ := h
  obtain ⟨fault, rfl⟩ | ⟨fault, rfl⟩ | rfl := hsettled
  · exact .inl ⟨fault, rfl⟩
  · exact .inr (.inl ⟨fault, rfl⟩)
  · cases settled' with
    | error fault => exact .inr (.inr ⟨rfl, disk', memory', rfl, rfl⟩)
    | ok ws => exact .inr (.inr ⟨rfl, disk', memory', rfl, rfl⟩)

/-- After a batch without an error the baseline is the same, and no variant waits for a
localization. -/
theorem localized_of_evaluateBatch (hc : c.executor.AnswersBy replies) {maximum : α} {number : Nat}
    {generation ws : List (Variant α)} (hgeneration : ∀ v ∈ generation, v.stale = false)
    {s t : Search α ω} (hb : s.bench.evaluator.baseline = some base) {fix : Option (Variant α)}
    (h : evaluateBatch c maximum number generation s = (.ok (ws, fix), t)) :
    t.bench.evaluator.baseline = some base ∧ ∀ w ∈ ws, w.stale = false := by
  obtain ⟨fault, hfault, -⟩ | ⟨ws', disk, memory, hrated, heq, -⟩ :=
    evaluateBatch_rated hc.steadfast maximum number hgeneration hb
  · rw [h] at hfault
    cases hfault
  · rw [h] at heq
    obtain ⟨hanswer, rfl⟩ := Prod.mk.inj heq
    obtain ⟨rfl, -⟩ := Prod.mk.inj (Except.ok.inj hanswer)
    exact ⟨hb, localized_of_rated (fun v w => Bench.stale_of_verdict) hrated hgeneration⟩

variable (hc : c.Reordered c' replies)

include hc

theorem matched_evaluateBatch (maximum : α) (number : Nat) {generation : List (Variant α)}
    (hgeneration : ∀ v ∈ generation, v.stale = false) {s s' : Search α ω} (h : Apart s s')
    (hb : s.bench.evaluator.baseline = some base) :
    Matched (evaluateBatch c maximum number generation s)
      (evaluateBatch c' maximum number generation s') := by
  have hanswers' : c'.executor.AnswersBy replies := hc.executor_eq ▸ hc.answersBy
  -- neither the baseline nor the verdicts depend on what sets the two searches apart
  obtain ⟨hb', hverdict⟩ : s'.bench.evaluator.baseline = some base ∧
      s'.bench.verdict base replies = s.bench.verdict base replies := by
    obtain ⟨disk, memory, rfl, -⟩ := h
    exact ⟨hb, rfl⟩
  obtain ⟨results, disk, memory, heq, -, hbrings⟩ :=
    evaluateBatch_brings hc.answersBy.steadfast maximum number hgeneration hb
  obtain ⟨results', disk', memory', heq', -, hbrings'⟩ :=
    evaluateBatch_brings hanswers'.steadfast maximum number hgeneration hb'
  rw [hverdict] at hbrings'
  rw [heq, heq']
  exact matched_batched maximum h _ disk disk' memory memory' (settle_of_brings hbrings hbrings')

/-! ## A run -/

omit [Scalar α] [Root α] in
theorem apart_isCancelled {s s' : Search α ω} (h : Apart s s') :
    (isCancelled c s).1 = false ∧ (isCancelled c' s').1 = false ∧
      Apart (isCancelled c s).2 (isCancelled c' s').2 := by
  obtain ⟨disk, memory, rfl, -⟩ := h
  exact ⟨hc.uncancelled _, hc.uncancelled' _, disk, (c'.cancelled memory).2, rfl, rfl⟩

theorem matched_evolve {settings : Settings α} (hparallel : settings.parallel = true)
    {original : Variant α} (horiginal : original.stale = false) (maximum : α) (remaining : Nat)
    {generation : Nat} {population : List (Variant α)}
    (hpopulation : ∀ v ∈ population, v.stale = false) {s s' : Search α ω} (h : Apart s s')
    (hb : s.bench.evaluator.baseline = some base) :
    Matched (evolve settings c original maximum generation population remaining s)
      (evolve settings c' original maximum generation population remaining s') := by
  induction remaining generalizing generation population s s' with
  | zero =>
    obtain ⟨disk, memory, rfl, -⟩ := h
    exact .inr (.inr ⟨rfl, disk, memory, rfl, rfl⟩)
  | succ remaining ih =>
    obtain ⟨hgoesOn, hgoesOn', hasked⟩ := apart_isCancelled hc h
    obtain ⟨hsame, hbred⟩ := (hasked.enter generation).nextGeneration hc.oracle_eq hc.oracle_eq'
      settings original population
    obtain ⟨heq, hnext⟩ : _ = s.bench.evaluator ∧ _ :=
      Steady.nextGeneration .localized (.inl hc.oracle_eq) settings horiginal hpopulation
        (enter generation (isCancelled c s).2).2
    rw [evolve_of_continues hgoesOn, evolve_of_continues hgoesOn']
    simp only [evaluateGeneration, hparallel, if_true, hsame]
    rw [← heq] at hb
    have hbatch := matched_evaluateBatch hc maximum generation hnext hbred hb
    rcases hleft : evaluateBatch c maximum generation _ _ with ⟨answer, t⟩
    rw [hleft] at hbatch
    obtain ⟨fault, rfl⟩ | ⟨fault, hfault⟩ | ⟨hanswer, happart⟩ := hbatch
    · exact .inl ⟨fault, rfl⟩
    · rw [hfault]
      exact .inr (.inl ⟨fault, rfl⟩)
    rw [hanswer]
    rcases answer with fault | ⟨ws, fix⟩
    · exact .inr (.inr ⟨rfl, happart⟩)
    · cases fix with
      | some fix =>
        obtain ⟨disk, memory, heq', -⟩ := happart
        rw [heq']
        exact .inr (.inr ⟨rfl, disk, memory, rfl, rfl⟩)
      | none =>
        obtain ⟨hb', hws⟩ := localized_of_evaluateBatch hc.answersBy hnext hb hleft
        exact ih hws happart.recordBest hb'

theorem matched_searchFrom {settings : Settings α} (hparallel : settings.parallel = true)
    {original : Variant α} (horiginal : original.stale = false) (maximum : α) {s : Search α ω}
    (hb : s.bench.evaluator.baseline = some base) :
    Matched (searchFrom settings c original maximum s)
      (searchFrom settings c' original maximum s) := by
  rw [searchFrom, searchFrom, bind_apply, bind_apply, bind_apply, bind_apply]
  cases isRepair maximum original with
  | true => exact .refl _
  | false =>
    refine matched_evolve hc hparallel horiginal maximum _ (fun v hv => absurd hv List.not_mem_nil)
      (.refl _) (?_ : _ = some base)
    rw [← hb]
    simp only [onBench, record, Bench.offer_eq]
    rfl

/-- Runs that do their batches in different orders come to the same. -/
theorem matched_run {settings : Settings α} (hparallel : settings.parallel = true) (root : Node)
    (s : Search α ω) : Matched (run settings c root s) (run settings c' root s) := by
  unfold run
  rw [hc.executor_eq, hc.seed_eq]
  cases settings.validate with
  | error fault => exact .refl _
  | ok _ =>
    simp only [bind_apply]
    generalize onBench (Bench.establish c.executor root) _ = first
    rcases first with ⟨e | a, t⟩
    · cases e with
      | _ => exact .refl _
    · have hget : (get : StateM (Search α ω) (Search α ω)) t = (t, t) := rfl
      simp only []
      rw [bind_apply, bind_apply, hget]
      simp only []
      cases hb : t.bench.evaluator.baseline with
      | none => exact .refl _
      | some base => exact matched_searchFrom hc hparallel rfl base.maximum hb

end Search

end GeneticRepair
