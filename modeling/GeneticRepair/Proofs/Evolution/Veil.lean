import GeneticRepair.Evolution.Run
import GeneticRepair.Proofs.Syntax.Growth

/-!
# `Proofs/Evolution/Veil.lean` — what breeding does not look at

Breeding works on random words, numbers and marks. It sees neither the evaluator nor the disk, and
the memory only through the oracle. A `Veil` changes those parts of a search, and a computation is
`Blind` to it if it makes no difference whether the search is veiled before or after. Two runs that
differ in hidden parts only therefore breed the same generations, and an observer that is kept in a
hidden part does not disturb what it observes.
-/

set_option autoImplicit false

namespace GeneticRepair

/-- A change of those parts of a search that breeding does not look at. The type of the memory may
change, too. -/
structure Veil (α ω ω' : Type) where
  evaluator : Evaluator α → Evaluator α
  disk : Disk → Disk
  memory : ω → ω'
  phase : Phase → Phase
  evaluations : Nat → Nat
  history : List α → List α

variable {α ω ω' β γ : Type}

def Veil.overBench (φ : Veil α ω ω') (b : Bench α ω) : Bench α ω' :=
  ⟨φ.evaluator b.evaluator, b.store, φ.disk b.disk, φ.memory b.memory⟩

def Veil.over (φ : Veil α ω ω') (s : Search α ω) : Search α ω' where
  bench := φ.overBench s.bench
  rng := s.rng
  nextId := s.nextId
  phase := φ.phase s.phase
  stats :=
    { s.stats with
      evaluations := φ.evaluations s.stats.evaluations
      history := φ.history s.stats.history }

namespace Veil

/-- It makes no difference whether the veil is drawn before or after. -/
def Blind (φ : Veil α ω ω') (x : StateM (Search α ω) β) (x' : StateM (Search α ω') β) : Prop :=
  ∀ s, x' (φ.over s) = ((x s).1, φ.over (x s).2)

variable {φ : Veil α ω ω'}

namespace Blind

theorem pure (a : β) : φ.Blind (pure a) (pure a) := fun _ => rfl

theorem bind {x : StateM (Search α ω) β} {x' : StateM (Search α ω') β}
    {f : β → StateM (Search α ω) γ} {f' : β → StateM (Search α ω') γ} (hx : φ.Blind x x')
    (hf : ∀ a, φ.Blind (f a) (f' a)) : φ.Blind (x >>= f) (x' >>= f') := by
  intro s
  rw [bind_apply, bind_apply, hx s]
  exact hf _ _

/-- What a veil puts in place of a hidden part is still there afterwards. -/
theorem own {φ : Veil α ω ω} {x : StateM (Search α ω) β} (hx : φ.Blind x x) {s : Search α ω}
    (hs : φ.over s = s) : φ.over (x s).2 = (x s).2 := by
  have hsame := congrArg Prod.snd (hx s)
  rw [hs] at hsame
  exact hsame.symm

end Blind

/-! ## The operations of breeding -/

open Search

/-- The oracles take the same view of both searches, if there are oracles at all. -/
def Consults (φ : Veil α ω ω') : Option (Oracle α ω) → Option (Oracle α ω') → Prop
  | none, none => True
  | some oracle, some oracle' => ∀ root failing store memory,
    oracle'.propose root failing (store, φ.memory memory) =
      let (answer, store, memory) := oracle.propose root failing (store, memory)
      (answer, store, φ.memory memory)
  | _, _ => False

/-- A veil that leaves the memory alone makes no difference to an oracle. -/
theorem consults_self {φ : Veil α ω ω} (h : φ.memory = id) (oracle : Option (Oracle α ω)) :
    φ.Consults oracle oracle := by
  cases oracle with
  | none => trivial
  | some oracle =>
    intro root failing store memory
    rw [h]
    rfl

theorem blind_renumber (vs : List (Variant α)) : φ.Blind (renumber vs) (renumber vs) := by
  induction vs with
  | nil => exact .pure []
  | cons v vs ih =>
    have hnumber : φ.Blind nextNumber nextNumber := fun _ => rfl
    exact hnumber.bind fun id => ih.bind fun rest => .pure _

theorem blind_refill (settings : Settings α) (original : Variant α) (next : List (Variant α)) :
    φ.Blind (refill settings original next) (refill settings original next) :=
  (blind_renumber _).bind fun _ => .pure _

theorem blind_consult {oracle : Oracle α ω} {oracle' : Oracle α ω'}
    (h : φ.Consults (some oracle) (some oracle')) (v : Variant α) :
    φ.Blind (consult oracle v) (consult oracle' v) := by
  have hrecord : φ.Blind
      (record fun t : Tally α => { t with oracleCalls := t.oracleCalls + 1 })
      (record fun t : Tally α => { t with oracleCalls := t.oracleCalls + 1 }) := fun _ => rfl
  have hmissed : φ.Blind
      (record fun t : Tally α => { t with oracleMisses := t.oracleMisses + 1 })
      (record fun t : Tally α => { t with oracleMisses := t.oracleMisses + 1 }) := fun _ => rfl
  refine hrecord.bind fun _ => .bind (fun s => ?_) fun answer => ?_
  · have hpropose := h v.root v.failing s.bench.store s.bench.memory
    simp only [onBench, Veil.over, overBench, hpropose]
  · rcases answer with e | root
    · exact hmissed.bind fun _ => .pure v
    · cases root with
      | none => exact hmissed.bind fun _ => .pure v
      | some root => exact .pure _

section

variable [Scalar α]

theorem blind_selectParents (settings : Settings α) (population : List (Variant α)) :
    φ.Blind (selectParents settings population) (selectParents settings population) := by
  unfold selectParents
  simp only []
  split
  · exact .pure []
  · exact .bind (fun _ => rfl) fun picks => blind_renumber _

theorem blind_crossPair (a b : Variant α) : φ.Blind (crossPair a b) (crossPair a b) := by
  have hnumber : φ.Blind nextNumber nextNumber := fun _ => rfl
  refine .bind (fun _ => rfl) fun crossing => ?_
  cases crossing with
  | offspring first second blocks =>
    exact .bind (fun _ => rfl) fun _ => hnumber.bind fun _ => hnumber.bind fun _ => .pure _
  | alike => exact .bind (fun _ => rfl) fun _ => .pure _

theorem blind_crossPairs :
    (parents : List (Variant α)) → φ.Blind (crossPairs parents) (crossPairs parents)
  | [] => .pure []
  | [a] => .pure [a]
  | a :: b :: rest =>
    (blind_crossPair a b).bind fun _ => (blind_crossPairs rest).bind fun _ => .pure _

theorem blind_mutateByOperator (settings : Settings α) (v : Variant α) :
    φ.Blind (mutateByOperator settings v) (mutateByOperator settings v) := by
  refine .bind (fun _ => rfl) fun mutation => ?_
  cases mutation with
  | changed root operator description =>
    cases operator with
    | _ => exact .bind (fun _ => rfl) fun _ => .pure _
  | unchanged => exact .bind (fun _ => rfl) fun _ => .pure _
  | refused operator error => exact .bind (fun _ => rfl) fun _ => .pure _

variable {c : Collaborators α ω} {c' : Collaborators α ω'}

theorem blind_vary (settings : Settings α) (h : φ.Consults c.oracle c'.oracle) (v : Variant α) :
    φ.Blind (vary settings c v) (vary settings c' v) := by
  unfold vary
  cases ho : c.oracle with
  | none =>
    cases ho' : c'.oracle with
    | none => exact blind_mutateByOperator settings v
    | some oracle' =>
      rw [ho, ho'] at h
      exact h.elim
  | some oracle =>
    cases ho' : c'.oracle with
    | none =>
      rw [ho, ho'] at h
      exact h.elim
    | some oracle' =>
      rw [ho, ho'] at h
      refine .bind (fun _ => rfl) fun asked => ?_
      cases asked with
      | false => exact blind_mutateByOperator settings v
      | true => exact blind_consult h v

theorem blind_varyAll (settings : Settings α) (h : φ.Consults c.oracle c'.oracle)
    (vs : List (Variant α)) : φ.Blind (varyAll settings c vs) (varyAll settings c' vs) := by
  induction vs with
  | nil => exact .pure []
  | cons v vs ih => exact (blind_vary settings h v).bind fun _ => ih.bind fun _ => .pure _

/-- The next generation is bred behind any veil. -/
theorem blind_nextGeneration (settings : Settings α) (h : φ.Consults c.oracle c'.oracle)
    (original : Variant α) (population : List (Variant α)) :
    φ.Blind (nextGeneration settings c original population)
      (nextGeneration settings c' original population) := by
  have hbred : φ.Blind (breed settings population) (breed settings population) :=
    (blind_selectParents settings population).bind blind_crossPairs
  exact hbred.bind fun bred => (blind_refill settings original bred).bind fun full =>
    blind_varyAll settings h full

end

/-! ## Evaluations behind a veil -/

/-- An evaluator behind the veil scores as it does without. -/
structure Faithful (φ : Veil α ω ω') : Prop where
  policy_eq (e : Evaluator α) : (φ.evaluator e).policy = e.policy
  suspicion_eq (e : Evaluator α) : (φ.evaluator e).suspicion = e.suspicion
  baseline_eq (e : Evaluator α) : (φ.evaluator e).baseline = e.baseline
  count_eq (e : Evaluator α) :
    φ.evaluator { e with evaluations := e.evaluations + 1 } =
      { φ.evaluator e with evaluations := (φ.evaluator e).evaluations + 1 }
  adopt_eq (e : Evaluator α) (base : Option (Baseline α)) :
    φ.evaluator { e with baseline := base } = { φ.evaluator e with baseline := base }

/-- A trial says behind the veil what it says without, and `φ'` is the veil afterwards. -/
def Tries (φ φ' : Veil α ω ω') (executor : Executor α ω) (executor' : Executor α ω') (id : Nat)
    (root : Node) (selection : Selection) (b : Bench α ω) : Prop :=
  (φ.overBench b).trial executor' id root selection =
    ((b.trial executor id root selection).1,
      φ'.overBench (b.trial executor id root selection).2)

namespace Faithful

variable (h : φ.Faithful)

include h

theorem policy (b : Bench α ω) : (φ.overBench b).evaluator.policy = b.evaluator.policy :=
  h.policy_eq b.evaluator

theorem baseline (b : Bench α ω) : (φ.overBench b).evaluator.baseline = b.evaluator.baseline :=
  h.baseline_eq b.evaluator

theorem count (b : Bench α ω) : (φ.overBench b).count = φ.overBench b.count :=
  congrArg (Bench.mk · _ _ _) (h.count_eq b.evaluator).symm

variable [Scalar α] [Root α]

theorem localize (root : Node) (run : TestRun) (b : Bench α ω) :
    (φ.overBench b).localize root run =
      ((b.localize root run).1, φ.overBench (b.localize root run).2) := by
  unfold Bench.localize
  cases run.coverage with
  | none => rfl
  | some coverage => simp only [overBench, h.suspicion_eq]

theorem relocalize (wanted : Bool) (run : TestRun) (v : Variant α) (b : Bench α ω) :
    (φ.overBench b).relocalize wanted run v =
      ((b.relocalize wanted run v).1, φ.overBench (b.relocalize wanted run v).2) := by
  unfold Bench.relocalize
  split
  · rw [h.localize]
  · rfl

theorem adopt (root : Node) (run : TestRun) (u : Universe) (b : Bench α ω) :
    (φ.overBench b).adopt root run u =
      ((b.adopt root run u).1, φ.overBench (b.adopt root run u).2) := by
  unfold Bench.adopt
  rw [h.policy, h.localize]
  exact Prod.ext rfl (congrArg (Bench.mk · _ _ _) (h.adopt_eq _ _).symm)

end Faithful

variable [Scalar α] [Root α] {executor : Executor α ω} {executor' : Executor α ω'}

/-- If every trial of a variant says the same behind the veil, so does its evaluation. -/
theorem veiled_evaluate (good : Veil α ω ω' → Prop) (hgood : ∀ φ, good φ → φ.Faithful)
    (hφ : good φ) {v : Variant α} {b : Bench α ω}
    (htrial : ∀ selection, ∃ φ', good φ' ∧
      Tries φ φ' executor executor' v.id v.root selection b.count) :
    ∃ φ', good φ' ∧ (φ.overBench b).evaluate executor' v =
      ((b.evaluate executor v).1, φ'.overBench (b.evaluate executor v).2) := by
  have h := hgood φ hφ
  unfold Bench.evaluate
  simp only [h.baseline, h.count, h.policy]
  cases b.evaluator.baseline with
  | none => exact ⟨φ, hφ, rfl⟩
  | some base =>
    simp only []
    cases hplan : RetestPlan.choose b.count.evaluator.policy b.count.store base.root v with
    | inherit =>
      refine ⟨φ, hφ, ?_⟩
      rw [show (φ.overBench b.count).store = b.count.store from rfl, hplan]
    | retest selection wanted =>
      obtain ⟨φ', hφ', htries⟩ := htrial selection
      refine ⟨φ', hφ', ?_⟩
      rw [show (φ.overBench b.count).store = b.count.store from rfl, hplan]
      simp only []
      rw [htries]
      rcases b.count.trial executor v.id v.root selection with ⟨fault | outcome, b'⟩
      · rfl
      · simp only []
        cases base.judge b.count.evaluator.policy selection outcome with
        | error fault => rfl
        | ok judgement =>
          cases judgement with
          | collapsed failure => rfl
          | scored fitness failing run => simp only [(hgood φ' hφ').relocalize]

theorem veiled_establish (good : Veil α ω ω' → Prop) (hgood : ∀ φ, good φ → φ.Faithful)
    (hφ : good φ) {root : Node} {b : Bench α ω}
    (htrial : ∃ φ', good φ' ∧ Tries φ φ' executor executor' 0 root (.everything true) b) :
    ∃ φ', good φ' ∧ (φ.overBench b).establish executor' root =
      ((b.establish executor root).1, φ'.overBench (b.establish executor root).2) := by
  have h := hgood φ hφ
  have hvalidate : (φ.overBench b).evaluator.validate = b.evaluator.validate := by
    simp only [Evaluator.validate, overBench, h.policy_eq, h.suspicion_eq]
  unfold Bench.establish
  rw [hvalidate]
  cases b.evaluator.validate with
  | error fault => exact ⟨φ, hφ, rfl⟩
  | ok _ =>
    obtain ⟨φ', hφ', htries⟩ := htrial
    refine ⟨φ', hφ', ?_⟩
    simp only []
    rw [htries]
    rcases b.trial executor 0 root (.everything true) with ⟨fault | outcome, b'⟩
    · rfl
    · rcases outcome with e | run
      · cases e with
        | _ => rfl
      · simp only []
        split
        · rfl
        · split
          · rfl
          · rw [(hgood φ' hφ').adopt]

end Veil

end GeneticRepair
