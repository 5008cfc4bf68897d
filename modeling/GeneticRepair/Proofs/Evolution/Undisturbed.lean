import GeneticRepair.Proofs.Assessment.Verdicts
import GeneticRepair.Proofs.Collection.Keyed
import GeneticRepair.Proofs.Evolution.Sparing
import GeneticRepair.Proofs.Evolution.Steps
import GeneticRepair.Proofs.Suspicion.Covering

/-!
# `Proofs/Evolution/Undisturbed.lean` — a search writes to no node that is there

Marks can be written in place, and every version that shares a node sees it. The search only ever
writes to nodes that it has just made. `Operation` lists what it can do, each on any programs that
are there, and `Operation.spares` is the frame of all of it.

A localization does write to nodes that are there. Without an oracle no variant ever asks for one
after the first run (`Stage.Localized`), so from then on the marks of the program under repair are
what they are, at every moment of a run.

* `search_undisturbed`: both of these, for every state of the marks and for every run.
-/

set_option autoImplicit false

namespace GeneticRepair

open Store

variable {α ω : Type} [Scalar α]

/-! ## Localizations -/

namespace Bench

variable [Root α]

theorem writes_localize {root : Node} {R : Store α → Store α → Prop}
    (h : Localization.Writes root R) (run : TestRun) (b : Bench α ω) :
    R b.store (b.localize root run).2.store := by
  unfold localize
  split
  · exact h.refl _
  · exact h.localize _ _ _ _

/-- The first run writes to marks as a localization does. -/
theorem writes_establish {root : Node} {R : Store α → Store α → Prop}
    (h : Localization.Writes root R) (executor : Executor α ω) (b : Bench α ω) :
    R b.store (b.establish executor root).2.store := by
  obtain ⟨outcome, disk, memory, htrial, -⟩ :=
    trial_outcome executor 0 root (.everything true) b
  unfold establish
  cases b.evaluator.validate with
  | error fault => exact h.refl _
  | ok _ =>
    simp only [htrial]
    rcases outcome with fault | e | run
    · exact h.refl _
    · cases e with
      | _ => exact h.refl _
    · simp only []
      split
      · exact h.refl _
      · split
        · exact h.refl _
        · exact writes_localize h run { b with disk := disk, memory := memory }

/-- So does an evaluation. -/
theorem writes_evaluate {v : Variant α} {R : Store α → Store α → Prop}
    (h : Localization.Writes v.root R) (executor : Executor α ω) (b : Bench α ω) :
    R b.store (b.evaluate executor v).2.store := by
  cases hb : b.evaluator.baseline with
  | none =>
    unfold evaluate
    rw [hb]
    exact h.refl _
  | some base =>
    have htried {selection : Selection} {b' : Bench α ω}
        {outcome : Except StorageFault (Except TestRunError TestRun)}
        (trial : b.count.trial executor v.id v.root selection = (outcome, b')) :
        b'.store = b.store := by
      have hkept := (trial_frame executor v.id v.root selection b.count).2
      rwa [trial] at hkept
    have hev := evaluation executor v hb
    generalize b.evaluate executor v = answer at hev ⊢
    cases hev with
    | inherited plan => exact h.refl _
    | unstored plan trial => exact htried trial ▸ h.refl _
    | refused plan trial verdict => exact htried trial ▸ h.refl _
    | collapsed plan trial verdict => exact htried trial ▸ h.refl _
    | scored plan trial verdict =>
      rw [← htried trial]
      unfold relocalize
      split
      · exact writes_localize h _ _
      · exact h.refl _

/-! ## What the search can do -/

/-- What the search can do with programs that are there, apart from localizing: the bench
afterwards, and the programs that it has made or hands on. -/
inductive Operation (executor : Executor α ω) (programs : List Node) (b : Bench α ω) :
    Bench α ω → List Node → Prop where
  | edit {t : Node} (ht : t ∈ programs) (path : ChildPath) (script : List Edit)
      (hb : ∀ e ∈ script, ∀ c ∈ e.brought, HasNode programs c) :
    Operation executor programs b { b with store := (t.copySpine path b.store).2 }
      ((t.copySpine path b.store).1.map fun spine =>
        (Edit.attemptAll script spine).2.close).toList
  | apply {t : Node} (ht : t ∈ programs) (operator : Operator) (target : Node)
      (scope : DonorScope) (rng : WordStream) :
    Operation executor programs b
      { b with store := (Mutation.apply operator t target scope rng b.store).2 }
      (Mutation.offspring (Mutation.apply operator t target scope rng b.store).1.1)
  | mutate {t : Node} (ht : t ∈ programs) (operators : List Operator) (scope : DonorScope)
      (rng : WordStream) :
    Operation executor programs b
      { b with store := (Mutation.mutate t operators scope rng b.store).2 }
      (Mutation.mutate t operators scope rng b.store).1.1.offspring
  | cross {first second : Node} (hfirst : first ∈ programs) (hsecond : second ∈ programs)
      (rng : WordStream) :
    Operation executor programs b
      { b with store := (Crossover.cross first second rng b.store).2 }
      (Crossover.offspring (Crossover.cross first second rng b.store).1.1)
  | copyAs {v : Variant α} (hv : v.root ∈ programs) (id : Nat) :
    Operation executor programs b b [(v.copyAs id).root]
  | become (v : Variant α) {root : Node} (hroot : root ∈ programs) (description : String) :
    Operation executor programs b b [(v.become root description).root]
  | markStale {v : Variant α} (hv : v.root ∈ programs) :
    Operation executor programs b b [v.markStale.root]
  | assess {v : Variant α} (hv : v.root ∈ programs) (fitness : α) (failing : SortedSet TestId) :
    Operation executor programs b b [(v.assess fitness failing).root]
  | evaluate {v : Variant α} (hv : v.root ∈ programs) (hlocalized : v.stale = false) :
    Operation executor programs b (b.evaluate executor v).2 [v.root]

theorem Operation.spares {executor : Executor α ω} {programs made : List Node} {b b' : Bench α ω}
    (h : Operation executor programs b b' made) (hforest : b.store.Forest programs) :
    b.store.Spares b'.store programs made := by
  have hsame {t : Node} (ht : t ∈ programs) : b.store.Spares b.store programs [t] :=
    .same hforest fun t' ht' => List.mem_singleton.mp ht' ▸ ht
  cases h with
  | @edit t ht path script hb =>
    have hgrown := Node.copySpine_extends t path b.store
    cases hcopy : (t.copySpine path b.store).1 with
    | none => exact .none hforest hgrown
    | some spine =>
      have hedited := (Node.edited_exact (hforest.holds t ht) path script).2 spine _
        (Prod.ext hcopy rfl)
      exact hforest.edited ht hb hedited
  | apply ht operator target scope rng =>
    exact Mutation.spares_apply operator target scope rng hforest ht
  | mutate ht operators scope rng => exact Mutation.spares_mutate operators scope rng hforest ht
  | cross hfirst hsecond rng => exact Crossover.spares_cross rng hforest hfirst hsecond
  | copyAs hv id => exact hsame hv
  | become v hroot description => exact hsame hroot
  | markStale hv => exact hsame hv
  | assess hv fitness failing => exact hsame hv
  | @evaluate v hv hlocalized =>
    rw [(evaluate_of_localized executor hlocalized b).1]
    exact hsame hv

end Bench

/-! ## Computations of a search -/

namespace Search

variable {β γ : Type}

/-- No mark that was there is written, and the result is as it should be. -/
def Gentle (P : β → Prop) (x : StateM (Search α ω) β) : Prop :=
  ∀ s, s.bench.store.Extends (x s).2.bench.store ∧ P (x s).1

namespace Gentle

variable {P : β → Prop} {Q : γ → Prop}

theorem pure {a : β} (h : P a) : Gentle P (pure a : StateM (Search α ω) β) :=
  fun s => ⟨Extends.refl s.bench.store, h⟩

theorem bind {x : StateM (Search α ω) β} {f : β → StateM (Search α ω) γ} (hx : Gentle P x)
    (hf : ∀ a, P a → Gentle Q (f a)) : Gentle Q (x >>= f) := by
  intro s
  obtain ⟨hgrown, hp⟩ := hx s
  obtain ⟨hgrown', hq⟩ := hf (x s).1 hp (x s).2
  exact ⟨hgrown.trans hgrown', hq⟩

theorem after {x : StateM (Search α ω) β} {f : β → StateM (Search α ω) γ}
    (hx : Gentle (fun _ => True) x) (hf : ∀ a, Gentle Q (f a)) : Gentle Q (x >>= f) :=
  hx.bind fun a _ => hf a

/-- A computation that does not touch the marks. -/
theorem apart {x : StateM (Search α ω) β} (h : ∀ s, (x s).2.bench.store = s.bench.store) :
    Gentle (fun _ => True) x := by
  intro s
  rw [h]
  exact ⟨Extends.refl _, trivial⟩

theorem withStore {f : WordStream → StoreM α (β × WordStream)}
    (hf : ∀ rng (store : Store α), store.Extends (f rng store).2) :
    Gentle (fun _ => True) (withStore f : StateM (Search α ω) β) :=
  fun s => ⟨hf s.rng s.bench.store, trivial⟩

end Gentle

/-- None of the variants waits for a localization. -/
def Localized (vs : List (Variant α)) : Prop := ∀ v ∈ vs, v.stale = false

omit [Scalar α] in
theorem localized_append {vs ws : List (Variant α)} :
    Localized (vs ++ ws) ↔ Localized vs ∧ Localized ws := List.forall_mem_append

omit [Scalar α] in
theorem localized_cons {v : Variant α} {vs : List (Variant α)} :
    Localized (v :: vs) ↔ v.stale = false ∧ Localized vs := List.forall_mem_cons

/-! ### Breeding -/

theorem gentle_renumber {vs : List (Variant α)} (h : Localized vs) :
    Gentle Localized (renumber vs : StateM (Search α ω) (List (Variant α))) := by
  induction vs with
  | nil => exact .pure nofun
  | cons v vs ih =>
    obtain ⟨hv, hvs⟩ := localized_cons.mp h
    exact .after (.apart fun _ => rfl) fun id => .bind (ih hvs) fun copies hcopies =>
      .pure (localized_cons.mpr ⟨hv, hcopies⟩)

theorem gentle_selectParents (settings : Settings α) {population : List (Variant α)}
    (h : Localized population) :
    Gentle Localized
      (selectParents settings population : StateM (Search α ω) (List (Variant α))) := by
  unfold selectParents
  simp only []
  split
  · exact .pure nofun
  · exact .after (.apart fun _ => rfl) fun picks => gentle_renumber fun v hv =>
      h v (mem_of_drawn hv).1

theorem gentle_refill (settings : Settings α) {original : Variant α} {next : List (Variant α)}
    (horiginal : original.stale = false) (hnext : Localized next) :
    Gentle Localized (refill settings original next : StateM (Search α ω) (List (Variant α))) := by
  refine .bind (gentle_renumber fun v hv => ?_) fun copies hcopies =>
    .pure (localized_append.mpr ⟨hnext, hcopies⟩)
  rw [List.eq_of_mem_replicate hv]
  exact horiginal

theorem gentle_crossPair {a b : Variant α} (ha : a.stale = false) (hb : b.stale = false) :
    Gentle Localized (crossPair a b : StateM (Search α ω) (List (Variant α))) := by
  have hnil : Localized ([] : List (Variant α)) := nofun
  refine .after (.withStore fun rng s => Crossover.cross_extends a.root b.root rng s)
    fun crossing => ?_
  cases crossing with
  | offspring first second blocks =>
    refine .after (.apart fun _ => rfl) fun _ => .after (.apart fun _ => rfl) fun firstId =>
      .after (.apart fun _ => rfl) fun secondId => .pure ?_
    simp only [localized_cons]
    exact ⟨ha, hb, ha, hb, hnil⟩
  | alike =>
    refine .after (.apart fun _ => rfl) fun _ => .pure ?_
    simp only [localized_cons]
    exact ⟨ha, hb, hnil⟩

theorem gentle_mutateByOperator (settings : Settings α) {v : Variant α} (hv : v.stale = false) :
    Gentle (fun w => w.stale = false)
      (mutateByOperator settings v : StateM (Search α ω) (Variant α)) := by
  refine .after (.withStore fun rng s =>
    Mutation.mutate_extends v.root settings.operators settings.donorScope rng s)
    fun mutation => ?_
  cases mutation with
  | changed root operator description => exact .after (.apart fun _ => rfl) fun _ => .pure hv
  | unchanged => exact .after (.apart fun _ => rfl) fun _ => .pure hv
  | refused _ _ => exact .after (.apart fun _ => rfl) fun _ => .pure hv

theorem gentle_vary (settings : Settings α) {c : Collaborators α ω} (hc : c.oracle = none)
    {v : Variant α} (hv : v.stale = false) :
    Gentle (fun w => w.stale = false) (vary settings c v) := by
  unfold vary
  rw [hc]
  exact gentle_mutateByOperator settings hv

/-! ### The stages of a run -/

/-- No variant in hand waits for a localization; before the first run there is none to speak of. -/
def Stage.Localized : Stage α → Prop
  | .fresh _ => False
  | .between course population => Search.Localized (course.original :: population)
  | .crossing course bred parents => Search.Localized (course.original :: (bred ++ parents))
  | .varying course done todo => Search.Localized (course.original :: (done ++ todo))
  | .rating course done todo => Search.Localized (course.original :: (done ++ todo))
  | .batch course generation results jobs =>
    Search.Localized (course.original :: (generation ++ jobs.map (·.2))) ∧
      ∀ job v, (job, .ok v) ∈ results → v.stale = false
  | .over _ => True

theorem gentle_over (result : StateM (Search α ω) (RunReport α))
    (h : ∀ s, (result s).2.bench.store = s.bench.store) :
    Gentle Stage.Localized (do return .over (.ok (← result))) :=
  .after (.apart h) fun _ => .pure trivial

theorem gentle_giveUp (outcome : Outcome) (course : Course α) :
    Gentle Stage.Localized (giveUp outcome course : StateM (Search α ω) (Stage α)) :=
  .after (.apart fun _ => rfl) fun _ => gentle_over _ fun _ => rfl

theorem gentle_closing {course : Course α} {population : List (Variant α)}
    (h : Localized (course.original :: population)) (fix : Option (Variant α)) :
    Gentle Stage.Localized (closing course population fix : StateM (Search α ω) (Stage α)) := by
  cases fix with
  | some fix => exact gentle_over _ fun _ => rfl
  | none => exact .after (.apart fun _ => rfl) fun _ => .pure h

omit [Scalar α] in
theorem localized_assessing (settings : Settings α) (c : Collaborators α ω) {course : Course α}
    {generation : List (Variant α)} (h : Localized (course.original :: generation)) :
    (assessing settings c course generation).Localized := by
  unfold assessing
  split
  · obtain ⟨horiginal, hgeneration⟩ := localized_cons.mp h
    refine ⟨localized_cons.mpr ⟨horiginal, localized_append.mpr ⟨hgeneration, ?_⟩⟩, nofun⟩
    intro v hv
    obtain ⟨job, hjob, rfl⟩ := List.mem_map.mp hv
    have hplace := (jobs_spec c.schedule course.generation _).2 job hjob
    exact hgeneration _ (List.mem_filter.mp (List.mem_of_getElem? hplace)).1
  · exact h

omit [Scalar α] in
/-- The variants of a batch come out of the results or were there before. -/
theorem mem_of_settle {results : List (Nat × Except RepairFault (Variant α))} {job : Nat}
    {generation evaluated : List (Variant α)} (h : settle results job generation = .ok evaluated) :
    ∀ v ∈ evaluated, v ∈ generation ∨ ∃ j, (j, .ok v) ∈ results := by
  induction generation generalizing job evaluated with
  | nil =>
    obtain rfl := Except.ok.inj h
    exact nofun
  | cons w generation ih =>
    -- whatever becomes of the first one, the others are settled on their own
    have hcons {job : Nat} {w' : Variant α}
        (hw' : w' ∈ w :: generation ∨ ∃ j, (j, .ok w') ∈ results)
        (h : (settle results job generation).map (w' :: ·) = .ok evaluated) :
        ∀ v ∈ evaluated, v ∈ w :: generation ∨ ∃ j, (j, .ok v) ∈ results := by
      obtain ⟨rest, hrest, rfl⟩ := exists_of_map_eq_ok h
      intro v hv
      obtain rfl | hv := List.mem_cons.mp hv
      · exact hw'
      · exact (ih hrest v hv).imp_left (List.mem_cons_of_mem w)
    unfold settle at h
    split at h
    · exact hcons (Or.inl List.mem_cons_self) h
    · split at h
      · cases h
      · next w' hlookup => exact hcons (Or.inr ⟨job, mem_of_lookup hlookup⟩) h
      · exact hcons (Or.inl List.mem_cons_self) h

variable [Root α] {settings : Settings α} {c : Collaborators α ω}

theorem gentle_evaluate {v : Variant α} (hv : v.stale = false) :
    Gentle (fun answer => ∀ a v', answer = .ok (a, v') → v'.stale = false)
      (onBench (Bench.evaluate c.executor v)) := by
  intro s
  obtain ⟨hstore, hanswer⟩ := Bench.evaluate_of_localized c.executor hv s.bench
  unfold onBench
  simp only []
  rw [hstore]
  exact ⟨Extends.refl _, fun a v' h => (hanswer a v' h).1⟩

theorem gentle_evaluateNext {v : Variant α} (hv : v.stale = false) :
    Gentle (fun answer => ∀ a v', answer = .ok (a, v') → v'.stale = false) (evaluateNext c v) := by
  refine .bind (gentle_evaluate hv) fun answer hanswer => ?_
  cases answer with
  | error e => exact .pure nofun
  | ok answer =>
    refine .after (.apart fun _ => rfl) fun _ => .after (.apart fun _ => rfl) fun _ => .pure ?_
    rintro a v' ⟨⟩
    exact hanswer _ _ rfl

theorem gentle_between {course : Course α} {population : List (Variant α)}
    (h : (Stage.between course population).Localized) :
    Gentle (fun after => after.1.Localized)
      ((Stage.between course population).next settings c :
        StateM (Search α ω) (Stage α × Option (Rating α))) := by
  obtain ⟨horiginal, hpopulation⟩ := localized_cons.mp h
  have hend (outcome : Outcome) : Gentle (fun after => after.1.Localized)
      (do return (← giveUp outcome course, none) :
        StateM (Search α ω) (Stage α × Option (Rating α))) :=
    .bind (gentle_giveUp outcome course) fun stage hstage => .pure hstage
  rw [Stage.next]
  cases course.remaining with
  | zero => exact hend .exhausted
  | succ remaining =>
    refine .after (.apart fun _ => rfl) fun cancelled => ?_
    cases cancelled with
    | true => exact hend .cancelled
    | false =>
      refine .after (.apart fun _ => rfl) fun _ =>
        .bind (gentle_selectParents settings hpopulation) fun parents hparents => .pure ?_
      exact localized_cons.mpr ⟨horiginal, hparents⟩

theorem gentle_crossing {course : Course α} {bred parents : List (Variant α)}
    (h : (Stage.crossing course bred parents).Localized) :
    Gentle (fun after => after.1.Localized)
      ((Stage.crossing course bred parents).next settings c :
        StateM (Search α ω) (Stage α × Option (Rating α))) := by
  obtain ⟨horiginal, hall⟩ := localized_cons.mp h
  have hlast {rest : List (Variant α)} (hrest : Localized (bred ++ rest)) :
      Gentle (fun after => after.1.Localized) (do
        let full ← refill settings course.original (bred ++ rest)
        return (.varying course [] full, none) :
          StateM (Search α ω) (Stage α × Option (Rating α))) :=
    .bind (gentle_refill settings horiginal hrest) fun full hfull =>
      .pure (localized_cons.mpr ⟨horiginal, hfull⟩)
  match parents, hall with
  | [], hall => exact hlast hall
  | [a], hall => exact hlast hall
  | a :: b :: rest, hall =>
    obtain ⟨hbred, hparents⟩ := localized_append.mp hall
    obtain ⟨ha, hparents⟩ := localized_cons.mp hparents
    obtain ⟨hb, hrest⟩ := localized_cons.mp hparents
    refine .bind (gentle_crossPair ha hb) fun family hfamily => .pure ?_
    exact localized_cons.mpr ⟨horiginal,
      localized_append.mpr ⟨localized_append.mpr ⟨hbred, hfamily⟩, hrest⟩⟩

omit [Scalar α] [Root α] in
/-- One variant of a line has been dealt with. -/
theorem localized_replace {original v w : Variant α} {done todo : List (Variant α)}
    (h : Localized (original :: (done ++ v :: todo))) (hw : w.stale = false) :
    Localized (original :: ((done ++ [w]) ++ todo)) := by
  simp only [localized_cons, localized_append] at h ⊢
  exact ⟨h.1, ⟨h.2.1, hw, nofun⟩, h.2.2.2⟩

theorem gentle_rating {course : Course α} {done todo : List (Variant α)}
    (h : (Stage.rating course done todo).Localized) :
    Gentle (fun after => after.1.Localized)
      ((Stage.rating course done todo).next settings c :
        StateM (Search α ω) (Stage α × Option (Rating α))) := by
  cases todo with
  | nil =>
    refine .bind (gentle_closing ?_ none) fun stage hstage => .pure hstage
    have hdone : Localized (course.original :: (done ++ [])) := h
    rwa [List.append_nil] at hdone
  | cons v todo =>
    have hv : v.stale = false := h v (by simp)
    rw [Stage.next]
    split
    · exact .pure (localized_replace h hv)
    · refine .bind (gentle_evaluateNext hv) fun answer hanswer => ?_
      rcases answer with e | ⟨a, v'⟩
      · exact .pure trivial
      · have hreplaced := localized_replace h (hanswer a v' rfl)
        simp only []
        split
        · refine .bind (gentle_closing ?_ (some v')) fun stage hstage => .pure hstage
          simpa using hreplaced
        · exact .pure hreplaced

theorem gentle_batch {course : Course α} {generation : List (Variant α)}
    {results : List (Nat × Except RepairFault (Variant α))} {jobs : List (Nat × Variant α)}
    (h : (Stage.batch course generation results jobs).Localized) :
    Gentle (fun after => after.1.Localized)
      ((Stage.batch course generation results jobs).next settings c :
        StateM (Search α ω) (Stage α × Option (Rating α))) := by
  obtain ⟨hall, hresults⟩ := h
  simp only [localized_cons, localized_append] at hall
  obtain ⟨horiginal, hgeneration, hjobs⟩ := hall
  cases jobs with
  | nil =>
    refine .after (.apart fun _ => rfl) fun _ => ?_
    cases hsettle : settle results 0 generation with
    | error e => exact .pure trivial
    | ok evaluated =>
      have hevaluated : Localized evaluated := fun v hv =>
        (mem_of_settle hsettle v hv).elim (hgeneration v) fun ⟨job, hjob⟩ => hresults job v hjob
      -- offers concern the best variant so far, not the marks
      have hoffers (vs : List (Variant α)) (b : Bench α ω) :
          (vs.foldl Bench.offer b).store = b.store := by
        induction vs generalizing b with
        | nil => rfl
        | cons v vs ih => exact ih (b.offer v)
      refine .after (.apart fun s => hoffers evaluated s.bench) fun _ =>
        .bind (gentle_closing (localized_cons.mpr ⟨horiginal, hevaluated⟩) _)
          fun stage hstage => .pure hstage
  | cons job jobs =>
    obtain ⟨hv, hjobs⟩ := localized_cons.mp hjobs
    refine .bind (gentle_evaluate hv) fun answer hanswer => .pure ⟨?_, fun i w hw => ?_⟩
    · simp only [localized_cons, localized_append]
      exact ⟨horiginal, hgeneration, hjobs⟩
    · obtain hw | hw := List.mem_append.mp hw
      · exact hresults i w hw
      · obtain ⟨-, hanswered⟩ := Prod.mk.inj (List.mem_singleton.mp hw)
        obtain ⟨⟨a, v'⟩, hok, rfl⟩ := exists_of_map_eq_ok hanswered.symm
        exact hanswer a v' hok

/-- A step of a run without an oracle writes no mark that was there. -/
theorem gentle_next (hc : c.oracle = none) {stage : Stage α} (h : stage.Localized) :
    Gentle (fun after => after.1.Localized)
      (stage.next settings c : StateM (Search α ω) (Stage α × Option (Rating α))) := by
  match stage with
  | .between course population => exact gentle_between h
  | .crossing course bred parents => exact gentle_crossing h
  | .varying course done [] =>
    refine .pure (localized_assessing settings c ?_)
    have hdone : Localized (course.original :: (done ++ [])) := h
    rwa [List.append_nil] at hdone
  | .varying course done (v :: todo) =>
    exact .bind (gentle_vary settings hc (h v (by simp))) fun w hw =>
      .pure (localized_replace h hw)
  | .rating course done todo => exact gentle_rating h
  | .batch course generation results jobs => exact gentle_batch h
  | .over result => exact .pure trivial

/-! ## A run -/

/-- The first run takes the marks along as it left them, and no variant waits. -/
theorem opening_spec (hvalid : settings.validate = .ok ()) (root : Node) (s : Search α ω) :
    (opening settings c root s).2.bench.store = (s.bench.establish c.executor root).2.store ∧
      (opening settings c root s).1.1.Localized := by
  rcases hes : s.bench.establish c.executor root with ⟨fault | a, b⟩
  · obtain ⟨result, s', hopening, rfl, -⟩ := opening_of_error hvalid hes
    rw [hopening]
    exact ⟨rfl, trivial⟩
  · cases hb : b.evaluator.baseline with
    | none =>
      rw [opening_of_no_baseline hvalid hes hb]
      exact ⟨rfl, trivial⟩
    | some base =>
      rw [opening_of_ok hvalid hes hb]
      unfold embark
      simp only []
      rw [bind_apply, bind_apply]
      split
      · exact ⟨rfl, trivial⟩
      · refine ⟨rfl, fun v hv => ?_⟩
        rw [List.mem_singleton.mp hv]
        rfl

/-- After the first run the marks that it left stay, up to any moment. -/
theorem extends_iterate (hc : c.oracle = none) (hvalid : settings.validate = .ok ()) (root : Node)
    (s : Search α ω) (n : Nat) :
    (s.bench.establish c.executor root).2.store.Extends
        ((step settings c)^[n + 1] (start root s)).search.bench.store ∧
      ((step settings c)^[n + 1] (start root s)).stage.Localized := by
  induction n with
  | zero =>
    obtain ⟨hstore, hstage⟩ := opening_spec hvalid root s
    refine ⟨?_, hstage⟩
    rw [← hstore]
    exact Extends.refl _
  | succ n ih =>
    rw [Function.iterate_succ_apply']
    obtain ⟨hgrown, hstage⟩ := ih
    have hstep : Gentle (fun after => after.1.Localized)
        (((step settings c)^[n + 1] (start root s)).stage.next settings c) := gentle_next hc hstage
    obtain ⟨hgrown', hstage'⟩ := hstep ((step settings c)^[n + 1] (start root s)).search
    exact ⟨hgrown.trans hgrown', hstage'⟩

/-- They stay up to the end of the run, which is one of the moments and not the first one. -/
theorem extends_run (hc : c.oracle = none) (hvalid : settings.validate = .ok ()) (root : Node)
    (s : Search α ω) :
    (s.bench.establish c.executor root).2.store.Extends
      (run settings c root s).2.bench.store := by
  obtain ⟨n, ratings, hn⟩ := iterate_step_start settings c root s
  cases n with
  | zero => cases congrArg Moment.stage hn
  | succ n =>
    have hend := (extends_iterate hc hvalid root s n).1
    rwa [hn] at hend

end Search

/-! ## Undisturbed nodes -/

/-- Nothing about the nodes that were there has changed: their marks are as they were, and whatever
has their identity has their kind, children, token and position. -/
structure Store.Undisturbed (s s' : Store α) (programs made : List Node) : Prop where
  mark_eq : ∀ id < s.next, s'.mark id = s.mark id
  node_eq : ∀ n, HasNode programs n → ∀ t ∈ made ++ programs, ∀ m ∈ t.preorder,
    m.id = n.id → m = n
  forest : s'.Forest (made ++ programs)

theorem Store.Spares.undisturbed {s s' : Store α} {programs made : List Node}
    (h : s.Spares s' programs made) : s.Undisturbed s' programs made := by
  refine ⟨h.grown.mark_eq, fun n hn t ht m hm hid => ?_, h.forest⟩
  exact h.forest.eq ⟨t, ht, hm⟩ (hasNode_append.mpr (Or.inr hn)) hid

/-- A program has the same suspicious statements, and the same marks everywhere. -/
structure Store.AgreeOn (root : Node) (s s' : Store α) : Prop where
  suspects_eq : s'.suspects root = s.suspects root
  mark_eq : ∀ n ∈ root.preorder, s'.mark n.id = s.mark n.id

theorem Store.AgreeOn.of_mark_eq {s s' : Store α} {root : Node}
    (h : ∀ n ∈ root.preorder, s'.mark n.id = s.mark n.id) : AgreeOn root s s' := by
  refine ⟨List.filter_congr fun n hn => ?_, h⟩
  unfold isSuspect suspicion
  rw [h n hn]

theorem Store.Extends.agreeOn {s s' : Store α} {root : Node} (h : s.Extends s')
    (hs : s.Holds root) : AgreeOn root s s' :=
  .of_mark_eq fun n hn => h.mark_eq n.id (hs n hn)

namespace Search

variable [Root α]

/-- Whatever the search does with programs that are there, apart from localizing, it changes nothing
about their nodes. So in a run without an oracle the program under repair keeps its suspicious
statements and their scores, from the end of the first run at every moment up to the end. -/
theorem search_undisturbed (c : Collaborators α ω) :
    (∀ (programs made : List Node) (b b' : Bench α ω), b.store.Forest programs →
      Bench.Operation c.executor programs b b' made →
        b.store.Undisturbed b'.store programs made) ∧
      (c.oracle = none → ∀ (settings : Settings α) (root : Node) (s : Search α ω),
        settings.validate = .ok () → s.bench.store.Holds root →
          let opened := (s.bench.establish c.executor root).2.store
          (∀ n, opened.AgreeOn root
            ((step settings c)^[n + 1] (start root s)).search.bench.store) ∧
          opened.AgreeOn root (run settings c root s).2.bench.store) := by
  refine ⟨fun programs made b b' hforest hop => (hop.spares hforest).undisturbed,
    fun hc settings root s hvalid hroot => ?_⟩
  intro opened
  have hopened : opened.Holds root := by
    have hnext := (Bench.writes_establish (Localization.writes_annotates root) c.executor
      s.bench).next_eq
    exact hroot.mono (Nat.le_of_eq hnext.symm)
  exact ⟨fun n => (extends_iterate hc hvalid root s n).1.agreeOn hopened,
    (extends_run hc hvalid root s).agreeOn hopened⟩

/-- An executor for which a test always fails, no oracle, and nobody who cancels. -/
def withoutOracle : Collaborators Rat Unit :=
  ⟨⟨fun _ _ _ _ before => (.ok ⟨[.fail ⟨"T", "broken"⟩ "no"], none⟩, before)⟩, none,
    fun memory => (false, memory), .inOrder, 0⟩

open Crossover.TwoMethods in
/-- The two methods, before a mutation of theirs and before a run. -/
def methodsBench : Bench Rat Unit := ⟨.new .standard .keepAll, marks, .empty, ()⟩

open Crossover.TwoMethods in
theorem forest_twoMethods : methodsBench.store.Forest [program] :=
  .of_nodup holds_program (by decide)

open Crossover.TwoMethods in
/-- A mutation of the two methods, and a run of one generation on them. -/
theorem search_undisturbed_twoMethods : ∃ _ : Root Rat,
    let mutation := Mutation.mutate program [.delete, .insertBefore] .program (.ofList [])
    let settings : Settings Rat := ⟨2, 1, 0, .program, [.delete], false, some 0⟩
    methodsBench.store.Forest [program] ∧
      Bench.Operation withoutOracle.executor [program] methodsBench
        { methodsBench with store := (mutation marks).2 } (mutation marks).1.1.offspring ∧
      marks.Undisturbed (mutation marks).2 [program] (mutation marks).1.1.offspring ∧
      withoutOracle.oracle = none ∧ settings.validate = .ok () ∧ marks.Holds program ∧
      (∀ n, (methodsBench.establish withoutOracle.executor program).2.store.AgreeOn program
        ((step settings withoutOracle)^[n + 1]
          (start program (.new methodsBench))).search.bench.store) ∧
      (methodsBench.establish withoutOracle.executor program).2.store.AgreeOn program
        (run settings withoutOracle program (.new methodsBench)).2.bench.store := by
  let _ : Root Rat := ⟨id⟩
  have hop : Bench.Operation withoutOracle.executor [program] methodsBench
      { methodsBench with
        store := (Mutation.mutate program [.delete, .insertBefore] .program (.ofList []) marks).2 }
      _ := .mutate List.mem_cons_self [.delete, .insertBefore] .program (.ofList [])
  obtain ⟨hoperation, hrun⟩ := search_undisturbed withoutOracle
  obtain ⟨hmoments, hend⟩ := hrun rfl ⟨2, 1, 0, .program, [.delete], false, some 0⟩ program
    (.new methodsBench) (by decide) holds_program
  exact ⟨_, forest_twoMethods, hop, hoperation _ _ _ _ forest_twoMethods hop, rfl, by decide,
    holds_program, hmoments, hend⟩

end Search

end GeneticRepair
