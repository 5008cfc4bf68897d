import GeneticRepair.Proofs.Evolution.Descent
import GeneticRepair.Proofs.Evolution.Questions

/-!
# `Proofs/Evolution/Borrowed.lean` — whose failing tests an oracle is shown

A variant that has been evaluated is shown with the tests that failed on its program. But a
generation is varied before it is evaluated, and it has variants in it that have not been: the
children of crossings. Such a child has a program that nobody has run so far, and the failing tests
of the parent from which it was made (`Variant.Borrows`). The oracle is told those, and it is told
nothing else (`run_of_alike`).

* `Informed.next`: what is known of the variants in hand, step by step.
* `shown_rated_iff`: a program is shown with its own failing tests exactly if the variant has been
  evaluated, and otherwise with those of a parent.
-/

set_option autoImplicit false

namespace GeneticRepair

variable {α ω : Type}

/-- What the oracle says about a variant is made as all programs are, of nodes that there are and of
nodes that are added to them. -/
structure Oracle.Fair (oracle : Oracle α ω) (v : Variant α) (b : Bench α ω) : Prop where
  next_le : b.store.next ≤ (oracle.propose v.root v.failing (b.store, b.memory)).2.1.next
  holds : b.store.Holds v.root →
    ∀ root, (oracle.propose v.root v.failing (b.store, b.memory)).1 = .ok (some root) →
      (oracle.propose v.root v.failing (b.store, b.memory)).2.1.Holds root

namespace Variant

variable {ratings : List (Search.Rating α)} {v w : Variant α}

/-- The fitness and the failing tests of the variant are what its program has been rated with. -/
def OnRecord (ratings : List (Search.Rating α)) (v : Variant α) : Prop :=
  ∃ fitness, v.fitness = some fitness ∧ ⟨v.root, fitness, v.failing⟩ ∈ ratings

/-- The fitness of the variant, if it has one, goes with its failing tests. -/
def Truthful (ratings : List (Search.Rating α)) (v : Variant α) : Prop :=
  v.fitness = none ∨ v.OnRecord ratings

theorem OnRecord.mono (h : v.OnRecord ratings) (more : List (Search.Rating α)) :
    v.OnRecord (ratings ++ more) := by
  obtain ⟨fitness, hfitness, hmem⟩ := h
  exact ⟨fitness, hfitness, List.mem_append_left more hmem⟩

theorem OnRecord.copies (h : w.OnRecord ratings) (hv : v.Copies w) : v.OnRecord ratings := by
  obtain ⟨fitness, hfitness, hmem⟩ := h
  refine ⟨fitness, hv.fitness_eq.trans hfitness, ?_⟩
  rwa [hv.root_eq, hv.failing_eq]

theorem Truthful.mono (h : v.Truthful ratings) (more : List (Search.Rating α)) :
    v.Truthful (ratings ++ more) := h.imp_right fun hrated => hrated.mono more

theorem Truthful.onRecord (h : v.Truthful ratings) (hscored : v.fitness.isSome = true) :
    v.OnRecord ratings := by
  refine h.resolve_left fun hnone => ?_
  rw [hnone] at hscored
  cases hscored

variable [Scalar α]

/-- The program of the variant is a child of two rated ones, and its failing tests are those of the
one that it was made from. -/
inductive Child (ratings : List (Search.Rating α)) (v : Variant α) : Prop where
  | first {own other : Search.Rating α} {sibling : Node} {blocks : Nat} {rng rng' : WordStream}
    {store store' : Store α} (own_mem : own ∈ ratings) (other_mem : other ∈ ratings)
    (made : Crossover.cross own.root other.root rng store =
      ((.offspring v.root sibling blocks, rng'), store'))
    (failing_eq : v.failing = own.failing)
  | second {own other : Search.Rating α} {sibling : Node} {blocks : Nat} {rng rng' : WordStream}
    {store store' : Store α} (own_mem : own ∈ ratings) (other_mem : other ∈ ratings)
    (made : Crossover.cross other.root own.root rng store =
      ((.offspring sibling v.root blocks, rng'), store'))
    (failing_eq : v.failing = own.failing)

/-- The variant has the failing tests of a parent, and no program like its own has been rated. -/
structure Borrows (ratings : List (Search.Rating α)) (v : Variant α) : Prop where
  unscored : v.fitness = none
  unrated : ∀ r ∈ ratings, r.root.id ≠ v.root.id
  child : v.Child ratings

/-- The variant has failing tests of its own, or of a parent. -/
def Sourced (ratings : List (Search.Rating α)) (v : Variant α) : Prop :=
  v.OnRecord ratings ∨ v.Borrows ratings

theorem Sourced.truthful (h : v.Sourced ratings) : v.Truthful ratings :=
  h.elim .inr fun hborrows => .inl hborrows.unscored

end Variant

namespace Search

/-! ## Programs that have been made -/

/-- All programs of the variants have been made, and something holds of the variants. -/
def Housed (store : Store α) (P : Variant α → Prop) (vs : List (Variant α)) : Prop :=
  ∀ v ∈ vs, store.Holds v.root ∧ P v

section

variable {store store' : Store α} {P Q : Variant α → Prop} {v : Variant α}
  {vs ws : List (Variant α)}

theorem housed_nil : Housed store P [] := nofun

theorem housed_cons : Housed store P (v :: vs) ↔
    (store.Holds v.root ∧ P v) ∧ Housed store P vs := List.forall_mem_cons

theorem housed_append : Housed store P (vs ++ ws) ↔ Housed store P vs ∧ Housed store P ws :=
  List.forall_mem_append

theorem Housed.mono (h : Housed store P vs) (hnext : store.next ≤ store'.next)
    (hP : ∀ v, P v → Q v) : Housed store' Q vs :=
  fun v hv => ⟨(h v hv).1.mono hnext, hP v (h v hv).2⟩

end

variable [Scalar α]

/-- What is known of the variants in hand. Whoever waits for a parent, or is one, has been rated, and
whoever waits to be varied has at least the failing tests of a parent. -/
def Stage.Ready (ratings : List (Rating α)) (store : Store α) : Stage α → Prop
  | .fresh _ => False
  | .over _ => False
  | .between course population =>
    Housed store (Variant.OnRecord ratings) [course.original] ∧
      Housed store (Variant.Truthful ratings) population
  | .crossing course bred parents =>
    Housed store (Variant.OnRecord ratings) (course.original :: parents) ∧
      Housed store (Variant.Sourced ratings) bred
  | .varying course done todo =>
    Housed store (Variant.OnRecord ratings) [course.original] ∧
      Housed store (Variant.Truthful ratings) done ∧ Housed store (Variant.Sourced ratings) todo
  | .rating course done todo =>
    Housed store (Variant.OnRecord ratings) [course.original] ∧
      Housed store (Variant.Truthful ratings) (done ++ todo)
  | .batch course generation results jobs =>
    Housed store (Variant.OnRecord ratings) [course.original] ∧
      Housed store (Variant.Truthful ratings) (generation ++ jobs.map (·.2)) ∧
      ∀ job v, (job, .ok v) ∈ results → store.Holds v.root ∧ v.Truthful ratings

/-- What is known of a run that goes on. -/
structure Informed (ratings : List (Rating α)) (store : Store α) (stage : Stage α) : Prop where
  made : ∀ r ∈ ratings, r.root.id < store.next
  ready : stage.Ready ratings store

variable {settings : Settings α} {c : Collaborators α ω} {s s' : Search α ω}
  {stage stage' : Stage α} {ratings : List (Rating α)}

theorem Informed.step {store store' : Store α} {rating : Option (Rating α)}
    (h : Informed ratings store stage) (hnext : store.next ≤ store'.next)
    (hrating : ∀ r ∈ rating, store.Holds r.root)
    (hstage : stage'.Ready (ratings ++ rating.toList) store') :
    Informed (ratings ++ rating.toList) store' stage' := by
  refine ⟨fun r hr => Nat.lt_of_lt_of_le ?_ hnext, hstage⟩
  refine (List.mem_append.mp hr).elim (h.made r) fun hr => ?_
  exact hrating r (Option.mem_toList.mp hr) r.root (Node.self_mem_preorder r.root)

/-- A step without a rating. -/
theorem Informed.unrated {store store' : Store α} (h : Informed ratings store stage)
    (hnext : store.next ≤ store'.next) (hstage : stage'.Ready ratings store') :
    Informed (ratings ++ (none : Option (Rating α)).toList) store' stage' := by
  refine h.step hnext nofun ?_
  rwa [Option.toList_none, List.append_nil]

/-! ## Breeding and varying -/

/-- A parent stays as it is, and its child has its failing tests and a program that has not been
there. -/
theorem sourced_crossed {a b x y : Variant α} {first second : Node} {blocks : Nat}
    {rng rng' : WordStream} {store store' : Store α} (hmade : ∀ r ∈ ratings, r.root.id < store.next)
    (hparents : Housed store (Variant.OnRecord ratings) [a, b])
    (hcross : Crossover.cross a.root b.root rng store =
      ((.offspring first second blocks, rng'), store'))
    (hx : x.Renews a first) (hy : y.Renews b second) :
    Housed store' (Variant.Sourced ratings) [a, b, x, y] := by
  obtain ⟨⟨ha, hrated⟩, hlast⟩ := housed_cons.mp hparents
  obtain ⟨⟨hb, hrated'⟩, -⟩ := housed_cons.mp hlast
  have hgrown := Crossover.cross_extends a.root b.root rng store
  have hstems := Crossover.stems_cross rng ha hb
  have hnew := Crossover.new_cross rng ha hb
  rw [hcross] at hgrown hstems hnew
  obtain ⟨hx', hy'⟩ := List.forall_mem_cons.mp hstems
  obtain ⟨hfirst, hsecond⟩ := List.forall_mem_cons.mp hnew
  have hunrated {v : Variant α} (hv : store.next ≤ v.root.id) :
      ∀ r ∈ ratings, r.root.id ≠ v.root.id := fun r hr =>
    Nat.ne_of_lt (Nat.lt_of_lt_of_le (hmade r hr) hv)
  obtain ⟨_, -, hown⟩ := hrated
  obtain ⟨_, -, hown'⟩ := hrated'
  obtain ⟨rfl, hunscored, hfailing⟩ := hx
  obtain ⟨rfl, hunscored', hfailing'⟩ := hy
  have hsecond := hsecond y.root (List.mem_singleton_self _)
  have hstay : Housed store' (Variant.Sourced ratings) [a, b] :=
    hparents.mono hgrown.next_le fun v hv => .inl hv
  refine housed_append.mpr ⟨hstay, housed_cons.mpr ⟨?_, housed_cons.mpr ⟨?_, housed_nil⟩⟩⟩
  · exact ⟨fun m hm => (hx'.comes m hm).lt_next,
      .inr ⟨hunscored, hunrated hfirst, .first hown hown' hcross hfailing⟩⟩
  · exact ⟨fun m hm => ((hy' y.root (List.mem_singleton_self _)).comes m hm).lt_next,
      .inr ⟨hunscored', hunrated hsecond, .second hown' hown hcross hfailing'⟩⟩

/-- One pair of parents has been dealt with. -/
theorem ready_crossing {course : Course α} {bred family rest : List (Variant α)} {a b : Variant α}
    {store store' : Store α} (h : (Stage.crossing course bred (a :: b :: rest)).Ready ratings store)
    (hnext : store.next ≤ store'.next)
    (hfamily : Housed store (Variant.OnRecord ratings) [a, b] →
      Housed store' (Variant.Sourced ratings) family) :
    (Stage.crossing course (bred ++ family) rest).Ready ratings store' := by
  obtain ⟨hparents, hbred⟩ := h
  simp only [housed_cons] at hparents
  obtain ⟨horiginal, ha, hb, hrest⟩ := hparents
  have hpair := hfamily (housed_cons.mpr ⟨ha, housed_cons.mpr ⟨hb, housed_nil⟩⟩)
  exact ⟨(housed_cons.mpr ⟨horiginal, hrest⟩).mono hnext fun v hv => hv,
    housed_append.mpr ⟨hbred.mono hnext fun v hv => hv, hpair⟩⟩

/-- A variant that is changed has a program that has been made, and its fitness is open. -/
theorem truthful_turn {v w : Variant α} (hholds : s.bench.store.Holds v.root)
    (hv : v.Truthful ratings)
    (hfair : ∀ oracle, c.oracle = some oracle →
      (WordStream.chance settings.oracleProbability s.rng).1 = true → oracle.Fair v s.bench)
    (hturn : Turn settings c s v w s') :
    s.bench.store.next ≤ s'.bench.store.next ∧
      Housed s'.bench.store (Variant.Truthful ratings) [w] := by
  cases hturn with
  | spared _ grown => exact ⟨grown.next_le, housed_cons.mpr ⟨⟨hholds.mono grown.next_le, hv⟩, nofun⟩⟩
  | @mutated _ _ _ _ _ rng _ _ made renews =>
    have hgrown := Mutation.mutate_extends v.root settings.operators settings.donorScope rng
      s.bench.store
    have hstems := Mutation.stems_mutate hholds made
    rw [made] at hgrown
    refine ⟨hgrown.next_le, housed_cons.mpr ⟨⟨?_, .inl renews.fitness_eq⟩, nofun⟩⟩
    rw [renews.root_eq]
    exact fun m hm => (hstems.comes m hm).lt_next
  | missed _ attached asked said =>
    have hnext := (hfair _ attached asked).next_le
    rw [said] at hnext
    exact ⟨hnext, housed_cons.mpr ⟨⟨hholds.mono hnext, hv⟩, nofun⟩⟩
  | proposed _ attached asked said renews =>
    obtain ⟨hnext, hproposal⟩ := hfair _ attached asked
    rw [said] at hnext hproposal
    refine ⟨hnext, housed_cons.mpr ⟨⟨?_, .inl renews.fitness_eq⟩, nofun⟩⟩
    rw [renews.root_eq]
    exact hproposal hholds _ rfl

variable [Root α]

/-! ## Evaluating -/

/-- An evaluation makes no node, and a variant that has been evaluated is as its program has been
rated. -/
theorem housed_evaluate (ratings : List (Rating α)) {v : Variant α} {b b' : Bench α ω}
    {answer : Except RepairFault (Assessment α × Variant α)} (hholds : b.store.Holds v.root)
    (hev : b.evaluate c.executor v = (answer, b')) :
    b.store.next ≤ b'.store.next ∧ ∀ a w, answer = .ok (a, w) →
      b'.store.Holds w.root ∧ w.Truthful (ratings ++ [⟨v.root, a.fitness, a.failing⟩]) := by
  have hwrites := Bench.writes_evaluate (Localization.writes_annotates v.root) c.executor b
  rw [hev] at hwrites
  have hle : b.store.next ≤ b'.store.next := Nat.le_of_eq hwrites.next_eq.symm
  refine ⟨hle, ?_⟩
  rintro a w rfl
  obtain ⟨stale, rfl⟩ := Bench.assessed_of_evaluate hev
  refine ⟨hholds.mono hle, .inr ⟨a.fitness, rfl, ?_⟩⟩
  exact List.mem_append_right ratings (List.mem_singleton_self _)

omit [Root α] in
theorem ready_assessing {course : Course α} {generation : List (Variant α)} {store : Store α}
    (horiginal : Housed store (Variant.OnRecord ratings) [course.original])
    (h : Housed store (Variant.Truthful ratings) generation) :
    (assessing settings c course generation).Ready ratings store := by
  unfold assessing
  split
  · refine ⟨horiginal, housed_append.mpr ⟨h, fun v hv => ?_⟩, nofun⟩
    obtain ⟨job, hjob, rfl⟩ := List.mem_map.mp hv
    have hplace := (jobs_spec c.schedule course.generation _).2 job hjob
    exact h _ (List.mem_filter.mp (List.mem_of_getElem? hplace)).1
  · exact ⟨horiginal, h⟩

/-! ## A run -/

/-- After the first run the program under repair has been rated. -/
theorem Informed.founded {root : Node} {a : Assessment α} {b : Bench α ω} {base : Baseline α}
    {original : Variant α} (hroot : s.bench.store.Holds root)
    (hes : s.bench.establish c.executor root = (.ok a, b))
    (horiginal : original = (Variant.new 0 root).assess a.fitness a.failing)
    (hs' : s'.bench = b.offer original) :
    Informed [⟨root, a.fitness, a.failing⟩] s'.bench.store
      (.between ⟨original, base.maximum, 1, settings.maxGenerations⟩ []) := by
  have hnext := (Bench.writes_establish (Localization.writes_annotates root) c.executor
    s.bench).next_eq
  rw [hes] at hnext
  have hholds : s'.bench.store.Holds root := by
    rw [hs', Bench.offer_eq]
    exact hroot.mono (Nat.le_of_eq hnext.symm)
  refine ⟨List.forall_mem_singleton.mpr (hholds root (Node.self_mem_preorder root)), ?_, nofun⟩
  subst horiginal
  exact housed_cons.mpr ⟨⟨hholds, a.fitness, rfl, List.mem_singleton_self _⟩, nofun⟩

namespace Informed

variable {course : Course α} {gained : Option (Rating α)}

theorem between {population : List (Variant α)}
    (h : Informed ratings s.bench.store (.between course population))
    (hrelay : Relay settings c s (.between course population) stage' gained s') :
    (∃ result, stage' = .over result) ∨
      Informed (ratings ++ gained.toList) s'.bench.store stage' := by
  obtain ⟨horiginal, hpopulation⟩ := h.ready
  cases hrelay with
  | ended => exact .inl ⟨_, rfl⟩
  | entered chosen _ store =>
    rw [store]
    refine .inr (h.unrated (Nat.le_refl _) ⟨?_, housed_nil⟩)
    refine housed_cons.mpr ⟨(housed_cons.mp horiginal).1, fun v hv => ?_⟩
    obtain ⟨w, hw, hviable, hcopies⟩ := chosen v hv
    obtain ⟨hholds, htruthful⟩ := hpopulation w hw
    -- nobody is viable without a fitness, so every parent is on record
    rw [hcopies.root_eq]
    exact ⟨hholds, (htruthful.onRecord (isSome_of_isViable hviable)).copies hcopies⟩

theorem crossing {bred parents : List (Variant α)}
    (h : Informed ratings s.bench.store (.crossing course bred parents))
    (hrelay : Relay settings c s (.crossing course bred parents) stage' gained s') :
    (∃ result, stage' = .over result) ∨
      Informed (ratings ++ gained.toList) s'.bench.store stage' := by
  have hready := h.ready
  cases hrelay with
  | ended => exact .inl ⟨_, rfl⟩
  | @crossed _ _ _ a b _ _ _ _ _ _ _ _ made renews renews' =>
    have hgrown := Crossover.cross_extends a.root b.root s.rng s.bench.store
    rw [made] at hgrown
    exact .inr (h.unrated hgrown.next_le (ready_crossing hready hgrown.next_le fun hparents =>
      sourced_crossed h.made hparents made renews renews'))
  | alike _ grown =>
    exact .inr (h.unrated grown.next_le (ready_crossing hready grown.next_le fun hparents =>
      hparents.mono grown.next_le fun v hv => .inl hv))
  | filled copied _ store =>
    obtain ⟨hparents, hbred⟩ := hready
    obtain ⟨horiginal, hrest⟩ := housed_cons.mp hparents
    rw [store]
    refine .inr (h.unrated (Nat.le_refl _)
      ⟨housed_cons.mpr ⟨horiginal, housed_nil⟩, housed_nil, ?_⟩)
    refine housed_append.mpr ⟨housed_append.mpr ⟨hbred, fun v hv => ?_⟩, fun v hv => ?_⟩
    · exact ⟨(hrest v hv).1, .inl (hrest v hv).2⟩
    · have hcopies := copied v hv
      rw [hcopies.root_eq]
      exact ⟨horiginal.1, .inl (horiginal.2.copies hcopies)⟩

theorem varying {done todo : List (Variant α)}
    (h : Informed ratings s.bench.store (.varying course done todo))
    (hfair : ∀ oracle, c.oracle = some oracle → ∀ v,
      (⟨s, .varying course done todo, ratings⟩ : Moment α ω).shown settings c = some v →
        oracle.Fair v s.bench)
    (hrelay : Relay settings c s (.varying course done todo) stage' gained s') :
    (∃ result, stage' = .over result) ∨
      Informed (ratings ++ gained.toList) s'.bench.store stage' := by
  obtain ⟨horiginal, hdone, htodo⟩ := h.ready
  cases hrelay with
  | ended => exact .inl ⟨_, rfl⟩
  | varied turn =>
    obtain ⟨⟨hholds, hsourced⟩, htodo⟩ := housed_cons.mp htodo
    -- being varied, it leaves those that may be shown: from here on it need not be `Sourced`
    have hasked (oracle : Oracle α ω) (ho : c.oracle = some oracle)
        (hchance : (WordStream.chance settings.oracleProbability s.rng).1 = true) :=
      hfair oracle ho _ (shown_of_asked ho hchance)
    obtain ⟨hnext, hw⟩ := truthful_turn hholds hsourced.truthful hasked turn
    exact .inr (h.unrated hnext ⟨horiginal.mono hnext fun v hv => hv,
      housed_append.mpr ⟨hdone.mono hnext fun v hv => hv, hw⟩, htodo.mono hnext fun v hv => hv⟩)
  | handed => exact .inr (h.unrated (Nat.le_refl _) (ready_assessing horiginal hdone))

theorem rating {done todo : List (Variant α)}
    (h : Informed ratings s.bench.store (.rating course done todo))
    (hrelay : Relay settings c s (.rating course done todo) stage' gained s') :
    (∃ result, stage' = .over result) ∨
      Informed (ratings ++ gained.toList) s'.bench.store stage' := by
  obtain ⟨horiginal, hall⟩ := h.ready
  cases hrelay with
  | ended => exact .inl ⟨_, rfl⟩
  | passed =>
    refine .inr (h.unrated (Nat.le_refl _) ⟨horiginal, ?_⟩)
    rwa [List.append_assoc]
  | @rated _ _ _ v _ _ _ _ evaluated _ bench =>
    obtain ⟨hdone, htodo⟩ := housed_append.mp hall
    obtain ⟨⟨hholds, -⟩, htodo⟩ := housed_cons.mp htodo
    obtain ⟨hle, hw⟩ := housed_evaluate ratings hholds evaluated
    rw [bench, Bench.offer_eq]
    refine .inr (h.step hle (fun r hr => Option.mem_some_iff.mp hr ▸ hholds)
      ⟨horiginal.mono hle fun v hv => hv.mono _, ?_⟩)
    rw [List.append_assoc]
    exact housed_append.mpr ⟨hdone.mono hle fun v hv => hv.mono _,
      housed_cons.mpr ⟨hw _ _ rfl, htodo.mono hle fun v hv => hv.mono _⟩⟩
  | closed bench =>
    rw [List.append_nil] at hall
    rw [bench]
    exact .inr (h.unrated (Nat.le_refl _) ⟨horiginal, hall⟩)

theorem batch {generation : List (Variant α)}
    {results : List (Nat × Except RepairFault (Variant α))} {jobs : List (Nat × Variant α)}
    (h : Informed ratings s.bench.store (.batch course generation results jobs))
    (hrelay : Relay settings c s (.batch course generation results jobs) stage' gained s') :
    (∃ result, stage' = .over result) ∨
      Informed (ratings ++ gained.toList) s'.bench.store stage' := by
  obtain ⟨horiginal, hall, hresults⟩ := h.ready
  obtain ⟨hgeneration, hjobs⟩ := housed_append.mp hall
  cases hrelay with
  | ended => exact .inl ⟨_, rfl⟩
  | worked evaluated =>
    obtain ⟨⟨hholds, -⟩, hjobs⟩ := housed_cons.mp hjobs
    obtain ⟨hle, hw⟩ := housed_evaluate ratings hholds evaluated
    refine .inr (h.step hle (fun r hr => ?_) ⟨horiginal.mono hle fun v hv => hv.mono _,
      (housed_append.mpr ⟨hgeneration, hjobs⟩).mono hle fun v hv => hv.mono _,
      fun job w hjob => ?_⟩)
    · obtain ⟨⟨a, w⟩, -, rfl⟩ := Option.map_eq_some_iff.mp hr
      exact hholds
    · obtain hjob | hjob := List.mem_append.mp hjob
      · exact ⟨(hresults job w hjob).1.mono hle, (hresults job w hjob).2.mono _⟩
      · obtain ⟨-, hanswer⟩ := Prod.mk.inj (List.mem_singleton.mp hjob)
        obtain ⟨⟨a, w⟩, rfl, rfl⟩ := exists_of_map_eq_ok hanswer.symm
        exact hw a w rfl
  | settled settled _ bench =>
    rw [bench, Bench.offers_eq]
    refine .inr (h.unrated (Nat.le_refl _) ⟨horiginal, fun v hv => ?_⟩)
    exact (mem_of_settle settled v hv).elim (hgeneration v) fun ⟨job, hjob⟩ => hresults job v hjob

/-- As long as the run goes on, this much is known of it. -/
theorem next (h : Informed ratings s.bench.store stage)
    (hfair : ∀ oracle, c.oracle = some oracle → ∀ v,
      (⟨s, stage, ratings⟩ : Moment α ω).shown settings c = some v → oracle.Fair v s.bench)
    (hrelay : Relay settings c s stage stage' gained s') :
    (∃ result, stage' = .over result) ∨
      Informed (ratings ++ gained.toList) s'.bench.store stage' := by
  cases stage with
  | fresh root => exact h.ready.elim
  | between course population => exact h.between hrelay
  | crossing course bred parents => exact h.crossing hrelay
  | varying course done todo => exact h.varying hfair hrelay
  | rating course done todo => exact h.rating hrelay
  | batch course generation results jobs => exact h.batch hrelay
  | _ => exact h.ready.elim

end Informed

theorem informed_iterate {root : Node} {s : Search α ω} (hroot : s.bench.store.Holds root)
    (hfair : ∀ oracle, c.oracle = some oracle → ∀ n v,
      ((step settings c)^[n] (start root s)).shown settings c = some v →
        oracle.Fair v ((step settings c)^[n] (start root s)).search.bench) (n : Nat) :
    let moment : Moment α ω := (step settings c)^[n + 1] (start root s)
    (∃ result, moment.stage = .over result) ∨
      Informed moment.ratings moment.search.bench.store moment.stage := by
  refine relay_iterate (P := fun s' stage ratings => Informed ratings s'.bench.store stage)
    settings c (fun stage rating s' hfirst => ?_) ?_ n
  · cases hfirst with
    | ended => exact .inl ⟨_, rfl⟩
    | founded established _ assessed _ bench => exact .inr (.founded hroot established assessed bench)
  · rintro k m stage' rating s' rfl h hrelay
    exact h.next (fun oracle ho v hv => hfair oracle ho k v hv) hrelay

/-- In every run, a variant that the oracle is shown has failing tests that its very program has been
rated with, exactly if its fitness is known. If it is not, the variant is a child of two rated
programs, no program with its identity has been rated, and the failing tests are those of the parent
that it was made from. All ratings are those of evaluations that took place before. -/
theorem shown_rated_iff {root : Node} {s : Search α ω} (hroot : s.bench.store.Holds root)
    (hfair : ∀ oracle, c.oracle = some oracle → ∀ n v,
      ((step settings c)^[n] (start root s)).shown settings c = some v →
        oracle.Fair v ((step settings c)^[n] (start root s)).search.bench) :
    let moment : Nat → Moment α ω := fun n => (step settings c)^[n] (start root s)
    ∀ n v, (moment n).shown settings c = some v →
      ((∃ r ∈ (moment n).ratings, r.root = v.root ∧ r.failing = v.failing) ↔
        v.fitness.isSome = true) ∧
      (v.fitness = none →
        (∀ r ∈ (moment n).ratings, r.root.id ≠ v.root.id) ∧ v.Child (moment n).ratings) ∧
      ∀ r ∈ (moment n).ratings, ∃ k < n, Rates c (moment k).search r := by
  intro moment n v hshown
  obtain ⟨course, done, todo, hstage⟩ := stage_of_shown hshown
  cases n with
  | zero => cases hstage
  | succ n =>
    obtain ⟨result, hover⟩ | hinformed := informed_iterate hroot hfair n
    · cases hover.symm.trans hstage
    · have hready := hinformed.ready
      rw [show ((step settings c)^[n + 1] (start root s)).stage = _ from hstage] at hready
      obtain ⟨-, hsourced⟩ := hready.2.2 v List.mem_cons_self
      have hrates := fun r (hr : r ∈ (moment (n + 1)).ratings) => exists_rates (n + 1) hr
      obtain ⟨fitness, hfitness, hmem⟩ | ⟨hnone, hunrated, hchild⟩ := hsourced
      · rw [hfitness]
        exact ⟨iff_of_true ⟨_, hmem, rfl, rfl⟩ rfl, nofun, hrates⟩
      · rw [hnone]
        refine ⟨iff_of_false ?_ nofun, fun _ => ⟨hunrated, hchild⟩, hrates⟩
        rintro ⟨r, hr, hroot, -⟩
        exact hunrated r hr (congrArg Node.id hroot)

end Search

/-! ## Two children -/

namespace Pruning

open Search

theorem fair_pruner (v : Variant Rat) (b : Bench Rat Nat) : pruner.Fair v b := by
  by_cases hcount : b.memory < 4
  · refine ⟨?_, fun hholds root hroot => ?_⟩
    · simp only [pruner, if_pos hcount]
      rw [Store.next_allocate]
      exact Nat.le_succ _
    · simp only [pruner, if_pos hcount] at hroot ⊢
      obtain rfl := Option.some.inj (Except.ok.inj hroot)
      intro m hm
      rw [Store.next_allocate]
      obtain rfl | ⟨child, hchild, hm⟩ := Node.mem_preorder_iff.mp hm
      · exact Nat.lt_succ_self _
      · have hchild := List.mem_of_mem_eraseIdx hchild
        exact Nat.lt_succ_of_lt (hholds m (Node.mem_preorder_of_mem_child hchild hm))
  · refine ⟨?_, fun _ root hroot => ?_⟩
    · simp only [pruner, if_neg hcount]
      exact Nat.le_refl _
    · simp only [pruner, if_neg hcount] at hroot
      cases hroot

/-- The first question of the second generation is about a variant that has been evaluated, the third
one is about a child. -/
theorem shown_rated_pruning : ∃ _ : Root Rat,
    let moment : Nat → Moment Rat Nat := fun n => (step settings team)^[n] (start program search)
    marks.Holds program ∧
    (∀ oracle, team.oracle = some oracle → ∀ n v, (moment n).shown settings team = some v →
      oracle.Fair v (moment n).search.bench) ∧
    (∃ v, (moment 16).shown settings team = some v ∧
      ∃ r ∈ (moment 16).ratings, r.root = v.root ∧ r.failing = v.failing) ∧
    ∃ v, (moment 18).shown settings team = some v ∧
      (∀ r ∈ (moment 18).ratings, r.root.id ≠ v.root.id) ∧ v.Child (moment 18).ratings := by
  let _ : Root Rat := ⟨id⟩
  have hholds : marks.Holds program := by
    show ∀ m ∈ program.preorder, m.id < marks.next
    decide
  have hfair (oracle : Oracle Rat Nat) (ho : team.oracle = some oracle) (n : Nat)
      (v : Variant Rat)
      (_ : ((step settings team)^[n] (start program search)).shown settings team = some v) :
      oracle.Fair v ((step settings team)^[n] (start program search)).search.bench := by
    obtain rfl := Option.some.inj ho
    exact fair_pruner v _
  have hscored : (((step settings team)^[16] (start program search)).shown settings team).map
      (·.fitness.isSome) = some true := by decide +kernel
  have hopen : (((step settings team)^[18] (start program search)).shown settings team).map
      (·.fitness.isSome) = some false := by decide +kernel
  obtain ⟨v, hv, hsome⟩ := Option.map_eq_some_iff.mp hscored
  obtain ⟨w, hw, hnone⟩ := Option.map_eq_some_iff.mp hopen
  have hshown := shown_rated_iff (s := search) hholds hfair
  refine ⟨_, hholds, hfair, ⟨v, hv, (hshown 16 v hv).1.mpr hsome⟩, w, hw, ?_⟩
  exact (hshown 18 w hw).2.1 (Option.not_isSome_iff_eq_none.mp (by rw [hnone]; nofun))

/-- The third question of the second generation is asked with two tests as failing, one of which
passes, and the one that fails besides is not told. There is no rating behind it. -/
theorem not_shown_own : ∃ _ : Root Rat,
    let moment : Moment Rat Nat := (step settings team)^[18] (start program search)
    ∃ v, moment.shown settings team = some v ∧
      v.failing.toList = [⟨"Test", "b"⟩, ⟨"Test", "c"⟩] ∧
      failures v.root = [⟨"Test", "a"⟩, ⟨"Test", "b"⟩] ∧
      ¬ ∃ r ∈ moment.ratings, r.root = v.root ∧ r.failing = v.failing := by
  let _ : Root Rat := ⟨id⟩
  let moment : Moment Rat Nat := (step settings team)^[18] (start program search)
  have hfacts : (moment.shown settings team).map (fun v => (v.failing.toList, failures v.root,
      decide (∃ r ∈ moment.ratings, r.root.id = v.root.id))) =
      some ([⟨"Test", "b"⟩, ⟨"Test", "c"⟩], [⟨"Test", "a"⟩, ⟨"Test", "b"⟩], false) := by
    decide +kernel
  obtain ⟨v, hv, hfacts⟩ := Option.map_eq_some_iff.mp hfacts
  obtain ⟨hfailing, hfacts⟩ := Prod.mk.inj hfacts
  obtain ⟨hfailures, hratings⟩ := Prod.mk.inj hfacts
  refine ⟨_, v, hv, hfailing, hfailures, fun ⟨r, hr, hroot, _⟩ => ?_⟩
  exact of_decide_eq_false hratings ⟨r, hr, congrArg Node.id hroot⟩

end Pruning

end GeneticRepair
