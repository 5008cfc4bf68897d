import GeneticRepair.Proofs.Assessment.Mirrored
import GeneticRepair.Proofs.Assessment.Offers
import GeneticRepair.Proofs.Evolution.Mirrored
import GeneticRepair.Proofs.Evolution.Steps

/-!
# `Proofs/Evolution/Lockstep.lean` — two runs in lockstep

Two searches are alike if a pairing aligns their stores and everything else that a run depends on is
the same: words, numbers, books, and the variants up to the identities of their nodes. Their
memories may differ in any way. If executor and oracle answer by what they are shown, each operation
of a run is mirrored, and two runs that are at the same stage go on to the same stage
(`next_inStep`), whatever identities their nodes have.

What can tell the runs apart is when to stop: the number of generations, and the flag. Both matter
between generations only (`next_between`), where the first run may be cancelled while the second one
has used up its generations (`Parted`).
-/

set_option autoImplicit false

namespace GeneticRepair

open List (Forall₂)

variable {α ω : Type} [Scalar α]

/-! ## Searches that are alike -/

/-- What an oracle proposes is a function of the program with its marks and the failing tests. Its
proposal may consist of new nodes; those correspond, too. -/
def Oracle.Consistent (oracle : Oracle α ω) : Prop :=
  ∀ {p : Pairing} {s s' : Store α} {root root' : Node}, p.Aligns s s' → Node.Alike p root root' →
    ∀ failing memory memory', ∃ q, p ≤ q ∧
      q.Aligns (oracle.propose root failing (s, memory)).2.1
        (oracle.propose root' failing (s', memory')).2.1 ∧
      Concur (Option.Rel (Node.Alike q)) (oracle.propose root failing (s, memory)).1
        (oracle.propose root' failing (s', memory')).1

/-- Two teams of collaborators that differ in their flags only, and that answer consistently. -/
structure Collaborators.InStep (like : Disk → Disk → Prop) (c c' : Collaborators α ω) : Prop where
  disks : Disk.Interchangeable like
  executor : c.executor.Consistent like
  executor_eq : c'.executor = c.executor
  oracle : ∀ oracle, c.oracle = some oracle → oracle.Consistent
  oracle_eq : c'.oracle = c.oracle
  seed_eq : c'.seed = c.seed

omit [Scalar α] in
theorem Evaluator.Alike.mono {p q : Pairing} {e e' : Evaluator α} (hpq : p ≤ q)
    (h : Evaluator.Alike p e e') : Evaluator.Alike q e e' :=
  { h with
    baseline := rel_imp h.baseline fun _ _ hb => { hb with root := hb.root.mono hpq }
    best := rel_imp h.best fun _ _ hv => hv.mono hpq }

/-- Searches that are the same up to the identities of nodes, the memory and the phase. -/
structure Search.Alike (like : Disk → Disk → Prop) (p : Pairing) (s s' : Search α ω) : Prop where
  bench : Bench.Alike like p s.bench s'.bench
  rng_eq : s'.rng = s.rng
  nextId_eq : s'.nextId = s.nextId
  stats_eq : s'.stats = s.stats

namespace Search

variable {like : Disk → Disk → Prop} {p : Pairing}

/-- Operations of two searches side by side. -/
abbrev MirrorsSearch {β β' : Type} (like : Disk → Disk → Prop) (S : Pairing → β → β' → Prop)
    (p : Pairing) (x : StateM (Search α ω) β) (x' : StateM (Search α ω) β') : Prop :=
  Mirrors (Search.Alike like) S p x x'

/-! ## Books, numbers and words -/

/-- Nothing is said of the results. -/
def Anything {β β' : Type} (_ : Pairing) (_ : β) (_ : β') : Prop := True

/-- The results are the same. -/
def Same {β : Type} (_ : Pairing) (a a' : β) : Prop := a' = a

theorem mirrors_record (f : Tally α → Tally α) :
    MirrorsSearch (ω := ω) like Anything p (record f) (record f) :=
  fun _ _ hs => ⟨p, le_refl p, { hs with stats_eq := congrArg f hs.stats_eq }, trivial⟩

theorem mirrors_nextNumber :
    MirrorsSearch (α := α) (ω := ω) like Same p nextNumber nextNumber :=
  fun _ _ hs => ⟨p, le_refl p, { hs with nextId_eq := congrArg (· + 1) hs.nextId_eq },
    hs.nextId_eq⟩

theorem mirrors_withWords {β : Type} (f : WordStream → β × WordStream) :
    MirrorsSearch (α := α) (ω := ω) like Same p (withWords f) (withWords f) := by
  intro s s' hs
  refine ⟨p, le_refl p, ⟨hs.bench, ?_, hs.nextId_eq, hs.stats_eq⟩, ?_⟩
  · exact congrArg (fun rng => (f rng).2) hs.rng_eq
  · exact congrArg (fun rng => (f rng).1) hs.rng_eq

/-- What is mirrored on stores is mirrored on searches. -/
theorem mirrors_withStore {β : Type} {S : Pairing → β → β → Prop}
    {f f' : WordStream → StoreM α (β × WordStream)}
    (h : ∀ rng, MirrorsStore (WithWords S) p (f rng) (f' rng)) :
    MirrorsSearch (ω := ω) like S p (withStore f) (withStore f') := by
  intro s s' hs
  obtain ⟨q, hpq, hstore, hresult, hrng⟩ := h s.rng _ _ hs.bench.store
  rw [withStore, withStore, hs.rng_eq]
  exact ⟨q, hpq, ⟨⟨hs.bench.evaluator.mono hpq, hstore, hs.bench.disk⟩, hrng, hs.nextId_eq,
    hs.stats_eq⟩, hresult⟩

/-- What leaves benches alike leaves searches alike. -/
theorem mirrors_onBench {β β' : Type} {S : Pairing → β → β' → Prop}
    {f : Bench α ω → β × Bench α ω} {f' : Bench α ω → β' × Bench α ω}
    (h : ∀ b b', Bench.Alike like p b b' →
      S p (f b).1 (f' b').1 ∧ Bench.Alike like p (f b).2 (f' b').2) :
    MirrorsSearch like S p (onBench f) (onBench f') := by
  intro s s' hs
  obtain ⟨hresult, hbench⟩ := h _ _ hs.bench
  exact ⟨p, le_refl p, ⟨hbench, hs.rng_eq, hs.nextId_eq, hs.stats_eq⟩, hresult⟩

/-! ## Breeding -/

/-- Variants that correspond, one by one. -/
abbrev AlikeAll (p : Pairing) : List (Variant α) → List (Variant α) → Prop :=
  Forall₂ (Variant.Alike p)

omit [Scalar α] in
theorem AlikeAll.mono {q : Pairing} {vs vs' : List (Variant α)} (hpq : p ≤ q)
    (h : AlikeAll p vs vs') : AlikeAll q vs vs' := h.imp fun _ _ hv => hv.mono hpq

theorem fitnessOrZero_eq {v v' : Variant α} (h : Variant.Alike p v v') :
    fitnessOrZero v' = fitnessOrZero v := by
  rw [fitnessOrZero, fitnessOrZero, h.fitness_eq]

theorem mirrors_renumber {vs vs' : List (Variant α)} (h : AlikeAll p vs vs') :
    MirrorsSearch (ω := ω) like AlikeAll p (renumber vs) (renumber vs') := by
  induction vs generalizing vs' p with
  | nil =>
    cases h
    exact .pure .nil
  | cons v vs ih =>
    obtain _ | ⟨hv, hvs⟩ := h
    refine mirrors_nextNumber.bind fun q hpq id id' hid => ?_
    obtain rfl : id' = id := hid
    refine (ih (AlikeAll.mono hpq hvs)).bind fun r hqr rest rest' hrest => .pure ?_
    exact .cons ((hv.copyAs id').mono (hpq.trans hqr)) hrest

theorem forall₂_viable {vs vs' : List (Variant α)} (h : AlikeAll p vs vs') :
    AlikeAll p (viable vs) (viable vs') := by
  refine forall₂_ranked (forall₂_filter h fun v v' hv => ?_) fun v v' hv => fitnessOrZero_eq hv
  rw [Variant.isViable, Variant.isViable, hv.fitness_eq]

theorem mirrors_selectParents (settings : Settings α) {vs vs' : List (Variant α)}
    (h : AlikeAll p vs vs') :
    MirrorsSearch (ω := ω) like AlikeAll p (selectParents settings vs)
      (selectParents settings vs') := by
  have hviable := forall₂_viable h
  -- the wheel is turned by number and fitness of the viable ones, so the same places are picked
  have hweights : (viable vs').map fitnessOrZero = (viable vs).map fitnessOrZero :=
    forall₂_map_eq hviable fun _ _ hv => fitnessOrZero_eq hv
  unfold selectParents
  simp only []
  rw [← hviable.length_eq, hweights]
  split
  · exact .pure .nil
  · refine (mirrors_withWords _).bind fun q hpq picks picks' hpicks => ?_
    obtain rfl : picks' = picks := hpicks
    exact mirrors_renumber (AlikeAll.mono hpq (forall₂_filterMap (getElem?_rel hviable) picks'))

theorem mirrors_crossPair {a a' b b' : Variant α} (ha : Variant.Alike p a a')
    (hb : Variant.Alike p b b') :
    MirrorsSearch (ω := ω) like AlikeAll p (crossPair a b) (crossPair a' b') := by
  unfold crossPair
  rw [ha.id_eq, hb.id_eq]
  refine (mirrors_withStore fun rng => Crossover.mirrors_cross ha.root hb.root rng).bind
    fun q hpq crossing crossing' hcrossing => ?_
  replace ha := ha.mono hpq
  replace hb := hb.mono hpq
  cases hcrossing with
  | alike =>
    refine (mirrors_record _).bind fun r hqr _ _ _ => .pure ?_
    exact .cons (ha.mono hqr) (.cons (hb.mono hqr) .nil)
  | offspring hfirst hsecond blocks =>
    refine (mirrors_record _).bind fun r hqr _ _ _ => ?_
    refine mirrors_nextNumber.bind fun t hrt i i' hi => ?_
    refine mirrors_nextNumber.bind fun u htu j j' hj => .pure ?_
    obtain rfl : i' = i := hi
    obtain rfl : j' = j := hj
    have hqu := (hqr.trans hrt).trans htu
    replace ha := ha.mono hqu
    replace hb := hb.mono hqu
    exact .cons ha (.cons hb (.cons ((ha.copyAs i').become (hfirst.mono hqu) _)
      (.cons ((hb.copyAs j').become (hsecond.mono hqu) _) .nil)))

/-- The generation is filled up with copies of two programs that are alike. -/
theorem mirrors_refill (settings : Settings α) {original original' : Variant α}
    (ho : Variant.Alike p original original') {vs vs' : List (Variant α)} (h : AlikeAll p vs vs') :
    MirrorsSearch (ω := ω) like AlikeAll p (refill settings original vs)
      (refill settings original' vs') := by
  have hcopies (k : Nat) : AlikeAll p (List.replicate k original) (List.replicate k original') := by
    induction k with
    | zero => exact .nil
    | succ k ih => exact .cons ho ih
  unfold refill
  rw [← h.length_eq]
  refine (mirrors_renumber (hcopies _)).bind fun q hpq copies copies' hnew => .pure ?_
  exact List.rel_append (AlikeAll.mono hpq h) hnew

/-! ## Changing -/

theorem mirrors_mutateByOperator (settings : Settings α) {v v' : Variant α}
    (hv : Variant.Alike p v v') :
    MirrorsSearch (ω := ω) like Variant.Alike p (mutateByOperator settings v)
      (mutateByOperator settings v') := by
  refine (mirrors_withStore fun rng =>
    mirrors_mutate hv.root settings.operators settings.donorScope rng).bind
      fun q hpq result result' hresult => ?_
  cases hresult with
  | changed halike operator description =>
    exact (mirrors_record _).bind fun r hqr _ _ _ =>
      .pure ((hv.mono (hpq.trans hqr)).become (halike.mono hqr) description)
  | unchanged =>
    exact (mirrors_record _).bind fun r hqr _ _ _ => .pure (hv.mono (hpq.trans hqr))
  | refused operator error =>
    exact (mirrors_record _).bind fun r hqr _ _ _ => .pure (hv.mono (hpq.trans hqr))

theorem mirrors_consult {oracle : Oracle α ω} (ho : oracle.Consistent) {v v' : Variant α}
    (hv : Variant.Alike p v v') :
    MirrorsSearch like Variant.Alike p (consult oracle v) (consult oracle v') := by
  refine (mirrors_record _).bind fun q hpq _ _ _ => ?_
  refine Mirrors.bind (S := fun q => Concur (Option.Rel (Node.Alike q))) (fun s s' hs => ?_)
    fun r hqr answer answer' hanswer => ?_
  · -- on either side the oracle may have made nodes, which are paired then
    have hroot := hv.root.mono hpq
    obtain ⟨r, hqr, hstore, hsaid⟩ :=
      ho hs.bench.store hroot v.failing s.bench.memory s'.bench.memory
    rw [onBench, onBench, hv.failing_eq]
    exact ⟨r, hqr, ⟨⟨hs.bench.evaluator.mono hqr, hstore, hs.bench.disk⟩, hs.rng_eq, hs.nextId_eq,
      hs.stats_eq⟩, hsaid⟩
  · have hkept := hv.mono (hpq.trans hqr)
    cases hanswer with
    | error e =>
      exact (mirrors_record _).bind fun t hrt _ _ _ => .pure (hkept.mono hrt)
    | ok hroot =>
      cases hroot with
      | none => exact (mirrors_record _).bind fun t hrt _ _ _ => .pure (hkept.mono hrt)
      | some hroot => exact .pure (hkept.become hroot _).markStale

variable {c c' : Collaborators α ω}

theorem mirrors_vary (hc : c.InStep like c') (settings : Settings α) {v v' : Variant α}
    (hv : Variant.Alike p v v') :
    MirrorsSearch like Variant.Alike p (vary settings c v) (vary settings c' v') := by
  have hconsistent := hc.oracle
  unfold vary
  rw [hc.oracle_eq]
  cases ho : c.oracle with
  | none => exact mirrors_mutateByOperator settings hv
  | some oracle =>
    refine (mirrors_withWords _).bind fun q hpq asked asked' hasked => ?_
    obtain rfl : asked' = asked := hasked
    cases asked' with
    | true => exact mirrors_consult (hconsistent oracle ho) (hv.mono hpq)
    | false => exact mirrors_mutateByOperator settings (hv.mono hpq)

/-! ## Evaluating -/

theorem isRepair_eq {v v' : Variant α} (h : Variant.Alike p v v') (maximum : α) :
    isRepair maximum v' = isRepair maximum v := by
  rw [isRepair, isRepair, h.fitness_eq]

/-- The fitter one of two is the same on both sides. -/
theorem fitter_alike {best best' : Option (Variant α)}
    (hbest : Option.Rel (Variant.Alike p) best best') {v v' : Variant α}
    (hv : Variant.Alike p v v') :
    Option.Rel (Variant.Alike p) (Evaluator.fitter best v) (Evaluator.fitter best' v') := by
  have hincumbent : best'.bind (·.fitness) = best.bind (·.fitness) := by
    cases hbest with
    | none => rfl
    | some hw => exact hw.fitness_eq
  unfold Evaluator.fitter
  rw [hv.fitness_eq, hincumbent]
  cases v.fitness with
  | none => exact hbest
  | some fitness =>
    cases best.bind (·.fitness) with
    | none => exact .some hv
    | some incumbent =>
      simp only []
      split
      · exact .some hv
      · exact hbest

theorem offer_alike {v v' : Variant α} (hv : Variant.Alike p v v') {b b' : Bench α ω}
    (hb : Bench.Alike like p b b') : Bench.Alike like p (b.offer v) (b'.offer v') := by
  rw [Bench.offer_eq, Bench.offer_eq]
  exact { hb with
    evaluator := { hb.evaluator with best := fitter_alike hb.evaluator.best hv } }

theorem mirrors_offer {v v' : Variant α} (hv : Variant.Alike p v v') :
    MirrorsSearch (ω := ω) like Anything p (onBench fun b => ((), b.offer v))
      (onBench fun b => ((), b.offer v')) :=
  mirrors_onBench fun _ _ hb => ⟨trivial, offer_alike hv hb⟩

theorem offers_alike {vs vs' : List (Variant α)} (h : AlikeAll p vs vs') {b b' : Bench α ω}
    (hb : Bench.Alike like p b b') :
    Bench.Alike like p (vs.foldl Bench.offer b) (vs'.foldl Bench.offer b') := by
  induction h generalizing b b' with
  | nil => exact hb
  | cons hv _ ih => exact ih (offer_alike hv hb)

/-- Results of a batch that correspond. -/
def AlikeResults (p : Pairing) :
    List (Nat × Except RepairFault (Variant α)) → List (Nat × Except RepairFault (Variant α)) →
      Prop :=
  Forall₂ fun r r' => r'.1 = r.1 ∧ Concur (Variant.Alike p) r.2 r'.2

omit [Scalar α] in
theorem settle_alike {rs rs' : List (Nat × Except RepairFault (Variant α))}
    (hrs : AlikeResults p rs rs') {vs vs' : List (Variant α)} (h : AlikeAll p vs vs') (job : Nat) :
    Concur (AlikeAll p) (settle rs job vs) (settle rs' job vs') := by
  induction h generalizing job with
  | nil => exact .ok .nil
  | cons hv _ ih =>
    unfold settle
    rw [hv.fitness_eq]
    split
    · exact (ih job).map fun _ _ hrest => .cons hv hrest
    · have hresult := lookup_rel hrs job
      generalize rs.lookup job = result at hresult
      generalize rs'.lookup job = result' at hresult
      cases hresult with
      | none => exact (ih (job + 1)).map fun _ _ hrest => .cons hv hrest
      | some hresult =>
        cases hresult with
        | error e => exact .error e
        | ok hw => exact (ih (job + 1)).map fun _ _ hrest => .cons hw hrest

variable [Root α]

theorem mirrors_evaluate (hc : c.InStep like c') {v v' : Variant α} (hv : Variant.Alike p v v') :
    MirrorsSearch like (fun q => Concur (Bench.Assessed q)) p
      (onBench (Bench.evaluate c.executor v)) (onBench (Bench.evaluate c'.executor v')) := by
  rw [hc.executor_eq]
  exact mirrors_onBench fun b b' hb => Bench.evaluate_alike hc.disks hc.executor hv hb

theorem mirrors_evaluateNext (hc : c.InStep like c') {v v' : Variant α}
    (hv : Variant.Alike p v v') :
    MirrorsSearch like (fun q => Concur (Bench.Assessed q)) p (evaluateNext c v)
      (evaluateNext c' v') := by
  refine (mirrors_evaluate hc hv).bind fun q hpq answer answer' hanswer => ?_
  cases hanswer with
  | error e => exact .pure (.error e)
  | @ok r r' hr =>
    obtain ⟨a, w⟩ := r
    obtain ⟨a', w'⟩ := r'
    obtain ⟨rfl, hw⟩ := hr
    refine (mirrors_record _).bind fun t hqt _ _ _ => ?_
    replace hw : Variant.Alike t w w' := hw.mono hqt
    exact (mirrors_offer hw).bind fun u htu _ _ _ => .pure (.ok ⟨rfl, hw.mono htu⟩)

end Search

/-! ## Reports -/

/-- Reports that say the same, but for the outcome. -/
structure RunReport.Alike (p : Pairing) (r r' : RunReport α) : Prop where
  best : Variant.Alike p r.best r'.best
  bestFitness_eq : r'.bestFitness = r.bestFitness
  maxFitness_eq : r'.maxFitness = r.maxFitness
  stats_eq : r'.stats = r.stats

/-- How a run ends next to one that has fewer generations. -/
inductive Parted (p : Pairing) :
    Except RepairFault (RunReport α) → Except RepairFault (RunReport α) → Prop where
  /-- Both fail for the same reason. -/
  | failed (fault : RepairFault) : Parted p (.error fault) (.error fault)
  /-- Both end before the generations are used up. -/
  | ended {r r' : RunReport α} (alike : RunReport.Alike p r r')
    (outcome_eq : r'.outcome = r.outcome) (early : r'.outcome = .repaired ∨ r'.outcome = .unfit) :
    Parted p (.ok r) (.ok r')
  /-- The second run has used up its generations, where the first one sees its flag. -/
  | cut {r r' : RunReport α} (alike : RunReport.Alike p r r') (cancelled : r.outcome = .cancelled)
    (exhausted : r'.outcome = .exhausted) : Parted p (.ok r) (.ok r')

namespace Search

/-! ## Stages -/

/-- Generations of two runs, the first of which may have some more after it. -/
structure Course.InStep (p : Pairing) (surplus bound : Nat) (course course' : Course α) :
    Prop where
  original : Variant.Alike p course.original course'.original
  maximum_eq : course'.maximum = course.maximum
  generation_eq : course'.generation = course.generation
  remaining_eq : course.remaining = course'.remaining + surplus
  bound_eq : course'.generation + course'.remaining = bound

omit [Scalar α] in
theorem Course.InStep.mono {p q : Pairing} {surplus bound : Nat} {course course' : Course α}
    (hpq : p ≤ q) (h : Course.InStep p surplus bound course course') :
    Course.InStep q surplus bound course course' :=
  { h with original := h.original.mono hpq }

/-- Stages of two runs, the second of which has `limit` generations and the first one a surplus. -/
inductive Stage.InStep (surplus limit : Nat) (p : Pairing) : Stage α → Stage α → Prop where
  | fresh {root root' : Node} (alike : Node.Alike p root root') :
    InStep surplus limit p (.fresh root) (.fresh root')
  | between {course course' : Course α} {population population' : List (Variant α)}
    (courses : Course.InStep p surplus (limit + 1) course course')
    (populations : AlikeAll p population population') :
    InStep surplus limit p (.between course population) (.between course' population')
  | crossing {course course' : Course α} {bred bred' parents parents' : List (Variant α)}
    (courses : Course.InStep p surplus limit course course') (breds : AlikeAll p bred bred')
    (pairs : AlikeAll p parents parents') :
    InStep surplus limit p (.crossing course bred parents) (.crossing course' bred' parents')
  | varying {course course' : Course α} {done done' todo todo' : List (Variant α)}
    (courses : Course.InStep p surplus limit course course') (dones : AlikeAll p done done')
    (todos : AlikeAll p todo todo') :
    InStep surplus limit p (.varying course done todo) (.varying course' done' todo')
  | rating {course course' : Course α} {done done' todo todo' : List (Variant α)}
    (courses : Course.InStep p surplus limit course course') (dones : AlikeAll p done done')
    (todos : AlikeAll p todo todo') :
    InStep surplus limit p (.rating course done todo) (.rating course' done' todo')
  | batch {course course' : Course α} {generation generation' : List (Variant α)}
    {results results' : List (Nat × Except RepairFault (Variant α))}
    {jobs jobs' : List (Nat × Variant α)} (courses : Course.InStep p surplus limit course course')
    (generations : AlikeAll p generation generation') (done : AlikeResults p results results')
    (todo : Forall₂ (fun j j' => j'.1 = j.1 ∧ Variant.Alike p j.2 j'.2) jobs jobs') :
    InStep surplus limit p (.batch course generation results jobs)
      (.batch course' generation' results' jobs')
  | ended {result result' : Except RepairFault (RunReport α)} (parted : Parted p result result') :
    InStep surplus limit p (.over result) (.over result')

/-- Steps that lead to stages of two runs, whatever rating they give. -/
def StepsAlike (surplus limit : Nat) (p : Pairing) (r r' : Stage α × Option (Rating α)) : Prop :=
  Stage.InStep surplus limit p r.1 r'.1

section

variable {surplus limit : Nat} {p : Pairing} {like : Disk → Disk → Prop}

theorem mirrors_unrated {x x' : StateM (Search α ω) (Stage α)}
    (h : MirrorsSearch like (Stage.InStep surplus limit) p x x') :
    MirrorsSearch like (StepsAlike surplus limit) p (do return (← x, none))
      (do return (← x', none)) :=
  h.bind fun _ _ _ _ hstage => .pure hstage

theorem mirrors_conclude (outcome outcome' : Outcome) {best best' : Variant α}
    (h : Variant.Alike p best best') (maximum : α) :
    MirrorsSearch (ω := ω) like
      (fun q r r' => RunReport.Alike q r r' ∧ r.outcome = outcome ∧ r'.outcome = outcome') p
      (conclude outcome best maximum) (conclude outcome' best' maximum) := by
  intro s s' hs
  exact ⟨p, le_refl p, ⟨hs.bench, hs.rng_eq, hs.nextId_eq, hs.stats_eq⟩,
    ⟨h, fitnessOrZero_eq h, rfl, hs.stats_eq⟩, rfl, rfl⟩

/-- A run ends early next to the other one. -/
theorem mirrors_end (outcome : Outcome) (hearly : outcome = .repaired ∨ outcome = .unfit)
    {best best' : Variant α} (h : Variant.Alike p best best') (maximum : α) :
    MirrorsSearch (ω := ω) like (Stage.InStep surplus limit) p
      (do return Stage.over (.ok (← conclude outcome best maximum)))
      (do return Stage.over (.ok (← conclude outcome best' maximum))) := by
  refine (mirrors_conclude outcome outcome h maximum).bind fun q hpq r r' hr => .pure (.ended ?_)
  obtain ⟨halike, hr, hr'⟩ := hr
  exact .ended halike (hr'.trans hr.symm) (hr' ▸ hearly)

/-- The first run is cancelled where the second one has used up its generations. -/
theorem mirrors_giveUp {course course' : Course α} {bound : Nat}
    (h : Course.InStep p surplus bound course course') :
    MirrorsSearch (ω := ω) like (Stage.InStep surplus limit) p (giveUp .cancelled course)
      (giveUp .exhausted course') := by
  have hbest : MirrorsSearch (ω := ω) like Variant.Alike p (bestOr course.original)
      (bestOr course'.original) := by
    intro s s' hs
    refine ⟨p, le_refl p, hs, ?_⟩
    have hbest := hs.bench.evaluator.best
    show Variant.Alike p (s.bench.evaluator.best.getD _) (s'.bench.evaluator.best.getD _)
    generalize s.bench.evaluator.best = best at hbest
    generalize s'.bench.evaluator.best = best' at hbest
    cases hbest with
    | none => exact h.original
    | some hv => exact hv
  unfold giveUp
  rw [h.maximum_eq]
  refine hbest.bind fun q hpq best best' hb => ?_
  refine (mirrors_conclude .cancelled .exhausted hb course.maximum).bind
    fun t hqt r r' hr => .pure (.ended ?_)
  exact .cut hr.1 hr.2.1 hr.2.2

theorem mirrors_recordBest :
    MirrorsSearch (α := α) (ω := ω) like Anything p recordBest recordBest := by
  intro s s' hs
  have hfitness : s'.bench.evaluator.best.map fitnessOrZero =
      s.bench.evaluator.best.map fitnessOrZero :=
    map_eq_of_rel hs.bench.evaluator.best fun _ _ hv => fitnessOrZero_eq hv
  rw [recordBest, recordBest, hfitness]
  exact mirrors_record _ s s' hs

theorem mirrors_closing {course course' : Course α}
    (h : Course.InStep p surplus limit course course') {vs vs' : List (Variant α)}
    (hvs : AlikeAll p vs vs') {fix fix' : Option (Variant α)}
    (hfix : Option.Rel (Variant.Alike p) fix fix') :
    MirrorsSearch (ω := ω) like (Stage.InStep surplus limit) p (closing course vs fix)
      (closing course' vs' fix') := by
  cases hfix with
  | some hv =>
    unfold closing
    rw [h.maximum_eq]
    exact mirrors_end .repaired (.inl rfl) hv course.maximum
  | none =>
    refine mirrors_recordBest.bind fun q hpq _ _ _ => .pure (.between ?_ (AlikeAll.mono hpq hvs))
    refine { h.mono hpq with generation_eq := congrArg (· + 1) h.generation_eq, bound_eq := ?_ }
    have := h.bound_eq
    show course'.generation + 1 + course'.remaining = limit + 1
    omega

omit [Scalar α] in
/-- Two runs are given the same jobs, in the same order. -/
theorem assessing_inStep {c c' : Collaborators α ω} (settings : Settings α)
    (horder : settings.parallel = true → c'.schedule = c.schedule)
    {course course' : Course α} (h : Course.InStep p surplus limit course course')
    {vs vs' : List (Variant α)} (hvs : AlikeAll p vs vs') :
    Stage.InStep surplus limit p (assessing settings c course vs)
      (assessing settings c' course' vs') := by
  have hunscored : AlikeAll p (vs.filter (·.fitness.isNone)) (vs'.filter (·.fitness.isNone)) :=
    forall₂_filter hvs fun _ _ hv => by rw [hv.fitness_eq]
  unfold assessing
  split
  · next hparallel =>
    simp only []
    rw [horder hparallel, h.generation_eq, ← hunscored.length_eq]
    refine .batch h hvs .nil (forall₂_filterMap (fun job => ?_) _)
    exact rel_map (getElem?_rel hunscored job) fun _ _ hv => ⟨rfl, hv⟩
  · exact .rating h .nil hvs

/-! ## Steps -/

theorem mirrors_embark (settings : Settings α) (hmore : settings.maxGenerations = limit + surplus)
    {original original' : Variant α} (h : Variant.Alike p original original') (maximum : α) :
    MirrorsSearch (ω := ω) like (Stage.InStep surplus limit) p (embark settings original maximum)
      (embark { settings with maxGenerations := limit } original' maximum) := by
  unfold embark
  rw [fitnessOrZero_eq h, isRepair_eq h]
  refine (mirrors_offer h).bind fun q hpq _ _ _ => (mirrors_record _).bind fun r hqr _ _ _ => ?_
  replace h := h.mono (hpq.trans hqr)
  split
  · exact mirrors_end .repaired (.inl rfl) h maximum
  · exact .pure (.between ⟨h, rfl, rfl, hmore, Nat.add_comm 1 limit⟩ .nil)

/-- Nothing but its being positive is asked of the number of generations. -/
theorem validate_limit {settings : Settings α} (h : settings.maxGenerations ≠ 0)
    (hlimit : limit ≠ 0) :
    ({ settings with maxGenerations := limit } : Settings α).validate = settings.validate := by
  simp only [Settings.validate, h, hlimit, if_false]

variable [Root α] {c c' : Collaborators α ω}

theorem mirrors_opening (hc : c.InStep like c') (settings : Settings α)
    (hmore : settings.maxGenerations = limit + surplus) (hlimit : limit ≠ 0) {root root' : Node}
    (h : Node.Alike p root root') :
    MirrorsSearch like (StepsAlike surplus limit) p
      (opening settings c root)
      (opening { settings with maxGenerations := limit } c' root') := by
  have hgenerations : settings.maxGenerations ≠ 0 := by omega
  unfold opening
  rw [validate_limit hgenerations hlimit]
  cases settings.validate with
  | error fault => exact .pure (.ended (.failed _))
  | ok _ =>
    simp only []
    -- what is left of earlier runs is forgotten
    have hrestart (seed : UInt64) : MirrorsSearch (α := α) (ω := ω) like Anything p
        (modify (restart seed)) (modify (restart seed)) :=
      fun s s' hs => ⟨p, le_refl p, ⟨hs.bench, rfl, rfl, rfl⟩, trivial⟩
    rw [hc.seed_eq, hc.executor_eq]
    refine (hrestart _).bind fun q hpq _ _ _ => mirrors_nextNumber.bind fun r hqr id id' hid => ?_
    obtain rfl : id' = id := hid
    replace h := h.mono (hpq.trans hqr)
    have hfirst : MirrorsSearch like Same r (onBench (Bench.establish c.executor root))
        (onBench (Bench.establish c.executor root')) :=
      mirrors_onBench fun b b' hb => Bench.establish_alike hc.disks hc.executor h hb
    refine hfirst.bind fun t hrt answer answer' hanswer => ?_
    obtain rfl : answer' = answer := hanswer
    replace h := h.mono hrt
    cases answer' with
    | error fault =>
      cases fault with
      | unfitBaseline cause =>
        refine Mirrors.bind (mirrors_conclude .unfit .unfit (.new id' h) 0)
          fun u _ r r' hr => .pure (.ended ?_)
        exact .ended hr.1 (hr.2.2.trans hr.2.1.symm) (.inr hr.2.2)
      | _ => exact .pure (.ended (.failed _))
    | ok assessment =>
      refine Mirrors.read.bind fun u htu s s' hs => ?_
      have hbaseline := hs.bench.evaluator.baseline
      generalize s.bench.evaluator.baseline = base at hbaseline
      generalize s'.bench.evaluator.baseline = base' at hbaseline
      cases hbaseline with
      | none => exact .pure (.ended (.failed _))
      | some hbase =>
        simp only []
        rw [hbase.maximum_eq]
        refine Mirrors.bind (mirrors_embark settings hmore ?_ _) fun w _ stage stage' hstage =>
          .pure hstage
        exact (Variant.Alike.new id' (h.mono htu)).assess _ _

omit [Root α] in
theorem alike_isCancelled {s s' : Search α ω} (h : Search.Alike like p s s')
    (c c' : Collaborators α ω) :
    Search.Alike like p (isCancelled c s).2 s' ∧
      Search.Alike like p (isCancelled c s).2 (isCancelled c' s').2 :=
  ⟨⟨⟨h.bench.evaluator, h.bench.store, h.bench.disk⟩, h.rng_eq, h.nextId_eq, h.stats_eq⟩,
    ⟨⟨h.bench.evaluator, h.bench.store, h.bench.disk⟩, h.rng_eq, h.nextId_eq, h.stats_eq⟩⟩

/-- From one generation to the next. The first run has always some left; it stops at its flag, which
is set where the second one has used up its generations. -/
theorem next_between (settings : Settings α) {course course' : Course α}
    {population population' : List (Variant α)}
    (h : Course.InStep p surplus (limit + 1) course course')
    (hpopulation : AlikeAll p population population') {s s' : Search α ω}
    (hs : Search.Alike like p s s') (hsurplus : 0 < surplus)
    (hflag : (isCancelled c s).1 = decide (limit < course.generation))
    (hflag' : course'.remaining ≠ 0 → (isCancelled c' s').1 = false) :
    let left := (Stage.between course population).next settings c s
    let right := (Stage.between course' population').next
      { settings with maxGenerations := limit } c' s'
    ∃ q, p ≤ q ∧ Search.Alike like q left.2 right.2 ∧
      Stage.InStep surplus limit q left.1.1 right.1.1 := by
  obtain ⟨halone, hboth⟩ := alike_isCancelled hs c c'
  have hgiveUp : MirrorsSearch (ω := ω) like (Stage.InStep surplus limit) p
      (giveUp .cancelled course) (giveUp .exhausted course') := mirrors_giveUp h
  obtain ⟨original, maximum, generation, remaining⟩ := course
  obtain ⟨original', maximum', generation', remaining'⟩ := course'
  obtain ⟨horiginal, rfl, rfl, rfl, hbound⟩ := h
  simp only [] at hbound hflag hflag' ⊢
  obtain ⟨k, hk⟩ : ∃ k, remaining' + surplus = k + 1 := ⟨remaining' + surplus - 1, by omega⟩
  rw [Stage.next, Stage.next]
  simp only [hk] at hgiveUp ⊢
  rw [bind_apply (isCancelled c), hflag]
  cases remaining' with
  -- the second run has no generation left, and before this one the flag of the first is set
  | zero =>
    rw [decide_eq_true (by omega : limit < generation')]
    exact mirrors_unrated hgiveUp _ _ halone
  | succ r =>
    rw [decide_eq_false (by omega : ¬ limit < generation')]
    simp only []
    rw [bind_apply (isCancelled c'), hflag' (Nat.succ_ne_zero r)]
    have henter : MirrorsSearch (α := α) (ω := ω) like Anything p (enter generation')
        (enter generation') := fun s s' hs =>
      mirrors_record _ { s with phase := .evolving generation' }
        { s' with phase := .evolving generation' } ⟨hs.bench, hs.rng_eq, hs.nextId_eq, hs.stats_eq⟩
    have hnext : MirrorsSearch (ω := ω) like (StepsAlike surplus limit) p
        (do
          enter generation'
          let parents ← selectParents settings population
          return (.crossing ⟨original, maximum', generation', k⟩ [] parents, none))
        (do
          enter generation'
          let parents ← selectParents settings population'
          return (.crossing ⟨original', maximum', generation', r⟩ [] parents, none)) := by
      refine henter.bind fun q hpq _ _ _ => (mirrors_selectParents settings
        (AlikeAll.mono hpq hpopulation)).bind fun t hqt parents parents' hparents => .pure ?_
      refine Stage.InStep.crossing ⟨horiginal.mono (hpq.trans hqt), rfl, rfl, ?_, ?_⟩ .nil hparents
      · show k = r + surplus
        omega
      · show generation' + r = limit
        omega
    exact hnext _ _ hboth

theorem mirrors_crossing (settings : Settings α) {course course' : Course α}
    (h : Course.InStep p surplus limit course course') {bred bred' : List (Variant α)}
    (hbred : AlikeAll p bred bred') {parents parents' : List (Variant α)}
    (hparents : AlikeAll p parents parents') :
    MirrorsSearch like (StepsAlike surplus limit) p
      ((Stage.crossing course bred parents).next settings c)
      ((Stage.crossing course' bred' parents').next
        { settings with maxGenerations := limit } c') := by
  -- fewer than two parents go on alone, and the generation is filled up
  have hrefill {rest rest' : List (Variant α)} (hrest : AlikeAll p rest rest') :
      MirrorsSearch (ω := ω) like (StepsAlike surplus limit) p
        (do return (Stage.varying course [] (← refill settings course.original (bred ++ rest)),
          none))
        (do return (Stage.varying course' [] (← refill settings course'.original (bred' ++ rest')),
          none)) :=
    (mirrors_refill settings h.original (List.rel_append hbred hrest)).bind
      fun q hpq full full' hfull => .pure (Stage.InStep.varying (h.mono hpq) .nil hfull)
  cases hparents with
  | nil => exact hrefill .nil
  | cons ha hrest =>
    cases hrest with
    | nil => exact hrefill (.cons ha .nil)
    | cons hb hrest =>
      refine (mirrors_crossPair ha hb).bind fun q hpq family family' hfamily => .pure ?_
      exact Stage.InStep.crossing (h.mono hpq)
        (List.rel_append (AlikeAll.mono hpq hbred) hfamily) (AlikeAll.mono hpq hrest)

theorem mirrors_varying (hc : c.InStep like c') (settings : Settings α)
    (horder : settings.parallel = true → c'.schedule = c.schedule)
    {course course' : Course α} (h : Course.InStep p surplus limit course course')
    {done done' : List (Variant α)} (hdone : AlikeAll p done done')
    {todo todo' : List (Variant α)} (htodo : AlikeAll p todo todo') :
    MirrorsSearch like (StepsAlike surplus limit) p
      ((Stage.varying course done todo).next settings c)
      ((Stage.varying course' done' todo').next
        { settings with maxGenerations := limit } c') := by
  cases htodo with
  | nil => exact .pure (assessing_inStep settings horder h hdone)
  | cons hv htodo =>
    refine (mirrors_vary hc settings hv).bind fun q hpq w w' hw => .pure ?_
    exact Stage.InStep.varying (h.mono hpq)
      (List.rel_append (AlikeAll.mono hpq hdone) (.cons hw .nil)) (AlikeAll.mono hpq htodo)

theorem mirrors_rating (hc : c.InStep like c') (settings : Settings α)
    {course course' : Course α} (h : Course.InStep p surplus limit course course')
    {done done' : List (Variant α)} (hdone : AlikeAll p done done')
    {todo todo' : List (Variant α)} (htodo : AlikeAll p todo todo') :
    MirrorsSearch like (StepsAlike surplus limit) p
      ((Stage.rating course done todo).next settings c)
      ((Stage.rating course' done' todo').next
        { settings with maxGenerations := limit } c') := by
  cases htodo with
  | nil => exact mirrors_unrated (mirrors_closing h hdone .none)
  | cons hv htodo =>
    rw [Stage.next, Stage.next, hv.fitness_eq]
    split
    · exact .pure (Stage.InStep.rating h (List.rel_append hdone (.cons hv .nil)) htodo)
    · refine (mirrors_evaluateNext hc hv).bind fun q hpq answer answer' hanswer => ?_
      replace h := h.mono hpq
      replace hdone := AlikeAll.mono hpq hdone
      replace htodo := AlikeAll.mono hpq htodo
      cases hanswer with
      | error e => exact .pure (Stage.InStep.ended (.failed e))
      | @ok r r' hr =>
        obtain ⟨a, w⟩ := r
        obtain ⟨a', w'⟩ := r'
        obtain ⟨rfl, hw⟩ := hr
        simp only []
        rw [h.maximum_eq, isRepair_eq hw]
        split
        · refine (mirrors_closing h (List.rel_append hdone (.cons hw htodo)) (.some hw)).bind
            fun t _ stage stage' hstage => .pure hstage
        · exact .pure (Stage.InStep.rating h (List.rel_append hdone (.cons hw .nil)) htodo)

theorem mirrors_batch (hc : c.InStep like c') (settings : Settings α)
    {course course' : Course α} (h : Course.InStep p surplus limit course course')
    {generation generation' : List (Variant α)} (hgeneration : AlikeAll p generation generation')
    {results results' : List (Nat × Except RepairFault (Variant α))}
    (hresults : AlikeResults p results results') {jobs jobs' : List (Nat × Variant α)}
    (hjobs : Forall₂ (fun j j' => j'.1 = j.1 ∧ Variant.Alike p j.2 j'.2) jobs jobs') :
    MirrorsSearch like (StepsAlike surplus limit) p
      ((Stage.batch course generation results jobs).next settings c)
      ((Stage.batch course' generation' results' jobs').next
        { settings with maxGenerations := limit } c') := by
  cases hjobs with
  | nil =>
    have hunscored : (generation'.filter (·.fitness.isNone)).length =
        (generation.filter (·.fitness.isNone)).length :=
      (forall₂_filter hgeneration fun _ _ hv => by rw [hv.fitness_eq]).length_eq.symm
    rw [Stage.next, Stage.next, hunscored]
    refine (mirrors_record _).bind fun q hpq _ _ _ => ?_
    have hsettled := settle_alike hresults hgeneration 0
    generalize settle results 0 generation = settled at hsettled
    generalize settle results' 0 generation' = settled' at hsettled
    cases hsettled with
    | error e => exact .pure (Stage.InStep.ended (.failed e))
    | @ok vs vs' hvs =>
      simp only []
      replace hvs := AlikeAll.mono hpq hvs
      have hoffers : MirrorsSearch (ω := ω) like Anything q
          (onBench fun b => ((), vs.foldl Bench.offer b))
          (onBench fun b => ((), vs'.foldl Bench.offer b)) :=
        mirrors_onBench fun b b' hb => ⟨trivial, offers_alike hvs hb⟩
      refine hoffers.bind fun t hqt _ _ _ => ?_
      replace hvs := AlikeAll.mono hqt hvs
      rw [h.maximum_eq]
      exact mirrors_unrated (mirrors_closing (h.mono (hpq.trans hqt)) hvs
        (find?_rel hvs fun _ _ hv => isRepair_eq hv _))
  | @cons job job' _ _ hjob hjobs =>
    obtain ⟨number, v⟩ := job
    obtain ⟨number', v'⟩ := job'
    obtain ⟨rfl, hv⟩ := hjob
    refine (mirrors_evaluate hc hv).bind fun q hpq answer answer' hanswer => .pure ?_
    refine Stage.InStep.batch (h.mono hpq) (AlikeAll.mono hpq hgeneration) ?_ ?_
    · refine List.rel_append (hresults.imp fun _ _ hr => ⟨hr.1, hr.2.imp fun _ _ hw => hw.mono hpq⟩)
        (.cons ⟨rfl, ?_⟩ .nil)
      exact hanswer.map fun _ _ hr => hr.2
    · exact hjobs.imp fun _ _ hj => ⟨hj.1, hj.2.mono hpq⟩

/-- Two runs take a step side by side. -/
theorem next_inStep (hc : c.InStep like c') (settings : Settings α)
    (horder : settings.parallel = true → c'.schedule = c.schedule)
    (hmore : settings.maxGenerations = limit + surplus) (hlimit : limit ≠ 0)
    (hsurplus : 0 < surplus) {stage stage' : Stage α}
    (h : Stage.InStep surplus limit p stage stage') {s s' : Search α ω}
    (hs : Search.Alike like p s s')
    (hflag : ∀ course population, stage = .between course population → course.remaining ≠ 0 →
      (isCancelled c s).1 = decide (limit < course.generation))
    (hflag' : ∀ course population, stage' = .between course population → course.remaining ≠ 0 →
      (isCancelled c' s').1 = false) :
    let left := stage.next settings c s
    let right := stage'.next { settings with maxGenerations := limit } c' s'
    ∃ q, p ≤ q ∧ Search.Alike like q left.2 right.2 ∧
      Stage.InStep surplus limit q left.1.1 right.1.1 := by
  cases h with
  | fresh alike => exact mirrors_opening hc settings hmore hlimit alike _ _ hs
  | between courses populations =>
    refine next_between settings courses populations hs hsurplus ?_ (hflag' _ _ rfl)
    exact hflag _ _ rfl (by have := courses.remaining_eq; omega)
  | crossing courses breds pairs => exact mirrors_crossing settings courses breds pairs _ _ hs
  | varying courses dones todos =>
    exact mirrors_varying hc settings horder courses dones todos _ _ hs
  | rating courses dones todos => exact mirrors_rating hc settings courses dones todos _ _ hs
  | batch courses generations done todo =>
    exact mirrors_batch hc settings courses generations done todo _ _ hs
  | ended parted => exact ⟨p, le_refl p, hs, .ended parted⟩

end

end Search

end GeneticRepair
