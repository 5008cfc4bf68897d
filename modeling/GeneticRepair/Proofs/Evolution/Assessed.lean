import GeneticRepair.Proofs.Assessment.Evaluation
import GeneticRepair.Proofs.Assessment.Offers
import GeneticRepair.Proofs.Evolution.Heredity
import GeneticRepair.Proofs.Evolution.Steps

/-!
# `Proofs/Evolution/Assessed.lean` — every fitness in a run is the right one

Between its evaluations a variant is copied, crossed, mutated and patched, and its fitness travels
along. The invariant of a run says that it never parts from the program it was computed for: a
variant with a fitness has exact figures, and there is a rating of **its** program with **these**
figures (`Assessed`). `Sound` is that invariant with what it takes to get it through a step, and
`Sound.step` is the step.
-/

set_option autoImplicit false

namespace GeneticRepair

/-- If the variant has a fitness, it is exact and was given to the program that the variant
holds. -/
def Variant.Assessed (p : FitnessPolicy Rat) (baseline : Option (Baseline Rat))
    (ratings : List (Search.Rating Rat)) (v : Variant Rat) : Prop :=
  ∀ fitness, v.fitness = some fitness →
    ∃ base, baseline = some base ∧ p.Exact base.tests fitness v.failing ∧
      (⟨v.root, fitness, v.failing⟩ : Search.Rating Rat) ∈ ratings

namespace Variant.Assessed

variable {p : FitnessPolicy Rat} {baseline : Option (Baseline Rat)}
  {ratings more : List (Search.Rating Rat)} {v : Variant Rat}

theorem of_none (h : v.fitness = none) : v.Assessed p baseline ratings := by
  intro fitness hf
  rw [h] at hf
  cases hf

/-- What is inherited stays right. -/
theorem inherits {parents : List (Variant Rat)} (h : v.Inherits parents)
    (hp : ∀ w ∈ parents, w.Assessed p baseline ratings) : v.Assessed p baseline ratings := by
  obtain h | ⟨w, hw, hroot, hfitness, hfailing⟩ := h
  · exact .of_none h
  · rw [Assessed, hroot, hfitness, hfailing]
    exact hp w hw

theorem mono (h : v.Assessed p baseline ratings) (hsub : ∀ r ∈ ratings, r ∈ more) :
    v.Assessed p baseline more := by
  intro fitness hf
  obtain ⟨base, hb, hexact, hmem⟩ := h fitness hf
  exact ⟨base, hb, hexact, hsub _ hmem⟩

end Variant.Assessed

namespace Search

/-! ## The invariant -/

section Stages

variable {α ω : Type} [Scalar α]

/-- The variants in hand at a stage. -/
def Stage.variants : Stage α → List (Variant α)
  | .fresh _ => []
  | .between course population => course.original :: population
  | .crossing course bred parents => course.original :: (bred ++ parents)
  | .varying course done todo => course.original :: (done ++ todo)
  | .rating course done todo => course.original :: (done ++ todo)
  | .batch course generation results _ =>
    course.original :: (generation ++ results.filterMap (·.2.toOption))
  | .over result => (result.toOption.map (·.best)).toList

/-- The best variant so far and those in hand. -/
def Moment.variants (m : Moment α ω) : List (Variant α) :=
  m.search.bench.evaluator.best.toList ++ m.stage.variants

/-- The maximum is that of the baseline. -/
def Course.Follows (course : Course α) (e : Evaluator α) : Prop :=
  ∃ base, e.baseline = some base ∧ course.maximum = base.maximum

/-- Every variant without fitness is among the jobs or has a result, and a variant that came out has
a fitness. -/
structure Covers (generation : List (Variant α))
    (results : List (Nat × Except RepairFault (Variant α))) (jobs : List (Nat × Variant α)) :
    Prop where
  all : ∀ job < (generation.filter (·.fitness.isNone)).length,
    job ∈ results.map (·.1) ∨ job ∈ jobs.map (·.1)
  scored : ∀ job v, (job, .ok v) ∈ results → v.fitness.isSome = true

/-- What has been achieved by a stage. -/
def Stage.InOrder (e : Evaluator α) : Stage α → Prop
  | .fresh _ => e.best = none
  | .between course population => course.Follows e ∧ ∀ v ∈ population, v.fitness.isSome = true
  | .crossing course _ _ => course.Follows e
  | .varying course _ _ => course.Follows e
  | .rating course done _ => course.Follows e ∧ ∀ v ∈ done, v.fitness.isSome = true
  | .batch course generation results jobs => course.Follows e ∧ Covers generation results jobs
  | .over (.error _) => True
  | .over (.ok report) => report.outcome = .repaired →
    ∃ base, e.baseline = some base ∧ isRepair base.maximum report.best = true

end Stages

variable {ω : Type}

/-- The invariant of a run. -/
structure Sound (p : FitnessPolicy Rat) (m : Moment Rat ω) : Prop where
  policy_eq : m.search.bench.evaluator.policy = p
  fits : ∀ base, m.search.bench.evaluator.baseline = some base → base.Fits p
  assessed : ∀ v ∈ m.variants, v.Assessed p m.search.bench.evaluator.baseline m.ratings
  inOrder : m.stage.InOrder m.search.bench.evaluator

/-! ## Offers and batches -/

section Offers

variable {α ω : Type}

/-- A batch whose every job has a result leaves no variant without fitness. -/
theorem mem_settle {results : List (Nat × Except RepairFault (Variant α))} {job : Nat}
    {generation evaluated : List (Variant α)} (h : settle results job generation = .ok evaluated)
    (hall : ∀ i < (generation.filter (·.fitness.isNone)).length, job + i ∈ results.map (·.1)) :
    ∀ v ∈ evaluated, (v ∈ generation ∧ v.fitness.isSome = true) ∨ ∃ j, (j, .ok v) ∈ results := by
  induction generation generalizing job evaluated with
  | nil =>
    obtain rfl := Except.ok.inj h
    exact fun v hv => absurd hv List.not_mem_nil
  | cons w generation ih =>
    rw [settle] at h
    rw [List.filter_cons] at hall
    cases hw : w.fitness with
    | some fitness =>
      simp only [hw, Option.isSome_some, if_true, Option.isNone_some, Bool.false_eq_true,
        if_false] at h hall
      obtain ⟨rest, hrest, rfl⟩ := exists_of_map_eq_ok h
      intro v hv
      obtain rfl | hv := List.mem_cons.mp hv
      · exact .inl ⟨List.mem_cons_self, by rw [hw]; rfl⟩
      · exact (ih hrest hall v hv).imp_left fun hv => ⟨List.mem_cons_of_mem w hv.1, hv.2⟩
    | none =>
      simp only [hw, Option.isSome_none, Bool.false_eq_true, if_false, Option.isNone_none,
        if_true, List.length_cons] at h hall
      obtain ⟨⟨j, answer⟩, hr, rfl⟩ := List.mem_map.mp (hall 0 (Nat.succ_pos _))
      cases hl : results.lookup j with
      | none => exact absurd rfl (bne_iff_ne.mp (List.lookup_eq_none_iff.mp hl _ hr))
      | some result =>
        rw [hl] at h
        cases result with
        | error e => cases h
        | ok w' =>
          obtain ⟨rest, hrest, rfl⟩ := exists_of_map_eq_ok h
          intro v hv
          obtain rfl | hv := List.mem_cons.mp hv
          · exact .inr ⟨j, mem_of_lookup hl⟩
          · refine (ih hrest (fun i hi => ?_) v hv).imp_left
              fun hv => ⟨List.mem_cons_of_mem w hv.1, hv.2⟩
            have := hall (i + 1) (Nat.succ_lt_succ hi)
            rwa [Nat.add_right_comm, Nat.add_assoc]

/-- Every variant without fitness gets a job, in whatever order. -/
theorem covers_jobs (schedule : Schedule) (number : Nat) (generation : List (Variant α)) :
    let unscored := generation.filter (·.fitness.isNone)
    Covers generation []
      ((schedule.order number unscored.length).filterMap fun job =>
        unscored[job]?.map (job, ·)) := by
  intro unscored
  refine ⟨fun job hjob => .inr ?_, fun job v hv => absurd hv List.not_mem_nil⟩
  rw [(jobs_spec schedule number unscored).1]
  exact (schedule.perm _ _).mem_iff.mpr (List.mem_range.mpr hjob)

theorem Covers.record {generation : List (Variant α)}
    {results : List (Nat × Except RepairFault (Variant α))} {job : Nat} {v : Variant α}
    {jobs : List (Nat × Variant α)} (h : Covers generation results ((job, v) :: jobs))
    {answer : Except RepairFault (Variant α)}
    (ha : ∀ v', answer = .ok v' → v'.fitness.isSome = true) :
    Covers generation (results ++ [(job, answer)]) jobs := by
  constructor
  · intro i hi
    rw [List.map_append, List.mem_append]
    obtain hr | hj := h.all i hi
    · exact .inl (.inl hr)
    · obtain rfl | hj := List.mem_cons.mp hj
      · exact .inl (.inr (List.mem_singleton_self i))
      · exact .inr hj
  · intro i v' hv'
    obtain hr | hn := List.mem_append.mp hv'
    · exact h.scored i v' hr
    · obtain ⟨-, ha'⟩ := Prod.mk.inj (List.mem_singleton.mp hn)
      exact ha v' ha'.symm

variable [Scalar α]

/-- An offer may replace the best variant, and nothing else. -/
theorem offer_frame (e : Evaluator α) (v : Variant α) :
    (e.offer v).2.policy = e.policy ∧ (e.offer v).2.baseline = e.baseline ∧
      ((e.offer v).2.best = e.best ∨ (e.offer v).2.best = some v) := by
  rw [Evaluator.offer_eq]
  refine ⟨rfl, rfl, ?_⟩
  obtain ⟨hsame, -⟩ | ⟨-, hin, -⟩ := Evaluator.fitter_cases e.best v
  · exact .inl hsame
  · exact .inr hin

theorem offers_frame (vs : List (Variant α)) (b : Bench α ω) :
    (vs.foldl Bench.offer b).evaluator.policy = b.evaluator.policy ∧
      (vs.foldl Bench.offer b).evaluator.baseline = b.evaluator.baseline ∧
      ((vs.foldl Bench.offer b).evaluator.best = b.evaluator.best ∨
        ∃ v ∈ vs, (vs.foldl Bench.offer b).evaluator.best = some v) := by
  induction vs generalizing b with
  | nil => exact ⟨rfl, rfl, .inl rfl⟩
  | cons v vs ih =>
    obtain ⟨hp, hb, hbest⟩ := ih (b.offer v)
    obtain ⟨hp', hb', hbest'⟩ := offer_frame b.evaluator v
    refine ⟨hp.trans hp', hb.trans hb', ?_⟩
    obtain hbest | ⟨w, hw, hbest⟩ := hbest
    · obtain hbest' | hbest' := hbest'
      · exact .inl (hbest.trans hbest')
      · exact .inr ⟨v, List.mem_cons_self, hbest.trans hbest'⟩
    · exact .inr ⟨w, List.mem_cons_of_mem v hw, hbest⟩

end Offers

/-! ## One step -/

/-- When some in a line have been replaced, the others are those that were in it before. -/
theorem mem_replace {β : Type} {own x : β} {done made todo : List β} (used : List β)
    (h : x ∈ own :: ((done ++ made) ++ todo)) : x ∈ made ∨ x ∈ own :: (done ++ (used ++ todo)) := by
  rw [List.mem_cons, List.mem_append, List.mem_append] at h
  obtain rfl | (h | h) | h := h
  · exact .inr List.mem_cons_self
  · exact .inr (List.mem_cons_of_mem _ (List.mem_append_left _ h))
  · exact .inl h
  · exact .inr (List.mem_cons_of_mem _ (List.mem_append_right _ (List.mem_append_right _ h)))

/-- What holds of all in a line holds of all after some have been replaced, if it holds of the new
ones. -/
theorem forall_mem_replace {β : Type} {P : β → Prop} {own : β} {done made todo : List β}
    (used : List β) (h : ∀ x ∈ own :: (done ++ (used ++ todo)), P x) (hmade : ∀ x ∈ made, P x) :
    ∀ x ∈ own :: ((done ++ made) ++ todo), P x :=
  fun x hx => (mem_replace used hx).elim (hmade x) (h x)

/-- The invariant after a step, as a property of what the step returns. -/
def Onward (p : FitnessPolicy Rat) (ratings : List (Rating Rat))
    (answer : (Stage Rat × Option (Rating Rat)) × Search Rat ω) : Prop :=
  Sound p ⟨answer.2, answer.1.1, ratings ++ answer.1.2.toList⟩

variable {p : FitnessPolicy Rat} {s s' : Search Rat ω} {stage stage' : Stage Rat}
  {ratings : List (Rating Rat)} {course : Course Rat}

/-- How the invariant gets through a step that does not set the baseline. -/
theorem Sound.advance {rating : Option (Rating Rat)} (h : Sound p ⟨s, stage, ratings⟩)
    (hpolicy : s'.bench.evaluator.policy = s.bench.evaluator.policy)
    (hbaseline : s'.bench.evaluator.baseline = s.bench.evaluator.baseline)
    (hbest : s'.bench.evaluator.best = s.bench.evaluator.best ∨
      ∃ v, s'.bench.evaluator.best = some v ∧
        v.Assessed p s.bench.evaluator.baseline (ratings ++ rating.toList))
    (hvariants : ∀ v ∈ stage'.variants,
      v.Inherits (⟨s, stage, ratings⟩ : Moment Rat ω).variants ∨
        v.Assessed p s.bench.evaluator.baseline (ratings ++ rating.toList))
    (hstage : stage'.InOrder s'.bench.evaluator) :
    Onward p ratings ((stage', rating), s') := by
  have hold : ∀ v : Variant Rat, v.Inherits (⟨s, stage, ratings⟩ : Moment Rat ω).variants →
      v.Assessed p s.bench.evaluator.baseline (ratings ++ rating.toList) := fun v hv =>
    (Variant.Assessed.inherits hv h.assessed).mono fun r hr => List.mem_append_left _ hr
  refine ⟨hpolicy.trans h.policy_eq, ?_, ?_, hstage⟩
  · show ∀ base, s'.bench.evaluator.baseline = some base → base.Fits p
    rw [hbaseline]
    exact h.fits
  · intro v hv
    show v.Assessed p s'.bench.evaluator.baseline (ratings ++ rating.toList)
    rw [hbaseline]
    obtain hv | hv := List.mem_append.mp hv
    · obtain hbest | ⟨w, hbest, hw⟩ := hbest
      · refine hold v (.of_mem (List.mem_append_left _ ?_))
        rwa [hbest] at hv
      · rw [hbest] at hv
        rwa [List.mem_singleton.mp hv]
    · obtain hv | hv := hvariants v hv
      · exact hold v hv
      · exact hv

/-- A step that rates nothing: it leaves the evaluator alone and hands the variants on. -/
theorem Sound.handOn (h : Sound p ⟨s, stage, ratings⟩)
    (he : s'.bench.evaluator = s.bench.evaluator)
    (hv : ∀ v ∈ stage'.variants, v.Inherits (⟨s, stage, ratings⟩ : Moment Rat ω).variants)
    (hstage : stage'.InOrder s.bench.evaluator) : Onward p ratings ((stage', none), s') := by
  refine h.advance (congrArg _ he) (congrArg _ he) (.inl (congrArg _ he))
    (fun v hmem => .inl (hv v hmem)) ?_
  rwa [he]

theorem inherits_of_inherits {v : Variant Rat} {parents : List (Variant Rat)}
    (h : v.Inherits parents) (hsub : ∀ w ∈ parents, w ∈ stage.variants) :
    v.Inherits (⟨s, stage, ratings⟩ : Moment Rat ω).variants :=
  h.mono fun w hw => List.mem_append_right _ (hsub w hw)

/-- A variant in hand at a stage is one at that moment. -/
theorem inherits_of_mem {v : Variant Rat} (h : v ∈ stage.variants) :
    v.Inherits (⟨s, stage, ratings⟩ : Moment Rat ω).variants :=
  .of_mem (List.mem_append_right _ h)

/-- Whoever of a generation becomes the best, it has what it had. -/
theorem Sound.best_of_offers (h : Sound p ⟨s, stage, ratings⟩) {vs : List (Variant Rat)}
    (hvs : ∀ v ∈ vs, v.Inherits (⟨s, stage, ratings⟩ : Moment Rat ω).variants) :
    (vs.foldl Bench.offer s.bench).evaluator.best = s.bench.evaluator.best ∨
      ∃ v, (vs.foldl Bench.offer s.bench).evaluator.best = some v ∧
        v.Assessed p s.bench.evaluator.baseline
          (ratings ++ (none : Option (Rating Rat)).toList) := by
  obtain hsame | ⟨v, hv, hbest⟩ := (offers_frame vs s.bench).2.2
  · exact .inl hsame
  · refine .inr ⟨v, hbest, ?_⟩
    exact (Variant.Assessed.inherits (hvs v hv) h.assessed).mono fun r hr =>
      List.mem_append_left _ hr

theorem Sound.giveUp (h : Sound p ⟨s, stage, ratings⟩) (ho : course.original ∈ stage.variants)
    {outcome : Outcome} (hout : outcome ≠ .repaired) :
    Onward p ratings (((giveUp outcome course s).1, none), (giveUp outcome course s).2) := by
  refine h.handOn rfl (fun v hv => ?_) fun hrep => absurd hrep hout
  obtain rfl := List.mem_singleton.mp hv
  show Variant.Inherits (s.bench.evaluator.best.getD course.original) _
  cases hbest : s.bench.evaluator.best with
  | none => exact inherits_of_mem ho
  | some best =>
    refine .of_mem (List.mem_append_left _ ?_)
    rw [hbest]
    exact List.mem_singleton_self best

theorem variants_assessing (settings : Settings Rat) (c : Collaborators Rat ω)
    (generation : List (Variant Rat)) :
    ∀ v ∈ (assessing settings c course generation).variants, v ∈ course.original :: generation := by
  intro v hv
  unfold assessing at hv
  split at hv
  · simpa [Stage.variants] using hv
  · simpa [Stage.variants] using hv

theorem inOrder_assessing (settings : Settings Rat) (c : Collaborators Rat ω) {e : Evaluator Rat}
    (hf : course.Follows e) (generation : List (Variant Rat)) :
    (assessing settings c course generation).InOrder e := by
  unfold assessing
  split
  · exact ⟨hf, covers_jobs c.schedule course.generation generation⟩
  · exact ⟨hf, fun v hv => absurd hv List.not_mem_nil⟩

/-- A run that goes on from its first run is sound if the program has what that run says. -/
theorem sound_embark {settings : Settings Rat} {original : Variant Rat} {base : Baseline Rat}
    {rating : Rating Rat}
    (hpolicy : s.bench.evaluator.policy = p) (hbaseline : s.bench.evaluator.baseline = some base)
    (hbest : s.bench.evaluator.best = none) (hfits : base.Fits p)
    (ho : original.Assessed p (some base) (ratings ++ [rating])) :
    Onward p ratings (((embark settings original base.maximum s).1, some rating),
      (embark settings original base.maximum s).2) := by
  obtain ⟨hpolicy', hbaseline', hbest'⟩ := offer_frame s.bench.evaluator original
  rw [hpolicy] at hpolicy'
  rw [hbaseline] at hbaseline'
  rw [hbest] at hbest'
  have hoffered : ∀ v ∈ (s.bench.evaluator.offer original).2.best.toList ++ [original],
      v.Assessed p (s.bench.evaluator.offer original).2.baseline (ratings ++ [rating]) := by
    intro v hv
    rw [hbaseline']
    obtain hv | hv := List.mem_append.mp hv
    · obtain hbest' | hbest' := hbest'
      · rw [hbest'] at hv
        exact absurd hv List.not_mem_nil
      · rw [hbest'] at hv
        rwa [List.mem_singleton.mp hv]
    · rwa [List.mem_singleton.mp hv]
  have hfits' : ∀ found, (s.bench.evaluator.offer original).2.baseline = some found →
      found.Fits p := by
    intro found hfound
    rw [hbaseline'] at hfound
    obtain rfl := Option.some.inj hfound
    exact hfits
  rw [embark, bind_apply, bind_apply]
  by_cases hr : isRepair base.maximum original = true
  · rw [if_pos hr]
    exact ⟨hpolicy', hfits', hoffered, fun _ => ⟨base, hbaseline', hr⟩⟩
  · rw [if_neg hr]
    exact ⟨hpolicy', hfits', hoffered, ⟨base, hbaseline', rfl⟩,
      fun v hv => absurd hv List.not_mem_nil⟩

theorem sound_start (policy : FitnessPolicy Rat) (suspicion : SuspicionPolicy Rat) (root : Node)
    (hs : s.bench.evaluator = .new policy suspicion) : Sound policy (start root s) := by
  refine ⟨congrArg Evaluator.policy hs, fun base hb => ?_, fun v hv => ?_,
    congrArg Evaluator.best hs⟩
  · exact absurd ((congrArg Evaluator.baseline hs).symm.trans hb) nofun
  · have hnone : s.bench.evaluator.best = none := congrArg Evaluator.best hs
    rw [Moment.variants, start, hnone] at hv
    exact absurd hv List.not_mem_nil

variable [Root Rat] {settings : Settings Rat} {c : Collaborators Rat ω}

theorem Sound.next_between {population : List (Variant Rat)}
    (h : Sound p ⟨s, .between course population, ratings⟩) :
    Onward p ratings (Stage.next settings c (.between course population) s) := by
  have hown : course.original ∈ (Stage.between course population).variants := List.mem_cons_self
  rw [Stage.next]
  cases course.remaining with
  | zero => exact h.giveUp hown (by decide)
  | succ remaining =>
    simp only []
    rw [bind_apply]
    -- looking whether the run is cancelled concerns the memory only
    have hasked : Sound p ⟨(isCancelled c s).2, .between course population, ratings ++ []⟩ :=
      h.handOn rfl (fun v hv => inherits_of_mem hv) h.inOrder
    rw [List.append_nil] at hasked
    cases (isCancelled c s).1 with
    | true => exact hasked.giveUp hown (by decide)
    | false =>
      have hs := steady_selectParents settings population
        (enter course.generation (isCancelled c s).2).2
      refine hasked.handOn hs.1 (fun v hv => ?_) h.inOrder.1
      obtain rfl | hv := List.mem_cons.mp hv
      · exact inherits_of_mem hown
      · exact inherits_of_inherits (hs.2 v hv) fun w hw => List.mem_cons_of_mem _ hw

theorem Sound.next_crossing {bred parents : List (Variant Rat)}
    (h : Sound p ⟨s, .crossing course bred parents, ratings⟩) :
    Onward p ratings (Stage.next settings c (.crossing course bred parents) s) := by
  have hown : course.original ∈ (Stage.crossing course bred parents).variants :=
    List.mem_cons_self
  -- the last parents, with fewer than two left
  have hlast : ∀ rest, rest = parents → Onward p ratings
      ((.varying course [] (refill settings course.original (bred ++ rest) s).1, none),
        (refill settings course.original (bred ++ rest) s).2) := by
    intro rest hrest
    have hs := steady_refill settings course.original (bred ++ rest) s
    refine h.handOn hs.1 (fun v hv => ?_) h.inOrder
    obtain rfl | hv := List.mem_cons.mp hv
    · exact inherits_of_mem hown
    · refine inherits_of_inherits (hs.2 v hv) fun w hw => ?_
      rwa [hrest] at hw
  match parents with
  | [] => exact hlast [] rfl
  | [a] => exact hlast [a] rfl
  | a :: b :: rest =>
    have hs := steady_crossPair a b s
    refine h.handOn hs.1 (fun v hv => ?_) h.inOrder
    obtain hv | hv := mem_replace [a, b] hv
    · refine inherits_of_inherits (hs.2 v hv) fun w hw => ?_
      exact List.mem_cons_of_mem _ (List.mem_append_right _ (List.mem_append_left rest hw))
    · exact inherits_of_mem hv

theorem Sound.next_varying {done todo : List (Variant Rat)}
    (h : Sound p ⟨s, .varying course done todo, ratings⟩) :
    Onward p ratings (Stage.next settings c (.varying course done todo) s) := by
  cases todo with
  | nil =>
    refine h.handOn rfl (fun v hv => inherits_of_mem ?_)
      (inOrder_assessing settings c h.inOrder done)
    have hv := variants_assessing settings c done v hv
    rwa [Stage.variants, List.append_nil]
  | cons v todo =>
    have hs := steady_vary settings c v s
    refine h.handOn hs.1 (fun w hw => ?_) h.inOrder
    obtain hw | hw := mem_replace [v] hw
    · obtain rfl := List.mem_singleton.mp hw
      refine inherits_of_inherits hs.2 fun u hu => ?_
      exact List.mem_cons_of_mem _ (List.mem_append_right _ (List.mem_append_left todo hu))
    · exact inherits_of_mem hw

/-! ## One evaluation -/

theorem evaluate_frame {b b' : Bench Rat ω} {base : Baseline Rat}
    (hb : b.evaluator.baseline = some base) {executor : Executor Rat ω} {v : Variant Rat}
    {answer : Except RepairFault (Assessment Rat × Variant Rat)}
    (hev : b.evaluate executor v = (answer, b')) :
    b'.evaluator.policy = b.evaluator.policy ∧ b'.evaluator.baseline = b.evaluator.baseline ∧
      b'.evaluator.best = b.evaluator.best := by
  have h : (answer, b').2.evaluator = b.count.evaluator := hev ▸ Bench.evaluator_evaluate hb
  have h' : b'.evaluator = b.count.evaluator := h
  rw [h']
  exact ⟨rfl, rfl, rfl⟩

/-- An evaluation during a run gives the variant exact figures, and a rating that says so. -/
theorem Sound.evaluate (h : Sound p ⟨s, stage, ratings⟩) {base : Baseline Rat}
    (hb : s.bench.evaluator.baseline = some base) {v v' : Variant Rat} {a : Assessment Rat}
    {b' : Bench Rat ω} (hev : s.bench.evaluate c.executor v = (.ok (a, v'), b')) :
    v'.fitness.isSome = true ∧
      v'.Assessed p s.bench.evaluator.baseline
        (ratings ++ [⟨v.root, a.fitness, a.failing⟩]) := by
  have hfits : base.Fits s.bench.evaluator.policy := by
    rw [h.policy_eq]
    exact h.fits base hb
  obtain ⟨hexact, stale, rfl⟩ := Bench.exact_of_evaluate hb hfits hev
  rw [h.policy_eq] at hexact
  refine ⟨rfl, fun fitness hf => ⟨base, hb, ?_, ?_⟩⟩
  · obtain rfl := Option.some.inj hf
    exact hexact
  · obtain rfl := Option.some.inj hf
    exact List.mem_append_right _ List.mem_cons_self

/-- The turn of a variant without fitness, when its evaluation succeeds. -/
theorem Sound.next_turn {done todo : List (Variant Rat)} {v v' : Variant Rat} {a : Assessment Rat}
    {b' : Bench Rat ω} (h : Sound p ⟨s, .rating course done (v :: todo), ratings⟩)
    (hv : v.fitness.isSome ≠ true) (hev : s.bench.evaluate c.executor v = (.ok (a, v'), b')) :
    Onward p ratings (Stage.next settings c (.rating course done (v :: todo)) s) := by
  obtain ⟨⟨base, hb, hmax⟩, hdone⟩ := h.inOrder
  obtain ⟨hpolicy, hbaseline, hbest⟩ := evaluate_frame hb hev
  obtain ⟨hsome, hassessed⟩ := h.evaluate hb hev
  obtain ⟨hpolicy', hbaseline', hbest'⟩ := offer_frame b'.evaluator v'
  have hkept : (b'.evaluator.offer v').2.baseline = some base :=
    (hbaseline'.trans hbaseline).trans hb
  have hoffered : (b'.evaluator.offer v').2.best = s.bench.evaluator.best ∨
      ∃ w, (b'.evaluator.offer v').2.best = some w ∧
        w.Assessed p s.bench.evaluator.baseline
          (ratings ++ [⟨v.root, a.fitness, a.failing⟩]) :=
    hbest'.imp (·.trans hbest) fun hbest' => ⟨v', hbest', hassessed⟩
  rw [Stage.next, if_neg hv, bind_apply, evaluateNext_of_ok hev]
  simp only []
  by_cases hr : isRepair course.maximum v' = true
  · rw [if_pos hr]
    refine h.advance (hpolicy'.trans hpolicy) (hbaseline'.trans hbaseline) hoffered
      (fun w hw => .inr ?_) fun _ => ⟨base, hkept, hmax ▸ hr⟩
    rwa [List.mem_singleton.mp hw]
  · rw [if_neg hr]
    refine h.advance (hpolicy'.trans hpolicy) (hbaseline'.trans hbaseline) hoffered
      (fun w hw => ?_) ⟨⟨base, hkept, hmax⟩, fun w hw => ?_⟩
    · obtain hw | hw := mem_replace [v] hw
      · rw [List.mem_singleton.mp hw]
        exact .inr hassessed
      · exact .inl (inherits_of_mem hw)
    · obtain hw | hw := List.mem_append.mp hw
      · exact hdone w hw
      · rwa [List.mem_singleton.mp hw]

theorem Sound.next_rating {done todo : List (Variant Rat)}
    (h : Sound p ⟨s, .rating course done todo, ratings⟩) :
    Onward p ratings (Stage.next settings c (.rating course done todo) s) := by
  obtain ⟨⟨base, hb, hmax⟩, hdone⟩ := h.inOrder
  cases todo with
  | nil =>
    refine h.handOn rfl (fun v hv => inherits_of_mem ?_) ⟨⟨base, hb, hmax⟩, hdone⟩
    rwa [Stage.variants, List.append_nil]
  | cons v todo =>
    by_cases hv : v.fitness.isSome = true
    · rw [Stage.next, if_pos hv]
      refine h.handOn rfl (fun w hw => inherits_of_mem ?_) ⟨⟨base, hb, hmax⟩, fun w hw => ?_⟩
      · rwa [Stage.variants, List.append_assoc] at hw
      · obtain hw | hw := List.mem_append.mp hw
        · exact hdone w hw
        · rwa [List.mem_singleton.mp hw]
    · rcases hev : s.bench.evaluate c.executor v with ⟨e | ⟨a, v'⟩, b'⟩
      · obtain ⟨hpolicy, hbaseline, hbest⟩ := evaluate_frame hb hev
        rw [Stage.next, if_neg hv, bind_apply, evaluateNext_of_error hev]
        exact h.advance hpolicy hbaseline (.inl hbest) (fun w hw => absurd hw List.not_mem_nil)
          trivial
      · exact h.next_turn hv hev

/-! ## A batch -/

theorem Sound.next_job {generation : List (Variant Rat)}
    {results : List (Nat × Except RepairFault (Variant Rat))} {job : Nat} {v : Variant Rat}
    {jobs : List (Nat × Variant Rat)}
    (h : Sound p ⟨s, .batch course generation results ((job, v) :: jobs), ratings⟩) :
    Onward p ratings (Stage.next settings c
      (.batch course generation results ((job, v) :: jobs)) s) := by
  obtain ⟨⟨base, hb, hmax⟩, hcovers⟩ := h.inOrder
  rcases hev : s.bench.evaluate c.executor v with ⟨answer, b'⟩
  obtain ⟨hpolicy, hbaseline, hbest⟩ := evaluate_frame hb hev
  rw [Stage.next, bind_apply, onBench_eq hev rfl]
  refine h.advance hpolicy hbaseline (.inl hbest) (fun w hw => ?_)
    ⟨⟨base, hbaseline.trans hb, hmax⟩, hcovers.record fun v' hv' => ?_⟩
  · rw [Stage.variants, List.filterMap_append, ← List.append_assoc, ← List.cons_append,
      List.mem_append] at hw
    obtain hw | hw := hw
    · exact .inl (inherits_of_mem hw)
    -- only the answer is new, and only if it brings a variant
    · cases answer with
      | error e => exact absurd hw List.not_mem_nil
      | ok answer =>
        rw [List.mem_singleton.mp hw]
        exact .inr (h.evaluate hb hev).2
  · obtain ⟨⟨a, v''⟩, rfl, rfl⟩ := exists_of_map_eq_ok hv'
    exact (h.evaluate hb hev).1

theorem Sound.next_batch {generation : List (Variant Rat)}
    {results : List (Nat × Except RepairFault (Variant Rat))}
    (h : Sound p ⟨s, .batch course generation results [], ratings⟩) :
    Onward p ratings (Stage.next settings c (.batch course generation results []) s) := by
  obtain ⟨⟨base, hb, hmax⟩, hcovers⟩ := h.inOrder
  rw [Stage.next, bind_apply]
  cases hset : settle results 0 generation with
  | error e => exact h.handOn rfl (fun v hv => absurd hv List.not_mem_nil) trivial
  | ok evaluated =>
    have hmem := mem_settle hset fun i hi => by
      rw [Nat.zero_add]
      exact (hcovers.all i hi).resolve_right List.not_mem_nil
    have hold : ∀ v ∈ evaluated,
        v.Inherits (⟨s, .batch course generation results [], ratings⟩ : Moment Rat ω).variants := by
      intro v hv
      obtain ⟨hv, -⟩ | ⟨job, hv⟩ := hmem v hv
      · exact inherits_of_mem (List.mem_cons_of_mem _ (List.mem_append_left _ hv))
      · exact inherits_of_mem (List.mem_cons_of_mem _ (List.mem_append_right _
          (List.mem_filterMap.mpr ⟨_, hv, rfl⟩)))
    obtain ⟨hpolicy, hbaseline, -⟩ := offers_frame evaluated s.bench
    have hbest := h.best_of_offers hold
    simp only []
    cases hfix : evaluated.find? (isRepair course.maximum) with
    | some fix =>
      refine h.advance hpolicy hbaseline hbest (fun v hv => ?_)
        fun _ => ⟨base, hbaseline.trans hb, ?_⟩
      · rw [List.mem_singleton.mp hv]
        exact .inl (hold fix (List.mem_of_find?_eq_some hfix))
      · rw [← hmax]
        exact List.find?_some hfix
    | none =>
      refine h.advance hpolicy hbaseline hbest (fun v hv => ?_)
        ⟨⟨base, hbaseline.trans hb, hmax⟩, fun v hv => ?_⟩
      · obtain rfl | hv := List.mem_cons.mp hv
        · exact .inl (inherits_of_mem List.mem_cons_self)
        · exact .inl (hold v hv)
      · obtain ⟨-, hv⟩ | ⟨job, hv⟩ := hmem v hv
        · exact hv
        · exact hcovers.scored job v hv

/-! ## The first step -/

theorem Sound.next_fresh {root : Node} (h : Sound p ⟨s, .fresh root, ratings⟩) :
    Onward p ratings (Stage.next settings c (.fresh root) s) := by
  have hpolicy : s.bench.evaluator.policy = p := h.policy_eq
  rw [Stage.next]
  cases hvalid : settings.validate with
  | error fault =>
    rw [opening, hvalid]
    exact h.handOn rfl (fun v hv => absurd hv List.not_mem_nil) trivial
  | ok _ =>
    rcases hes : s.bench.establish c.executor root with ⟨fault | a, b'⟩
    · obtain ⟨result, s', hopening, hs', hresult⟩ := opening_of_error hvalid hes
      rw [hopening]
      have hsame : s'.bench.evaluator = s.bench.evaluator := by
        rw [hs']
        exact Bench.evaluator_of_establish hes
      cases result with
      | error fault => exact h.handOn hsame (fun v hv => absurd hv List.not_mem_nil) trivial
      | ok report =>
        obtain ⟨hunfit, hnone, -⟩ := hresult report rfl
        refine h.handOn hsame (fun v hv => .inl ?_) fun hrepaired => ?_
        · rw [List.mem_singleton.mp hv]
          exact hnone
        · rw [hunfit] at hrepaired
          cases hrepaired
    · obtain ⟨base, he, hroot, hfits, hfitness, hfailing⟩ := Bench.fits_of_establish hes
      rw [hpolicy] at hfits hfitness
      rw [opening_of_ok hvalid hes (by rw [he])]
      refine sound_embark ?_ ?_ ?_ hfits fun fitness hf => ⟨base, rfl, ?_, ?_⟩
      · rw [outset, he]
        exact hpolicy
      · rw [outset, he]
      · rw [outset, he]
        exact h.inOrder
      · obtain rfl := Option.some.inj hf
        show p.Exact base.tests a.fitness a.failing
        rw [hfitness, hfailing]
        exact p.exact_baseline base.tests
      · obtain rfl := Option.some.inj hf
        exact List.mem_append_right _ List.mem_cons_self

/-- One step of a run keeps the invariant. -/
theorem Sound.step {m : Moment Rat ω} (h : Sound p m) : Sound p (step settings c m) := by
  obtain ⟨s, stage, ratings⟩ := m
  show Onward p ratings (stage.next settings c s)
  match stage with
  | .fresh root => exact h.next_fresh
  | .between course population => exact h.next_between
  | .crossing course bred parents => exact h.next_crossing
  | .varying course done todo => exact h.next_varying
  | .rating course done todo => exact h.next_rating
  | .batch course generation results [] => exact h.next_batch
  | .batch course generation results ((job, v) :: jobs) => exact h.next_job
  | .over result => exact h.handOn rfl (fun v hv => inherits_of_mem hv) h.inOrder

/-! ## All of a run -/

theorem sound_iterate {m : Moment Rat ω} (h : Sound p m) (n : Nat) :
    Sound p ((step settings c)^[n] m) := by
  induction n with
  | zero => exact h
  | succ n ih =>
    rw [Function.iterate_succ_apply']
    exact ih.step

/-- At every moment of a run on a new evaluator, what is known about a variant was found out at an
earlier moment about the very program that it holds, and is exact. No population is bred from before
all of it has been evaluated. -/
theorem exact_throughout (policy : FitnessPolicy Rat) (suspicion : SuspicionPolicy Rat)
    (settings : Settings Rat) (c : Collaborators Rat ω) (root : Node) (s : Search Rat ω) :
    let fresh : Search Rat ω :=
      { s with bench := { s.bench with evaluator := .new policy suspicion } }
    let moment : Nat → Moment Rat ω := fun n => (step settings c)^[n] (start root fresh)
    (∃ n, (moment n).search = (run settings c root fresh).2 ∧
      (moment n).stage = .over (run settings c root fresh).1) ∧
    ∀ n,
      (∀ v ∈ (moment n).variants, ∀ fitness, v.fitness = some fitness →
        ∃ base, (moment n).search.bench.evaluator.baseline = some base ∧
          (∀ id ∈ v.failing, id ∈ base.tests.all) ∧
          fitness =
            policy.negativeWeight * ((base.tests.negative.filter (· ∉ v.failing)).size : Rat) +
              policy.positiveWeight * ((base.tests.positive.filter (· ∉ v.failing)).size : Rat) ∧
          ∃ k < n, Rates c (moment k).search ⟨v.root, fitness, v.failing⟩) ∧
      ∀ course population, (moment n).stage = .between course population →
        ∀ v ∈ population, v.fitness.isSome = true := by
  intro fresh moment
  refine ⟨?_, fun n => ⟨fun v hv fitness hf => ?_, fun course population hstage => ?_⟩⟩
  · obtain ⟨n, ratings, hn⟩ := iterate_step_start settings c root fresh
    exact ⟨n, congrArg Moment.search hn, congrArg Moment.stage hn⟩
  · have hsound : Sound policy (moment n) :=
      sound_iterate (sound_start policy suspicion root rfl) n
    obtain ⟨base, hb, hexact, hrated⟩ := hsound.assessed v hv fitness hf
    exact ⟨base, hb, hexact.known, hexact.fitness_eq, exists_rates n hrated⟩
  · have hsound : Sound policy (moment n) :=
      sound_iterate (sound_start policy suspicion root rfl) n
    have hin := hsound.inOrder
    rw [hstage] at hin
    exact hin.2

end Search

end GeneticRepair
