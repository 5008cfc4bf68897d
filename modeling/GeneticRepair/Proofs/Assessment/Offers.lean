import GeneticRepair.Assessment.Evaluator
import Mathlib.Data.List.Induction

/-!
# `Proofs/Assessment/Offers.lean` — the best variant so far

An offer concerns nothing but the best variant, and what it makes of it is `fitter`. A variant that
is not fitter than the best one so far (`Tops`) can be offered again and again: it never gets in,
also after others have. What a new evaluator keeps of the variants it is offered is the `leader`,
and that is the first one with the highest fitness (`leader_spec`). That takes an order that is
transitive and irreflexive, and no more.
-/

set_option autoImplicit false

namespace GeneticRepair

variable {α ω : Type} [Scalar α]

namespace Evaluator

/-- The fitter one of the best variant so far, if there is one, and another variant. -/
def fitter (best : Option (Variant α)) (v : Variant α) : Option (Variant α) :=
  match v.fitness with
  | none => best
  | some fitness =>
    match best.bind (·.fitness) with
    | none => some v
    | some incumbent => if incumbent < fitness then some v else best

theorem offer_eq (e : Evaluator α) (v : Variant α) :
    (e.offer v).2 = { e with best := fitter e.best v } := by
  unfold offer fitter
  cases v.fitness with
  | none => rfl
  | some fitness =>
    cases e.best.bind (·.fitness) with
    | none => rfl
    | some incumbent =>
      simp only [decide_eq_true_eq]
      split
      · rfl
      · rfl

/-- The variant is not fitter than the best one. -/
def Tops (best : Option (Variant α)) (v : Variant α) : Prop :=
  ∀ fitness, v.fitness = some fitness →
    ∃ incumbent, best.bind (·.fitness) = some incumbent ∧ ¬ incumbent < fitness

variable {best : Option (Variant α)} {v w : Variant α}

theorem fitter_of_tops (h : Tops best v) : fitter best v = best := by
  unfold fitter
  cases hv : v.fitness with
  | none => rfl
  | some fitness =>
    obtain ⟨incumbent, hbest, hnot⟩ := h fitness hv
    simp only [hbest]
    rw [if_neg hnot]

theorem fitter_of_above {fitness : α} (hv : v.fitness = some fitness)
    (h : ∀ incumbent, best.bind (·.fitness) = some incumbent → incumbent < fitness) :
    fitter best v = some v := by
  unfold fitter
  rw [hv]
  cases hbest : best.bind (·.fitness) with
  | none => rfl
  | some incumbent =>
    simp only []
    rw [if_pos (h incumbent hbest)]

theorem Tops.of_none (h : v.fitness = none) : Tops best v := by
  intro fitness hv
  rw [h] at hv
  cases hv

/-- How a variant gets in. -/
theorem fitter_cases (best : Option (Variant α)) (v : Variant α) :
    (fitter best v = best ∧ Tops best v) ∨
      ∃ fitness, fitter best v = some v ∧ v.fitness = some fitness ∧
        ∀ incumbent, best.bind (·.fitness) = some incumbent → incumbent < fitness := by
  cases hv : v.fitness with
  | none => exact .inl ⟨fitter_of_tops (.of_none hv), .of_none hv⟩
  | some fitness =>
    by_cases habove : ∀ incumbent, best.bind (·.fitness) = some incumbent → incumbent < fitness
    · exact .inr ⟨fitness, fitter_of_above hv habove, rfl, habove⟩
    · simp only [Classical.not_forall] at habove
      obtain ⟨incumbent, hbest, hnot⟩ := habove
      have htops : Tops best v := fun other hother =>
        ⟨incumbent, hbest, Option.some.inj (hv.symm.trans hother) ▸ hnot⟩
      exact .inl ⟨fitter_of_tops htops, htops⟩

/-- Once it has been offered, a variant is not fitter than the best one. -/
theorem tops_offered (hirrefl : ∀ x : α, ¬ x < x) (best : Option (Variant α)) (v : Variant α) :
    Tops (fitter best v) v := by
  obtain ⟨hsame, htops⟩ | ⟨fitness, hin, hv, -⟩ := fitter_cases best v
  · rwa [hsame]
  · rw [hin]
    intro other hother
    rw [hv] at hother
    obtain rfl := Option.some.inj hother
    exact ⟨fitness, hv, hirrefl fitness⟩

section

variable (htrans : ∀ x y z : α, x < y → y < z → x < z)

include htrans

/-- It stays so when others are offered. -/
theorem Tops.offer (h : Tops best w) (v : Variant α) : Tops (fitter best v) w := by
  obtain ⟨hsame, -⟩ | ⟨fitness, hin, hv, habove⟩ := fitter_cases best v
  · rwa [hsame]
  · rw [hin]
    intro other hother
    obtain ⟨incumbent, hbest, hnot⟩ := h other hother
    exact ⟨fitness, hv, fun hlt => hnot (htrans _ _ _ (habove incumbent hbest) hlt)⟩

theorem Tops.offers (h : Tops best w) (vs : List (Variant α)) :
    Tops (vs.foldl fitter best) w := by
  induction vs generalizing best with
  | nil => exact h
  | cons v vs ih => exact ih (h.offer htrans v)

/-- None of the variants offered is fitter than the best one in the end. -/
theorem tops_of_mem (hirrefl : ∀ x : α, ¬ x < x) {vs : List (Variant α)} (h : w ∈ vs) :
    Tops (vs.foldl fitter best) w := by
  induction vs generalizing best with
  | nil => cases h
  | cons v vs ih =>
    obtain rfl | h := List.mem_cons.mp h
    · exact (tops_offered hirrefl best w).offers htrans vs
    · exact ih h

end

/-! ## The best of all -/

/-- The best variant after some have been offered to a new evaluator. -/
def leader (vs : List (Variant α)) : Option (Variant α) := vs.foldl fitter none

/-- The fitness is one of those of the variants, and none of them is above it. -/
structure Highest (fitness : α) (vs : List (Variant α)) : Prop where
  attained : ∃ v ∈ vs, v.fitness = some fitness
  not_lt : ∀ v ∈ vs, ∀ other, v.fitness = some other → ¬ fitness < other

/-- The variant is the first one with the highest fitness. -/
def Foremost (v : Variant α) (vs : List (Variant α)) : Prop :=
  ∃ fitness before after, vs = before ++ v :: after ∧ v.fitness = some fitness ∧
    Highest fitness vs ∧ ∀ w ∈ before, w.fitness ≠ some fitness

theorem leader_append (vs ws : List (Variant α)) :
    leader (vs ++ ws) = ws.foldl fitter (leader vs) := List.foldl_append

theorem Foremost.append {vs : List (Variant α)} (h : Foremost v vs) (hw : Tops (some v) w) :
    Foremost v (vs ++ [w]) := by
  obtain ⟨fitness, before, after, rfl, hv, ⟨-, hmax⟩, hfirst⟩ := h
  refine ⟨fitness, before, after ++ [w], by simp, hv, ⟨⟨v, by simp, hv⟩, ?_⟩, hfirst⟩
  refine List.forall_mem_append.mpr ⟨hmax, List.forall_mem_singleton.mpr fun other hother => ?_⟩
  obtain ⟨incumbent, hincumbent, hnot⟩ := hw other hother
  obtain rfl := Option.some.inj (hv.symm.trans hincumbent)
  exact hnot

/-- The leader is the first of the fittest variants; there is none just if no variant has a
fitness. -/
theorem leader_spec (hirrefl : ∀ x : α, ¬ x < x) (htrans : ∀ x y z : α, x < y → y < z → x < z)
    (vs : List (Variant α)) :
    (leader vs = none ∧ ∀ v ∈ vs, v.fitness = none) ∨
      ∃ v, leader vs = some v ∧ Foremost v vs := by
  induction vs using List.reverseRecOn with
  | nil => exact .inl ⟨rfl, nofun⟩
  | append_singleton vs w ih =>
    have hstep : leader (vs ++ [w]) = fitter (leader vs) w := leader_append vs [w]
    rw [hstep]
    obtain ⟨hsame, htops⟩ | ⟨fitness, hin, hw, habove⟩ := fitter_cases (leader vs) w
    · rw [hsame]
      obtain ⟨hnone, hall⟩ | ⟨v, hv, hforemost⟩ := ih
      · refine .inl ⟨hnone, List.forall_mem_append.mpr ⟨hall, List.forall_mem_singleton.mpr ?_⟩⟩
        refine Option.eq_none_iff_forall_ne_some.mpr fun fitness hw => ?_
        obtain ⟨incumbent, hincumbent, -⟩ := htops fitness hw
        rw [hnone] at hincumbent
        cases hincumbent
      · exact .inr ⟨v, hv, hforemost.append (hv ▸ htops)⟩
    · -- whoever was there before is below the one who gets in
      have hbelow : ∀ v ∈ vs, ∀ other, v.fitness = some other →
          other ≠ fitness ∧ ¬ fitness < other := by
        intro v hv other hother
        obtain ⟨-, hall⟩ | ⟨u, hu, highest, -, -, -, hfitness, ⟨-, hmax⟩, -⟩ := ih
        · rw [hall v hv] at hother
          cases hother
        · have hlt : highest < fitness := habove highest (by rw [hu]; exact hfitness)
          have hnot := hmax v hv other hother
          exact ⟨fun heq => hnot (heq ▸ hlt), fun hlt' => hnot (htrans _ _ _ hlt hlt')⟩
      refine .inr ⟨w, hin, fitness, vs, [], rfl, hw, ⟨⟨w, by simp, hw⟩, ?_⟩, fun v hv heq =>
        (hbelow v hv fitness heq).1 rfl⟩
      refine List.forall_mem_append.mpr ⟨fun v hv other hother => (hbelow v hv other hother).2,
        List.forall_mem_singleton.mpr fun other hother => ?_⟩
      obtain rfl := Option.some.inj (hw.symm.trans hother)
      exact hirrefl fitness

end Evaluator

namespace Bench

theorem offer_eq (b : Bench α ω) (v : Variant α) :
    b.offer v = { b with evaluator :=
      { b.evaluator with best := Evaluator.fitter b.evaluator.best v } } := by
  rw [offer, Evaluator.offer_eq]

theorem offers_eq (vs : List (Variant α)) (b : Bench α ω) :
    vs.foldl offer b = { b with evaluator :=
      { b.evaluator with best := vs.foldl Evaluator.fitter b.evaluator.best } } := by
  induction vs generalizing b with
  | nil => rfl
  | cons v vs ih => rw [List.foldl_cons, ih, offer_eq, List.foldl_cons]

end Bench

end GeneticRepair
