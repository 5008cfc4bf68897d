import Mathlib.Algebra.Order.Field.Basic
import GeneticRepair.Evolution.Roulette
import GeneticRepair.Proofs.Numeric.Exact

/-!
# `Proofs/Evolution/Slots.lean` — several pointers in one pass

The slot of a pointer is looked up from the first bound on (`slot`). Drawing many slots goes over the
bounds only once: every search begins where the last one stopped (`scan`). Nothing is missed that
way as long as the pointers ascend, for the bounds that were passed are at most the last pointer and
so at most the next one. The bounds themselves may be in any order.

* `slot_add_slot_drop`: a search may begin at the slot of a smaller pointer.
* `spread_eq_map_slot`: one pass finds what one search for each pointer finds.
-/

set_option autoImplicit false

namespace GeneticRepair.Roulette

section

variable {α : Type} [OrderedScalar α] {bounds : List α} {p q : α}

theorem slot_cons (b : α) {l : List α} (hl : l ≠ []) (p : α) :
    slot (b :: l) p = if b ≤ p then slot l p + 1 else 0 := by
  unfold slot
  rw [List.findIdx?_cons]
  by_cases h : b ≤ p
  · have hlength := List.length_pos_iff.mpr hl
    rw [if_pos h, if_neg (by simpa using h)]
    cases l.findIdx? (p < ·) with
    | none =>
      simp only [Option.map_none, Option.getD_none, List.length_cons]
      omega
    | some i => rfl
  · rw [if_neg h, if_pos (by simpa using h)]
    rfl

/-- The last slot is that of every pointer that is in no earlier one. -/
theorem slot_singleton (b p : α) : slot [b] p = 0 := by
  unfold slot
  rw [List.findIdx?_cons]
  by_cases h : p < b
  · simp [h]
  · simp [h]

/-- As many bounds are passed as there are slots before that of the pointer. -/
theorem passed_eq_slot (hb : bounds ≠ []) (p : α) : passed p bounds = slot bounds p := by
  induction bounds with
  | nil => exact absurd rfl hb
  | cons b l ih =>
    cases l with
    | nil => rw [slot_singleton, passed]
    | cons c l =>
      have hl : c :: l ≠ [] := List.cons_ne_nil c l
      rw [slot_cons b hl, passed, ih hl]

theorem slot_lt (hb : bounds ≠ []) (p : α) : slot bounds p < bounds.length := by
  induction bounds with
  | nil => exact absurd rfl hb
  | cons b l ih =>
    by_cases hl : l = []
    · rw [hl, slot_singleton]
      exact Nat.zero_lt_one
    · rw [slot_cons b hl]
      split
      · exact Nat.succ_lt_succ (ih hl)
      · exact Nat.zero_lt_succ _

/-- The bounds before the slot of a pointer are not above a greater one, so the search for that may
begin there. -/
theorem slot_add_slot_drop (hb : bounds ≠ []) (hpq : p ≤ q) :
    slot bounds p + slot (bounds.drop (slot bounds p)) q = slot bounds q := by
  induction bounds with
  | nil => exact absurd rfl hb
  | cons b l ih =>
    by_cases hl : l = []
    · subst hl
      simp only [slot_singleton, List.drop_zero]
    · rw [slot_cons b hl p]
      split
      · next h =>
        rw [List.drop_succ_cons, Nat.add_right_comm, ih hl, slot_cons b hl,
          if_pos (le_trans h hpq)]
      · rw [List.drop_zero, Nat.zero_add]

/-- A greater pointer is in the same slot or in a later one. -/
theorem slot_mono (hb : bounds ≠ []) (hpq : p ≤ q) : slot bounds p ≤ slot bounds q := by
  rw [← slot_add_slot_drop hb hpq]
  exact Nat.le_add_right _ _

/-- One pass over the bounds finds the slots of ascending pointers. -/
theorem scan_eq_map_slot {ps : List α} (hb : bounds ≠ []) (hps : ps.Pairwise (· ≤ ·))
    (index : Nat) : scan index bounds ps = ps.map fun p => index + slot bounds p := by
  induction ps generalizing index bounds with
  | nil => rfl
  | cons p ps ih =>
    obtain ⟨hp, hps⟩ := List.pairwise_cons.mp hps
    have hrest : bounds.drop (slot bounds p) ≠ [] := by
      rw [Ne, List.drop_eq_nil_iff, Nat.not_le]
      exact slot_lt hb p
    unfold scan
    simp only [passed_eq_slot hb p, ih hrest hps, List.map_cons, List.cons.injEq, true_and]
    refine List.map_congr_left fun q hq => ?_
    rw [Nat.add_assoc, slot_add_slot_drop hb (hp q hq)]

end

variable {α : Type} [ExactScalar α]

theorem pairwise_pointers (k : Nat) (offset : α) : (pointers k offset).Pairwise (· ≤ ·) := by
  unfold pointers
  refine List.pairwise_map.mpr (List.pairwise_lt_range.imp fun {i j} hij => ?_)
  have hstep : (0 : α) ≤ 1 / (k : α) := one_div_nonneg.mpr (Nat.cast_nonneg k)
  exact add_le_add_right (mul_le_mul_of_nonneg_right (Nat.cast_le.mpr hij.le) hstep) offset

theorem spread_of_ne_zero {bounds : List α} (hb : bounds ≠ []) {k : Nat} (hk : k ≠ 0)
    (offset : α) : spread bounds k offset = (pointers k offset).map (slot bounds) := by
  unfold spread
  have hnot : ¬ ((decide (k = 0) || bounds.isEmpty) = true) := by simp [hk, hb]
  rw [if_neg hnot, scan_eq_map_slot hb (pairwise_pointers k offset)]
  simp only [Nat.zero_add]

/-- Going over the bounds once finds the slot of every pointer. -/
theorem spread_eq_map_slot {bounds : List α} (hb : bounds ≠ []) (k : Nat) (offset : α) :
    spread bounds k offset = (pointers k offset).map (slot bounds) := by
  by_cases hk : k = 0
  · subst hk
    rfl
  · exact spread_of_ne_zero hb hk offset

/-- Bounds out of order, and pointers before the first and past all of them. -/
theorem spread_eq_map_slot_unsorted : ([2 / 3, 1 / 3, 1] : List Rat) ≠ [] ∧
    spread ([2 / 3, 1 / 3, 1] : List Rat) 4 (1 / 2) =
      (pointers 4 (1 / 2)).map (slot ([2 / 3, 1 / 3, 1] : List Rat)) ∧
    spread ([2 / 3, 1 / 3, 1] : List Rat) 4 (1 / 2) = [0, 2, 2, 2] :=
  ⟨List.cons_ne_nil _ _, spread_eq_map_slot (List.cons_ne_nil _ _) 4 (1 / 2), by decide +kernel⟩

end GeneticRepair.Roulette
