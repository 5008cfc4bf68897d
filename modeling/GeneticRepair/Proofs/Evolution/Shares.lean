import Mathlib.Algebra.BigOperators.Ring.List
import Mathlib.Algebra.Order.BigOperators.Group.List
import Mathlib.Algebra.Order.Floor.Ring
import Mathlib.Algebra.Order.Floor.Semiring
import Mathlib.Data.Rat.Floor
import GeneticRepair.Proofs.Evolution.Slots

/-!
# `Proofs/Evolution/Shares.lean` — how often an index is drawn

The share of a weight is its part in the sum of all positive weights (`share`). In exact arithmetic
the slots lie one behind the other from zero to one, each as wide as the share of its weight
(`bounds_eq_runningSums`), so the pointers that are before the end of a slot can be counted
(`countP_slot_lt`). Equally spaced pointers hit a slot as often as its share of them says, up to
rounding, wherever the first one is.

* `ceil_add_sub_ceil`: points at unit distance in a half-open interval.
* `spread_fair`: every index is drawn as often as is due to it, rounded down or up.
-/

set_option autoImplicit false

namespace GeneticRepair

/-- There are as many whole numbers in a half-open interval as it is long, rounded down or up. -/
theorem ceil_add_sub_ceil {α : Type} [Field α] [LinearOrder α] [IsStrictOrderedRing α]
    [FloorRing α] {y d : α} (hy : -1 < y) (hd : 0 ≤ d) :
    ⌈y + d⌉₊ - ⌈y⌉₊ = ⌊d⌋₊ ∨ ⌈y + d⌉₊ - ⌈y⌉₊ = ⌈d⌉₊ := by
  have hupper : ⌈y + d⌉₊ ≤ ⌈y⌉₊ + ⌈d⌉₊ := by
    rw [Nat.ceil_le, Nat.cast_add]
    exact add_le_add (Nat.le_ceil y) (Nat.le_ceil d)
  have hlower : ⌈y⌉₊ + ⌊d⌋₊ ≤ ⌈y + d⌉₊ := by
    refine Nat.le_of_lt_succ (Nat.cast_lt (α := α) |>.mp ?_)
    calc ((⌈y⌉₊ + ⌊d⌋₊ : Nat) : α) = ⌈y⌉₊ + ⌊d⌋₊ := Nat.cast_add _ _
      _ < (y + 1) + d := add_lt_add_of_lt_of_le (Nat.ceil_lt_add_one_of_gt_neg_one hy)
        (Nat.floor_le hd)
      _ = (y + d) + 1 := add_right_comm y 1 d
      _ ≤ ⌈y + d⌉₊ + 1 := add_le_add_left (Nat.le_ceil _) 1
      _ = (Nat.succ ⌈y + d⌉₊ : Nat) := (Nat.cast_succ _).symm
  have hround := Nat.ceil_le_floor_add_one d
  omega

/-- Below a length there are as many numbers below a bound as the bound says. -/
theorem countP_range_lt {k n : Nat} (h : n ≤ k) : (List.range k).countP (· < n) = n := by
  obtain ⟨m, rfl⟩ := Nat.exists_eq_add_of_le h
  rw [List.range_add, List.countP_append, List.countP_map]
  have hfirst : (List.range n).countP (· < n) = n := by
    rw [List.countP_eq_length.mpr fun i hi => decide_eq_true (List.mem_range.mp hi),
      List.length_range]
  have hrest : (List.range m).countP ((fun i => decide (i < n)) ∘ fun i => n + i) = 0 :=
    List.countP_eq_zero.mpr fun i _ => by simp
  rw [hfirst, hrest, Nat.add_zero]

namespace Roulette

section

variable {α : Type} [ExactScalar α] {weights shares : List α} {u w : α}

/-! ## Shares -/

/-- The sum of the weights as they count. -/
def total (weights : List α) : α := (weights.map (max · 0)).sum

/-- The part that is due to a weight: its part in the sum of all, the same for all if that is
zero. -/
def share (weights : List α) (w : α) : α :=
  if total weights = 0 then 1 / (weights.length : α) else max w 0 / total weights

theorem clean_eq (w : α) : clean w = max w 0 := by
  unfold clean
  split
  · next h => exact (max_eq_left h.le).symm
  · next h => exact (max_eq_right (not_lt.mp h)).symm

theorem total_nonneg (weights : List α) : 0 ≤ total weights :=
  List.sum_nonneg fun x hx => by
    obtain ⟨w, -, rfl⟩ := List.mem_map.mp hx
    exact le_max_right w 0

theorem total_pos (hw : w ∈ weights) (hpos : 0 < w) : 0 < total weights :=
  lt_of_lt_of_le hpos ((le_max_left w 0).trans (List.single_le_sum (fun x hx => by
    obtain ⟨v, -, rfl⟩ := List.mem_map.mp hx
    exact le_max_right v 0) _ (List.mem_map_of_mem hw)))

theorem share_nonneg (weights : List α) (w : α) : 0 ≤ share weights w := by
  unfold share
  split
  · exact one_div_nonneg.mpr (Nat.cast_nonneg _)
  · exact div_nonneg (le_max_right w 0) (total_nonneg weights)

theorem shares_nonneg (weights : List α) : ∀ x ∈ weights.map (share weights), 0 ≤ x := by
  intro x hx
  obtain ⟨w, -, rfl⟩ := List.mem_map.mp hx
  exact share_nonneg weights w

theorem sum_share (hw : weights ≠ []) : (weights.map (share weights)).sum = 1 := by
  unfold share
  by_cases h : total weights = 0
  · simp only [if_pos h, List.map_const', List.sum_replicate, nsmul_eq_mul]
    exact mul_one_div_cancel (Nat.cast_ne_zero.mpr (List.length_pos_iff.mpr hw).ne')
  · simp only [if_neg h, div_eq_mul_inv, List.sum_map_mul_right]
    exact mul_inv_cancel₀ h

/-! ## Slots -/

theorem runningSums_ne_nil (c : α) (hs : shares ≠ []) : runningSums c shares ≠ [] := by
  cases shares with
  | nil => exact absurd rfl hs
  | cons x shares => exact List.cons_ne_nil _ _

/-- The last slot ends behind all shares. -/
theorem getLast?_runningSums (c : α) (hs : shares ≠ []) :
    (runningSums c shares).getLast? = some (c + shares.sum) := by
  induction shares generalizing c with
  | nil => exact absurd rfl hs
  | cons x shares ih =>
    rw [runningSums, List.sum_cons, ← add_assoc]
    by_cases h : shares = []
    · rw [h, List.sum_nil, add_zero]
      rfl
    · rw [List.getLast?_cons, ih (c + x) h, Option.getD_some]

theorem closeAtOne_eq_self {l : List α} (h : l.getLast? = some 1) : closeAtOne l = l := by
  induction l with
  | nil => rfl
  | cons x l ih =>
    cases l with
    | nil =>
      obtain rfl := Option.some.inj h
      rfl
    | cons y l => rw [closeAtOne, ih (by rwa [List.getLast?_cons_cons] at h)]

/-- Equal slots end at the multiples of their width. -/
theorem runningSums_replicate (c x : α) (n : Nat) :
    runningSums c (List.replicate n x) =
      (List.range n).map fun (i : Nat) => c + ((i + 1 : Nat) : α) * x := by
  induction n generalizing c with
  | zero => rfl
  | succ n ih =>
    rw [List.replicate_succ, runningSums, ih, List.range_succ_eq_map, List.map_cons, List.map_map]
    refine List.cons_eq_cons.mpr ⟨by simp, List.map_congr_left fun i _ => ?_⟩
    simp only [Function.comp_apply, Nat.succ_eq_add_one, Nat.cast_add, Nat.cast_one]
    ring

theorem foldl_clean (weights : List α) : (weights.map clean).foldl (· + ·) 0 = total weights := by
  rw [← List.sum_eq_foldl, total, funext clean_eq]

/-- The slots lie one behind the other, each as wide as the share of its weight. -/
theorem bounds_eq_runningSums (hw : weights ≠ []) :
    bounds weights = runningSums 0 (weights.map (share weights)) := by
  have hshares : weights.map (share weights) ≠ [] := by simpa using hw
  have hlast := getLast?_runningSums 0 hshares
  rw [sum_share hw, zero_add] at hlast
  rw [← closeAtOne_eq_self hlast]
  unfold bounds
  simp only [foldl_clean, List.length_map]
  by_cases h : total weights = 0
  · have hshare : share weights = fun _ => 1 / (weights.length : α) := by
      funext w
      rw [share, if_pos h]
    rw [if_neg h.not_gt, hshare, List.map_const', runningSums_replicate]
    simp only [zero_add, mul_one_div]
  · have hshare : share weights = fun w => clean w / total weights := by
      funext w
      rw [share, if_neg h, clean_eq]
    rw [if_pos (lt_of_le_of_ne (total_nonneg weights) (Ne.symm h)), List.map_map, hshare]
    rfl

theorem length_runningSums (c : α) (shares : List α) :
    (runningSums c shares).length = shares.length := by
  induction shares generalizing c with
  | nil => rfl
  | cons x shares ih => rw [runningSums, List.length_cons, ih, List.length_cons]

theorem length_bounds (hw : weights ≠ []) : (bounds weights).length = weights.length := by
  rw [bounds_eq_runningSums hw, length_runningSums, List.length_map]

theorem bounds_ne_nil (hw : weights ≠ []) : bounds weights ≠ [] := by
  rw [Ne, ← List.length_eq_zero_iff, length_bounds hw, List.length_eq_zero_iff]
  exact hw

/-- A pointer is in one of the first slots exactly if it is before the end of them. -/
theorem slot_runningSums_lt_iff (hs : ∀ x ∈ shares, 0 ≤ x) {c : α} (hc : c ≤ u)
    (hu : u < c + shares.sum) {i : Nat} (hi : i ≤ shares.length) :
    slot (runningSums c shares) u < i ↔ u < c + (shares.take i).sum := by
  induction shares generalizing c i with
  | nil =>
    rw [List.sum_nil, add_zero] at hu
    exact absurd hu (not_lt.mpr hc)
  | cons x shares ih =>
    obtain ⟨hx, hs⟩ := List.forall_mem_cons.mp hs
    cases i with
    | zero => simpa using hc
    | succ i =>
      have hi : i ≤ shares.length := Nat.le_of_succ_le_succ hi
      rw [runningSums, List.take_succ_cons, List.sum_cons, ← add_assoc]
      by_cases h : shares = []
      · subst h
        obtain rfl := Nat.le_zero.mp hi
        simpa [runningSums, slot_singleton] using hu
      · rw [slot_cons _ (runningSums_ne_nil _ h)]
        by_cases hcx : c + x ≤ u
        · rw [if_pos hcx, Nat.succ_lt_succ_iff]
          rw [List.sum_cons, ← add_assoc] at hu
          exact ih hs hcx hu hi
        · have hrest : 0 ≤ (shares.take i).sum :=
            List.sum_nonneg fun y hy => hs y (List.mem_of_mem_take hy)
          rw [if_neg hcx]
          exact iff_of_true (Nat.zero_lt_succ i)
            (lt_of_lt_of_le (not_le.mp hcx) (le_add_of_nonneg_right hrest))

end

/-! ## Pointers -/

section

variable {α : Type} [ExactScalar α] [FloorRing α] {weights : List α} {k : Nat} {offset x w : α}

/-- How many pointers are below a number of the unit interval. -/
theorem countP_pointers_lt (hk : 0 < k) (hoffset : 0 ≤ offset) (hx : x ≤ 1) :
    (pointers k offset).countP (· < x) = ⌈k * (x - offset)⌉₊ := by
  have hpos : (0 : α) < k := Nat.cast_pos.mpr hk
  have hbelow (i : Nat) : offset + i * (1 / (k : α)) < x ↔ i < ⌈k * (x - offset)⌉₊ := by
    rw [Nat.lt_ceil, mul_one_div, ← lt_sub_iff_add_lt', div_lt_iff₀ hpos, mul_comm]
  have hle : ⌈k * (x - offset)⌉₊ ≤ k := by
    rw [Nat.ceil_le]
    have hwidth : x - offset ≤ 1 := (sub_le_self x hoffset).trans hx
    exact mul_le_of_le_one_right hpos.le hwidth
  rw [pointers, List.countP_map]
  refine (List.countP_congr fun i _ => ?_).trans (countP_range_lt hle)
  simp only [Function.comp_apply, decide_eq_true_eq]
  exact hbelow i

theorem mem_pointers (hk : 0 < k) (hoffset : 0 ≤ offset) (hlt : offset < 1 / k) {u : α}
    (hu : u ∈ pointers k offset) : 0 ≤ u ∧ u < 1 := by
  have hpos : (0 : α) < k := Nat.cast_pos.mpr hk
  obtain ⟨i, hi, rfl⟩ := List.mem_map.mp hu
  refine ⟨add_nonneg hoffset (mul_nonneg (Nat.cast_nonneg i) (one_div_nonneg.mpr hpos.le)), ?_⟩
  calc offset + i * (1 / (k : α)) < 1 / k + i * (1 / (k : α)) := add_lt_add_left hlt _
    _ = ((i + 1 : Nat) : α) / k := by rw [Nat.cast_succ]; ring
    _ ≤ 1 := (div_le_one hpos).mpr (Nat.cast_le.mpr (List.mem_range.mp hi))

/-! ## Counting -/

/-- How many pointers are in one of the first slots. -/
theorem countP_slot_lt (hw : weights ≠ []) (hk : 0 < k) (hoffset : 0 ≤ offset)
    (hlt : offset < 1 / k) {i : Nat} (hi : i ≤ weights.length) :
    (pointers k offset).countP (slot (bounds weights) · < i) =
      ⌈k * (((weights.map (share weights)).take i).sum - offset)⌉₊ := by
  have hnonneg := shares_nonneg weights
  have hsum := sum_share hw
  have hle : ((weights.map (share weights)).take i).sum ≤ 1 :=
    hsum ▸ (List.take_sublist i _).sum_le_sum hnonneg
  rw [← countP_pointers_lt hk hoffset hle]
  refine List.countP_congr fun u hu => ?_
  obtain ⟨hzero, hone⟩ := mem_pointers hk hoffset hlt hu
  simp only [decide_eq_true_eq, bounds_eq_runningSums hw]
  rw [slot_runningSums_lt_iff hnonneg hzero (by rwa [hsum, zero_add]) (by simpa using hi),
    zero_add]

theorem count_eq_countP_sub (l : List Nat) (i : Nat) :
    l.count i = l.countP (· < i + 1) - l.countP (· < i) := by
  have hadd : l.countP (· < i) + l.count i = l.countP (· < i + 1) := by
    induction l with
    | nil => rfl
    | cons j l ih =>
      simp only [List.countP_cons, List.count_cons, decide_eq_true_eq, beq_iff_eq]
      split_ifs <;> omega
  omega

/-- An index is drawn as often as its share of the draws says, rounded down or up. -/
theorem count_spread (hw : weights ≠ []) (hk : 0 < k) (hoffset : 0 ≤ offset)
    (hlt : offset < 1 / k) {i : Nat} (hi : weights[i]? = some w) :
    (spread (bounds weights) k offset).count i = ⌊k * share weights w⌋₊ ∨
      (spread (bounds weights) k offset).count i = ⌈k * share weights w⌉₊ := by
  have hpos : (0 : α) < k := Nat.cast_pos.mpr hk
  have hin : i < weights.length := (List.getElem?_eq_some_iff.mp hi).1
  have hsum : ((weights.map (share weights)).take (i + 1)).sum =
      ((weights.map (share weights)).take i).sum + share weights w := by
    rw [List.take_add_one, List.getElem?_map, hi, List.sum_append]
    simp
  have hbefore : 0 ≤ ((weights.map (share weights)).take i).sum :=
    List.sum_nonneg fun x hx => shares_nonneg weights x (List.mem_of_mem_take hx)
  rw [spread_of_ne_zero (bounds_ne_nil hw) hk.ne', count_eq_countP_sub, List.countP_map,
    List.countP_map]
  change (pointers k offset).countP (slot (bounds weights) · < i + 1) -
      (pointers k offset).countP (slot (bounds weights) · < i) = _ ∨
    (pointers k offset).countP (slot (bounds weights) · < i + 1) -
      (pointers k offset).countP (slot (bounds weights) · < i) = _
  rw [countP_slot_lt hw hk hoffset hlt hin, countP_slot_lt hw hk hoffset hlt hin.le, hsum,
    add_sub_right_comm, mul_add]
  refine ceil_add_sub_ceil ?_ (mul_nonneg hpos.le (share_nonneg weights w))
  -- the first pointer is less than one distance behind the beginning
  have hfirst : k * offset < 1 := by
    rwa [lt_div_iff₀ hpos, mul_comm] at hlt
  have hslot := mul_nonneg hpos.le hbefore
  rw [mul_sub]
  linarith

/-- Several draws at once, at equal distance and with any offset below it: every index is drawn as
often as is due to its weight, rounded down or up. -/
theorem spread_fair (hw : weights ≠ []) (hk : 0 < k) (hoffset : 0 ≤ offset)
    (hlt : offset < 1 / k) :
    (spread (bounds weights) k offset).length = k ∧
      (∀ i ∈ spread (bounds weights) k offset, i < weights.length) ∧
      (spread (bounds weights) k offset).Pairwise (· ≤ ·) ∧
      (∀ i w, weights[i]? = some w →
        (spread (bounds weights) k offset).count i = ⌊k * share weights w⌋₊ ∨
        (spread (bounds weights) k offset).count i = ⌈k * share weights w⌉₊) ∧
      ((∃ w ∈ weights, 0 < w) → ∀ i w, weights[i]? = some w → w ≤ 0 →
        i ∉ spread (bounds weights) k offset) := by
  have hslots := spread_of_ne_zero (bounds_ne_nil hw) hk.ne' offset
  refine ⟨?_, fun i hi => ?_, ?_, fun i w => count_spread hw hk hoffset hlt, ?_⟩
  · rw [hslots, List.length_map, pointers, List.length_map, List.length_range]
  · rw [hslots] at hi
    obtain ⟨p, -, rfl⟩ := List.mem_map.mp hi
    rw [← length_bounds hw]
    exact slot_lt (bounds_ne_nil hw) p
  · rw [hslots]
    exact List.pairwise_map.mpr
      ((pairwise_pointers k offset).imp (slot_mono (bounds_ne_nil hw)))
  · rintro ⟨v, hv, hpos⟩ i w hi hnot
    have hshare : share weights w = 0 := by
      rw [share, if_neg (total_pos hv hpos).ne', max_eq_right hnot, zero_div]
    have hcount := count_spread hw hk hoffset hlt hi
    rw [hshare, mul_zero, Nat.floor_zero, Nat.ceil_zero, or_self] at hcount
    exact List.count_eq_zero.mp hcount

end

/-- A third and two thirds are due to the positive ones. -/
def thirds : List Rat := [0, 1, -1, 2]

/-- A third of four draws is rounded down and two thirds of them are rounded up; the weights that do
not count are not drawn. -/
theorem spread_fair_thirds : thirds ≠ [] ∧ 0 < 4 ∧ (0 : Rat) ≤ 1 / 5 ∧
    (1 / 5 : Rat) < 1 / (4 : Nat) ∧ spread (bounds thirds) 4 (1 / 5) = [1, 3, 3, 3] ∧
    ∀ i w, thirds[i]? = some w →
      (spread (bounds thirds) 4 (1 / 5)).count i = ⌊(4 : Nat) * share thirds w⌋₊ ∨
        (spread (bounds thirds) 4 (1 / 5)).count i = ⌈(4 : Nat) * share thirds w⌉₊ := by
  have hweights : thirds ≠ [] := List.cons_ne_nil _ _
  have hoffset : (0 : Rat) ≤ 1 / 5 := by norm_num
  have hlt : (1 / 5 : Rat) < 1 / (4 : Nat) := by norm_num
  obtain ⟨-, -, -, hcount, -⟩ := spread_fair hweights (by decide : 0 < 4) hoffset hlt
  exact ⟨hweights, by decide, hoffset, hlt, by decide +kernel, hcount⟩

end Roulette

end GeneticRepair
