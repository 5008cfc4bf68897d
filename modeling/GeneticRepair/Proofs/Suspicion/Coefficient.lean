import Mathlib.Analysis.Real.Sqrt
import Mathlib.Order.Interval.Set.Defs
import GeneticRepair.Suspicion.Spectrum

/-!
# `Proofs/Suspicion/Coefficient.lean` — the Ochiai coefficient over the reals

The suspicion of a line is a quotient by a square root, and both are guarded. Here it is read over
the reals with a division and a root of which nothing is known where they are not asked for
(`RealArithmetic`): by what is not positive nothing is divided, and of what is not positive no root
is taken, so the coefficient has one value in all of them (`score_eq`). It is the root of a rational
number, `Spectrum.square`, and everything that is said of the coefficient is said of that first: how
large it is, and how it goes with the tests that execute the line (`ochiai_ranks`).
-/

set_option autoImplicit false

namespace GeneticRepair

/-- Arithmetic of the reals. Only a quotient of a number that is not negative by a positive one and
the root of a positive number are what they should be; beyond that both are left open, and so is how
a number is written. -/
structure RealArithmetic where
  divide : ℝ → ℝ → ℝ
  sqrt : ℝ → ℝ
  text : ℝ → String
  divide_eq : ∀ x y, 0 ≤ x → 0 < y → divide x y = x / y
  sqrt_eq : ∀ x, 0 < x → sqrt x = √x

namespace RealArithmetic

/-- The reals, where a quotient by zero is zero and so is the root of a number that is not
positive. -/
noncomputable def standard : RealArithmetic :=
  ⟨fun x y => x / y, Real.sqrt, fun _ => "", fun _ _ _ _ => rfl, fun _ _ => rfl⟩

@[reducible] noncomputable def scalar (a : RealArithmetic) : Scalar ℝ where
  zero := 0
  one := 1
  add x y := x + y
  sub x y := x - y
  mul x y := x * y
  div := a.divide
  natCast n := n
  lt x y := x < y
  le x y := x ≤ y
  decLT _ _ := Classical.dec _
  decLE _ _ := Classical.dec _
  isFinite _ := true
  floor x := ⌊x⌋₊
  text := a.text

@[reducible] def root (a : RealArithmetic) : Root ℝ := ⟨a.sqrt⟩

/-- The coefficient of a spectrum in this arithmetic. -/
noncomputable def score (a : RealArithmetic) (c : Spectrum) : ℝ :=
  @Spectrum.ochiai ℝ a.scalar a.root c

/-- In each such arithmetic the coefficient is the same real number. -/
theorem score_eq (a : RealArithmetic) (c : Spectrum) :
    a.score c = c.failingHits /
      √((c.failingHits + c.failingMisses) * (c.failingHits + c.passingHits)) := by
  obtain ⟨ef, nf, ep, np⟩ := c
  have hef : (0 : ℝ) ≤ ef := Nat.cast_nonneg ef
  have hnf : (0 : ℝ) ≤ nf := Nat.cast_nonneg nf
  have hep : (0 : ℝ) ≤ ep := Nat.cast_nonneg ep
  -- where a guard holds no failing test executes the line, and the quotient is zero
  have hguarded (x : ℝ) (hx : 0 ≤ x) (h : (ef : ℝ) + x ≤ 0) : (ef : ℝ) = 0 := by linarith
  unfold score Spectrum.ochiai
  simp only []
  split
  · next hfailing =>
    have hzero := hguarded nf hnf hfailing
    change (0 : ℝ) = (ef : ℝ) / _
    rw [hzero, zero_div]
  · next hfailing =>
    split
    · next hcovering =>
      have hzero := hguarded ep hep hcovering
      change (0 : ℝ) = (ef : ℝ) / _
      rw [hzero, zero_div]
    · next hcovering =>
      have hproduct : 0 < ((ef : ℝ) + nf) * (ef + ep) :=
        mul_pos (not_le.mp hfailing) (not_le.mp hcovering)
      change a.divide ef (a.sqrt (((ef : ℝ) + nf) * (ef + ep))) = _
      rw [a.sqrt_eq _ hproduct, a.divide_eq _ _ hef (Real.sqrt_pos.mpr hproduct)]

end RealArithmetic

namespace Spectrum

/-! ## The square of the coefficient -/

/-- The coefficient squared. -/
noncomputable def square (c : Spectrum) : ℝ :=
  (c.failingHits : ℝ) ^ 2 /
    ((c.failingHits + c.failingMisses) * (c.failingHits + c.passingHits))

theorem score_eq_sqrt (a : RealArithmetic) (c : Spectrum) : a.score c = √c.square := by
  rw [a.score_eq, square, Real.sqrt_div (sq_nonneg _), Real.sqrt_sq (Nat.cast_nonneg _)]

variable {c : Spectrum} {k k' hits total : ℕ}

theorem square_nonneg (c : Spectrum) : 0 ≤ c.square := by
  unfold square
  positivity

theorem square_of_no_failingHits (h : c.failingHits = 0) : c.square = 0 := by
  simp [square, h]

theorem square_pos (h : 0 < c.failingHits) : 0 < c.square := by
  unfold square
  positivity

theorem square_le_one (c : Spectrum) : c.square ≤ 1 := by
  refine div_le_one_of_le₀ ?_ (by positivity)
  rw [sq]
  have hfailing : (c.failingHits : ℝ) ≤ c.failingHits + c.failingMisses := by simp
  have hcovering : (c.failingHits : ℝ) ≤ c.failingHits + c.passingHits := by simp
  exact mul_le_mul hfailing hcovering (by positivity) (by positivity)

theorem square_eq_one_iff :
    c.square = 1 ↔ 0 < c.failingHits ∧ c.failingMisses = 0 ∧ c.passingHits = 0 := by
  constructor
  · intro h
    have hhits : 0 < c.failingHits := by
      rw [Nat.pos_iff_ne_zero]
      intro hzero
      rw [square_of_no_failingHits hzero] at h
      exact zero_ne_one h
    have hhits' : (0 : ℝ) < c.failingHits := Nat.cast_pos.mpr hhits
    have hproduct : ((c.failingHits : ℝ) ^ 2) =
        (c.failingHits + c.failingMisses) * (c.failingHits + c.passingHits) :=
      (div_eq_one_iff_eq (by positivity)).mp h
    -- what the product has more than the square is a sum of parts that are not negative
    have hparts : (c.failingHits : ℝ) * c.failingMisses + c.failingHits * c.passingHits +
        c.failingMisses * c.passingHits = 0 := by linarith
    have hparts' : c.failingHits * c.failingMisses + c.failingHits * c.passingHits +
        c.failingMisses * c.passingHits = 0 := by exact_mod_cast hparts
    have hnone : (c.failingMisses = 0 ∧ c.passingHits = 0) ∧
        (c.failingMisses = 0 ∨ c.passingHits = 0) := by simpa [hhits.ne'] using hparts'
    exact ⟨hhits, hnone.1⟩
  · rintro ⟨hhits, hmisses, hpassing⟩
    have hhits' : (0 : ℝ) < c.failingHits := Nat.cast_pos.mpr hhits
    rw [square, hmisses, hpassing, Nat.cast_zero, add_zero, ← sq, div_self (by positivity)]

/-! ## Fixed totals -/

theorem square_ofTotals {passingHits totalPassing : ℕ} (h : hits ≤ total) :
    (ofTotals hits total passingHits totalPassing).square =
      (hits : ℝ) ^ 2 / (total * (hits + passingHits)) := by
  have htotal : (hits : ℝ) + ((total - hits : ℕ) : ℝ) = total := by
    rw [← Nat.cast_add, Nat.add_sub_cancel' h]
  rw [square]
  simp only [ofTotals, htotal]

/-- One more failing test that executes the line counts for more than the one that does not execute
it any longer. -/
theorem square_lt_of_failingHits {passingHits totalPassing : ℕ} (hlt : k < k')
    (hle : k' ≤ total) :
    (ofTotals k total passingHits totalPassing).square <
      (ofTotals k' total passingHits totalPassing).square := by
  have hk' : 0 < k' := Nat.zero_lt_of_lt hlt
  obtain rfl | hk := Nat.eq_zero_or_pos k
  · rw [square_of_no_failingHits rfl]
    exact square_pos hk'
  · have htotal : 0 < total := Nat.lt_of_lt_of_le hk' hle
    rw [square_ofTotals (hlt.le.trans hle), square_ofTotals hle,
      div_lt_div_iff₀ (by positivity) (by positivity)]
    have hstep : k ^ 2 * (k' + passingHits) < k' ^ 2 * (k + passingHits) := by
      have hsquares : k ^ 2 ≤ k' ^ 2 := Nat.pow_le_pow_left hlt.le 2
      calc k ^ 2 * (k' + passingHits) = k * k' * k + k ^ 2 * passingHits := by ring
        _ < k * k' * k' + k ^ 2 * passingHits :=
          Nat.add_lt_add_right (Nat.mul_lt_mul_of_pos_left hlt (Nat.mul_pos hk hk')) _
        _ ≤ k * k' * k' + k' ^ 2 * passingHits :=
          Nat.add_le_add_left (Nat.mul_le_mul_right _ hsquares) _
        _ = k' ^ 2 * (k + passingHits) := by ring
    have hscaled : k ^ 2 * (total * (k' + passingHits)) < k' ^ 2 * (total * (k + passingHits)) := by
      calc k ^ 2 * (total * (k' + passingHits)) = total * (k ^ 2 * (k' + passingHits)) := by ring
        _ < total * (k' ^ 2 * (k + passingHits)) := Nat.mul_lt_mul_of_pos_left hstep htotal
        _ = k' ^ 2 * (total * (k + passingHits)) := by ring
    exact_mod_cast hscaled

/-- One more passing test that executes the line makes the divisor larger. -/
theorem square_lt_of_passingHits {totalPassing : ℕ} (hhits : 0 < hits) (hle : hits ≤ total)
    (hlt : k < k') :
    (ofTotals hits total k' totalPassing).square <
      (ofTotals hits total k totalPassing).square := by
  have htotal : 0 < total := Nat.lt_of_lt_of_le hhits hle
  have hk : (k : ℝ) < k' := Nat.cast_lt.mpr hlt
  rw [square_ofTotals hle, square_ofTotals hle]
  have hdivisor : (total : ℝ) * (hits + k) < total * (hits + k') :=
    mul_lt_mul_of_pos_left (add_lt_add_right hk _) (Nat.cast_pos.mpr htotal)
  exact div_lt_div_of_pos_left (by positivity) (by positivity) hdivisor

/-! ## Ranking -/

/-- A score of lines that goes from zero, where no failing test executes the line, to one, where all
of them do and no passing test does. The passing tests that do not execute a line have no part in
it. Among the same tests, it rises with the failing ones that execute a line, and where there is one
it falls with the passing ones that do. -/
structure Ranks (score : Spectrum → ℝ) : Prop where
  nonneg : ∀ c, 0 ≤ score c
  le_one : ∀ c, score c ≤ 1
  eq_zero_iff : ∀ c, score c = 0 ↔ c.failingHits = 0
  eq_one_iff : ∀ c, score c = 1 ↔
    0 < c.failingHits ∧ c.failingMisses = 0 ∧ c.passingHits = 0
  passingMisses : ∀ c n, score { c with passingMisses := n } = score c
  rising : ∀ totalFailing passingHits totalPassing,
    StrictMonoOn (fun k => score (.ofTotals k totalFailing passingHits totalPassing))
      (Set.Iic totalFailing)
  falling : ∀ failingHits totalFailing totalPassing, 0 < failingHits →
    failingHits ≤ totalFailing →
    StrictAnti fun k => score (.ofTotals failingHits totalFailing k totalPassing)

/-- In every arithmetic of the reals the coefficient ranks lines, and it is the quotient that it is
meant to be, whatever a division by a number that is not positive or the root of one would give. -/
theorem ochiai_ranks (a : RealArithmetic) :
    Ranks a.score ∧ ∀ c : Spectrum, a.score c = c.failingHits /
      √((c.failingHits + c.failingMisses) * (c.failingHits + c.passingHits)) := by
  refine ⟨?_, a.score_eq⟩
  constructor
  case nonneg =>
    intro c
    rw [score_eq_sqrt]
    exact Real.sqrt_nonneg _
  case le_one =>
    intro c
    rw [score_eq_sqrt, Real.sqrt_le_one]
    exact square_le_one c
  case eq_zero_iff =>
    intro c
    rw [score_eq_sqrt, Real.sqrt_eq_zero (square_nonneg c)]
    constructor
    · intro h
      by_contra hhits
      exact (square_pos (Nat.pos_of_ne_zero hhits)).ne' h
    · exact square_of_no_failingHits
  case eq_one_iff =>
    intro c
    rw [score_eq_sqrt, Real.sqrt_eq_one]
    exact square_eq_one_iff
  case passingMisses =>
    intro c n
    rw [a.score_eq, a.score_eq]
  case rising =>
    intro totalFailing passingHits totalPassing k _ k' hk' hlt
    simp only [score_eq_sqrt]
    exact Real.sqrt_lt_sqrt (square_nonneg _) (square_lt_of_failingHits hlt hk')
  case falling =>
    intro failingHits totalFailing totalPassing hhits hle k k' hlt
    simp only [score_eq_sqrt]
    exact Real.sqrt_lt_sqrt (square_nonneg _) (square_lt_of_passingHits hhits hle hlt)

theorem ochiai_ranks_standard : RealArithmetic.standard.score ⟨1, 1, 1, 7⟩ = 1 / 2 ∧
    RealArithmetic.standard.score (.ofTotals 1 2 3 10) <
      RealArithmetic.standard.score (.ofTotals 2 2 3 10) ∧
    RealArithmetic.standard.score (.ofTotals 2 2 3 10) <
      RealArithmetic.standard.score (.ofTotals 2 2 0 10) ∧
    RealArithmetic.standard.score (.ofTotals 2 2 0 10) = 1 := by
  obtain ⟨hranks, hscore⟩ := ochiai_ranks .standard
  have hfour : √((1 + 1) * (1 + 1) : ℝ) = 2 := by
    rw [Real.sqrt_mul_self (by norm_num)]
    norm_num
  refine ⟨?_, ?_, ?_, ?_⟩
  · rw [hscore, Nat.cast_one, hfour]
  · exact hranks.rising 2 3 10 (by simp) (by simp) (by omega)
  · exact hranks.falling 2 2 10 (by omega) (by omega) (by omega)
  · exact (hranks.eq_one_iff _).mpr ⟨by decide, rfl, rfl⟩

end Spectrum

end GeneticRepair
