import GeneticRepair.Numeric.Decimal
import GeneticRepair.Numeric.Scalar

/-!
# `Numeric/Binary64.lean` — scores in binary64

The number type of running programs. Natural numbers become the nearest binary64 number, ties to
the even significand.
-/

set_option autoImplicit false

namespace GeneticRepair

instance : Scalar Float where
  zero := 0.0
  one := 1.0
  add := Float.add
  sub := Float.sub
  mul := Float.mul
  div := Float.div
  natCast := Float.ofNat
  lt := (· < ·)
  le := (· ≤ ·)
  decLT _ _ := inferInstance
  decLE _ _ := inferInstance
  isFinite := Float.isFinite
  floor x := x.toUInt64.toNat
  text := Decimal.plain

instance : Root Float := ⟨Float.sqrt⟩

end GeneticRepair
