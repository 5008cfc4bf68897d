import GeneticRepair.Numeric.Scalar

/-!
# `Numeric/Rational.lean` — scores in exact arithmetic

The rationals, over which the definitions of the search can be read without rounding.
-/

set_option autoImplicit false

namespace GeneticRepair

instance : Scalar Rat where
  zero := 0
  one := 1
  add := Rat.add
  sub := Rat.sub
  mul := Rat.mul
  div := Rat.div
  natCast n := (n : Rat)
  lt := (· < ·)
  le := (· ≤ ·)
  decLT _ _ := inferInstance
  decLE _ _ := inferInstance
  isFinite _ := true
  floor q := q.floor.toNat
  text q := toString q

end GeneticRepair
