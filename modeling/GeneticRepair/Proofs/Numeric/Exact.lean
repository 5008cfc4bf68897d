import Mathlib.Algebra.Order.Field.Rat
import Mathlib.Data.Nat.Sqrt
import GeneticRepair.Numeric.Rational

/-!
# `Proofs/Numeric/Exact.lean` — ordered and exact numbers

`Scalar` has operations but no laws. Ranking, raising and clearing need that any two numbers can be
compared (`OrderedScalar`), and no law of arithmetic: what is said of them holds however scores are
rounded. The value of a score is read over an ordered field (`ExactScalar`), where nothing is
rounded. The rationals are one, and so are the reals, where a square root is what it should be.
-/

set_option autoImplicit false

namespace GeneticRepair

-- A scalar brings an order and operations of its own, and the last instance that was imported is
-- found first. So that these are found, not those of the field, Mathlib is imported before the model.
/-- A number type in which any two numbers can be compared. -/
class OrderedScalar (α : Type) extends Scalar α, LinearOrder α

/-- A number type whose arithmetic is that of an ordered field. -/
class ExactScalar (α : Type) extends OrderedScalar α, Field α, IsStrictOrderedRing α

instance : OrderedScalar Rat where
  toScalar := inferInstance
  __ := (inferInstance : LinearOrder Rat)

instance : ExactScalar Rat where
  toOrderedScalar := inferInstance
  __ := (inferInstance : Field Rat)
  __ := (inferInstance : IsStrictOrderedRing Rat)

/-- The root of a quotient, from the roots of its parts rounded down; exact for quotients of square
numbers. -/
@[reducible] def quotientRoot : Root Rat :=
  ⟨fun x => (Nat.sqrt x.num.toNat : Rat) / (Nat.sqrt x.den : Rat)⟩

theorem sqrt_quotientRoot_pos {x : Rat} (hx : 0 < x) : 0 < quotientRoot.sqrt x := by
  have hnum : 0 < x.num := Rat.num_pos.mpr hx
  have htop : 0 < Nat.sqrt x.num.toNat := Nat.sqrt_pos.mpr (by omega)
  have hbottom : 0 < Nat.sqrt x.den := Nat.sqrt_pos.mpr x.den_pos
  exact div_pos (Nat.cast_pos.mpr htop) (Nat.cast_pos.mpr hbottom)

end GeneticRepair
