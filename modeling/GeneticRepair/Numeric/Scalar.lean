/-!
# `Numeric/Scalar.lean` — numbers that scores are made of

Suspicion, fitness and selection weights are computed in a number type that the whole library
leaves open. Running programs compute in binary64; statements about exact arithmetic read the
same definitions over the rationals. `Scalar` lists what the definitions use and nothing more, so
that neither rounding nor exactness is built into them. Only the suspicion formula takes a square
root, which is a class of its own because the rationals have none.
-/

set_option autoImplicit false

namespace GeneticRepair

/-- A number type with the four operations, an order that can be tested, and the few extras the
search needs. No law is assumed: binary64 has hardly any. -/
class Scalar (α : Type) extends
    Zero α, One α, Add α, Sub α, Mul α, Div α, NatCast α, LT α, LE α where
  decLT : ∀ a b : α, Decidable (a < b)
  decLE : ∀ a b : α, Decidable (a ≤ b)
  /-- Neither infinite nor undefined. -/
  isFinite : α → Bool
  /-- The greatest natural number that is not above a number, for non-negative ones. -/
  floor : α → Nat
  /-- The decimal text of a number in messages. -/
  text : α → String

/-- A number type with square roots. -/
class Root (α : Type) where
  /-- The non-negative square root of a non-negative number. -/
  sqrt : α → α

namespace Scalar

variable {α : Type} [Scalar α]

instance (a b : α) : Decidable (a < b) := decLT a b

instance (a b : α) : Decidable (a ≤ b) := decLE a b

/-- Neither number is above the other. An undefined number is not even the same as itself, and the
two zeros of binary64 are the same. -/
def same (a b : α) : Bool := a ≤ b && b ≤ a

/-- The nearest number of the interval from zero to one; an undefined number stays as it is. -/
def toUnitInterval (x : α) : α := if x < 0 then 0 else if 1 < x then 1 else x

/-- Whether a number lies between zero and one, both included. -/
def isProbability (x : α) : Bool := 0 ≤ x && x ≤ 1

/-- How far below the maximum a sum of weights may lie and still count as reaching it. -/
def tolerance : α := 1 / ((Nat.pow 10 9 : Nat) : α)

end Scalar

end GeneticRepair
