import GeneticRepair.Numeric.Scalar
import GeneticRepair.SettingFault

/-!
# `Suspicion/Policy.lean` — which statements stay suspicious

After scoring, statements below a threshold are cleared, and of the others at most a limited number
is kept.
-/

set_option autoImplicit false

namespace GeneticRepair

/-- Which statements stay suspicious. -/
structure SuspicionPolicy (α : Type) where
  threshold : α
  /-- How many statements are kept; `none` for all. -/
  limit : Option Nat

namespace SuspicionPolicy

variable {α : Type} [Scalar α]

/-- Everything with a positive score is kept. -/
def keepAll : SuspicionPolicy α := ⟨0, none⟩

/-- Sets the threshold to the nearest probability. -/
def withThreshold (c : SuspicionPolicy α) (threshold : α) : SuspicionPolicy α :=
  { c with threshold := Scalar.toUnitInterval threshold }

def withLimit (c : SuspicionPolicy α) (limit : Nat) : SuspicionPolicy α :=
  { c with limit := some limit }

/-- Checks the threshold first, then the limit. -/
def validate (c : SuspicionPolicy α) : Except SettingFault Unit :=
  if !Scalar.isProbability c.threshold then .error .badThreshold
  else if c.limit = some 0 then .error .zeroLimit
  else .ok ()

end SuspicionPolicy

end GeneticRepair
