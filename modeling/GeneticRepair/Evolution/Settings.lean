import GeneticRepair.Numeric.Scalar
import GeneticRepair.Suspicion.Policy

/-!
# `Evolution/Settings.lean` — settings of a search

How many variants a generation has, how many generations there are, how variants are mutated, and
the seed from which all chance comes.
-/

set_option autoImplicit false

namespace GeneticRepair

/-- Where an inserted statement may come from. -/
inductive DonorScope where
  | program
  | sameUnit
deriving DecidableEq, Repr, Inhabited

/-- What a mutation does to its target statement. -/
inductive Operator where
  | delete
  /-- Inserts a copy of another statement before it. -/
  | insertBefore
  /-- Reserved; it has no meaning yet. -/
  | swap
deriving DecidableEq, Repr, Inhabited

namespace Operator

def name : Operator → String
  | .delete => "delete"
  | .insertBefore => "insert"
  | .swap => "swap"

end Operator

structure Settings (α : Type) where
  populationSize : Nat
  /-- The number of generations after which the search gives up. -/
  maxGenerations : Nat
  /-- How likely a variant is shown to the oracle instead of being mutated. -/
  oracleProbability : α
  donorScope : DonorScope
  operators : List Operator
  /-- Whether the variants of a generation are evaluated as one batch. -/
  parallel : Bool
  /-- The seed of all random choices; `none` leaves it to the caller. -/
  seed : Option UInt64

namespace Settings

variable {α : Type} [Scalar α]

/-- Forty variants, ten generations, no oracle. -/
def balanced : Settings α :=
  ⟨40, 10, 0, .program, [.delete, .insertBefore], false, none⟩

def fast : Settings α := { balanced with populationSize := 20, maxGenerations := 5 }

/-- A long search that evaluates generations as batches. -/
def thorough : Settings α :=
  { balanced with populationSize := 100, maxGenerations := 50, parallel := true }

/-- Sets the chance of asking the oracle to the nearest probability. -/
def withOracleProbability (s : Settings α) (p : α) : Settings α :=
  { s with oracleProbability := Scalar.toUnitInterval p }

/-- Checks population, generations, oracle and operators in this order. -/
def validate (s : Settings α) : Except SettingFault Unit :=
  if s.populationSize < 2 then .error .smallPopulation
  else if s.maxGenerations = 0 then .error .noGenerations
  else if !Scalar.isProbability s.oracleProbability then .error .badOracleProbability
  else if s.operators.isEmpty then .error .noOperators
  else .ok ()

/-- Whether two settings agree in everything. -/
def same (s t : Settings α) : Bool :=
  s.populationSize = t.populationSize && s.maxGenerations = t.maxGenerations &&
    Scalar.same s.oracleProbability t.oracleProbability && s.donorScope = t.donorScope &&
    s.operators = t.operators && s.parallel = t.parallel && s.seed = t.seed

end Settings

end GeneticRepair
