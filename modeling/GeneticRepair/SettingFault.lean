/-!
# `SettingFault.lean` — settings out of range

Everything that can be wrong with the settings of a run, whichever part of it they steer.
-/

set_option autoImplicit false

namespace GeneticRepair

/-- What is wrong with the settings of a run. -/
inductive SettingFault where
  /-- A weight of this name is negative, infinite or undefined. -/
  | badWeight (name : String)
  /-- Repaired tests would not count. -/
  | zeroNegativeWeight
  | badThreshold
  | zeroLimit
  | smallPopulation
  | noGenerations
  /-- The chance of asking the oracle is no probability. -/
  | badOracleProbability
  | noOperators
  /-- A fault that the user of the library found. -/
  | reported (detail : String)
deriving DecidableEq

namespace SettingFault

def message : SettingFault → String
  | .badWeight name => s!"{name} must be finite and non-negative"
  | .zeroNegativeWeight => "negative_weight must be positive: a fix must raise fitness"
  | .badThreshold => "threshold must be within 0.0..=1.0"
  | .zeroLimit => "limit must be positive or None"
  | .smallPopulation => "population_size must be at least 2"
  | .noGenerations => "max_generations must be at least 1"
  | .badOracleProbability => "oracle_probability must be within 0.0..=1.0"
  | .noOperators => "at least one mutation operator is required"
  | .reported detail => detail

end SettingFault

end GeneticRepair
