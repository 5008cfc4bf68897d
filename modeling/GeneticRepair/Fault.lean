import GeneticRepair.Scratch.Area
import GeneticRepair.Suite.Universe
import GeneticRepair.Suspicion.Policy

/-!
# `Fault.lean` — why a repair stops

The faults that end an evaluation or a whole run, as opposed to the failures of single variants.
-/

set_option autoImplicit false

namespace GeneticRepair

/-- Why an evaluation or a run cannot go on. -/
inductive RepairFault where
  | badSetting (fault : SettingFault)
  | integrity (fault : IntegrityFault)
  | storage (fault : StorageFault)
  | unfitBaseline (cause : TestRunError)
  /-- A variant was evaluated before the program to repair. -/
  | noBaseline
deriving DecidableEq

namespace RepairFault

def message : RepairFault → String
  | .badSetting fault => "invalid configuration: " ++ fault.message
  | .integrity fault => "test universe integrity violated: " ++ fault.message
  | .storage fault =>
    "scratch storage failure at " ++ fault.path.text ++ ": " ++ fault.cause.message
  | .unfitBaseline cause => "original program cannot be evaluated: " ++ cause.message
  | .noBaseline => "fitness evaluator used before the baseline was initialized"

/-- The failure behind a fault, if a test run caused it. -/
def cause? : RepairFault → Option TestRunError
  | .unfitBaseline cause => some cause
  | _ => none

end RepairFault

end GeneticRepair
