import GeneticRepair.Suite.TestId
import GeneticRepair.Syntax.Store

/-!
# `Evolution/Oracle.lean` — patch oracles

An oracle is asked for a patched version of a program whose failing tests it is told. It may make
nodes of its own, and it may fail or have no proposal.
-/

set_option autoImplicit false

namespace GeneticRepair

inductive OracleError where
  | request (detail : String)
  | unreadable (detail : String)
deriving DecidableEq

namespace OracleError

def message : OracleError → String
  | .request detail => s!"oracle request failed: {detail}"
  | .unreadable detail => s!"oracle proposal could not be parsed: {detail}"

end OracleError

/-- Proposes patched programs. Its memory is of the type `ω`. -/
structure Oracle (α ω : Type) where
  /-- Proposes a new version of a program with the given failing tests. -/
  propose : Node → SortedSet TestId → Store α × ω →
    Except OracleError (Option Node) × (Store α × ω)

end GeneticRepair
