import GeneticRepair.Numeric.Scalar
import GeneticRepair.Suite.TestId
import GeneticRepair.Syntax.Node

/-!
# `Variant.lean` — variants

A variant is one candidate program of the search with what is known about it: its fitness and
failing tests once it has been evaluated, and how it came about.
-/

set_option autoImplicit false

namespace GeneticRepair

structure Variant (α : Type) where
  /-- The number of the variant in its run. -/
  id : Nat
  root : Node
  /-- The fitness; `none` until the program has been evaluated. -/
  fitness : Option α
  /-- The tests that failed at the last evaluation. -/
  failing : SortedSet TestId
  /-- What was done to get from the program under repair to this one. -/
  lineage : List String
  /-- Whether the next evaluation has to localize faults anew. -/
  stale : Bool

namespace Variant

variable {α : Type}

def new (id : Nat) (root : Node) : Variant α := ⟨id, root, none, ∅, [], false⟩

/-- The same program with everything known about it, as another variant. -/
def copyAs (v : Variant α) (id : Nat) : Variant α := { v with id := id }

/-- Whether the variant has a positive fitness. -/
def isViable [Scalar α] (v : Variant α) : Bool := v.fitness.any (0 < ·)

/-- Takes over another program. Its fitness is open again; the failing tests stay those of the last
evaluation. -/
def become (v : Variant α) (root : Node) (description : String) : Variant α :=
  { v with root := root, fitness := none, lineage := v.lineage ++ [description] }

/-- Asks for a new localization at the next evaluation. -/
def markStale (v : Variant α) : Variant α := { v with stale := true }

/-- Takes note that faults have been localized anew. -/
def markLocalized (v : Variant α) : Variant α := { v with stale := false }

def assess (v : Variant α) (fitness : α) (failing : SortedSet TestId) : Variant α :=
  { v with fitness := some fitness, failing := failing }

end Variant

end GeneticRepair
