import GeneticRepair.Assessment.Policy
import GeneticRepair.Syntax.Content
import GeneticRepair.Syntax.Store
import GeneticRepair.Variant

/-!
# `Assessment/Retest.lean` — which tests a variant needs

A variant is compared with the program under repair, compilation unit by compilation unit. If none
has changed, it inherits the outcome of that program. If some have, only the test classes that cover
them are run, as far as the units can be told apart by their names and have been localized. In every
other case all tests are run.
-/

set_option autoImplicit false

namespace GeneticRepair

/-- How to get the test results of a variant. -/
inductive RetestPlan where
  /-- Nothing changed: take over the outcome of the program under repair. -/
  | inherit
  /-- Run the selected tests, and localize faults anew if asked to. -/
  | retest (selection : Selection) (relocalize : Bool)
deriving DecidableEq

namespace RetestPlan

variable {α : Type} [Scalar α]

/-- The units with their file names; `none` if a unit has none. -/
def named (store : Store α) : List Node → Option (List (String × Node))
  | [] => some []
  | u :: us => do
    let name ← store.attribute? u Attributes.fileName
    let rest ← named store us
    return (name, u) :: rest

/-- The units whose content differs from the unit of the same name; `none` if a unit has no name or
its name is new. Of several units with one name the last one counts. -/
def changedAmong (before : List (String × Node)) : List (String × Node) → Option (List Node)
  | [] => some []
  | (name, u) :: us => do
    let old ← before.reverse.lookup name
    let rest ← changedAmong before us
    return if old.sameContent u then rest else u :: rest

/-- The compilation units of a program that differ from those of another one; `none` if the two do
not have the same units. -/
def changedUnits (store : Store α) (baseline candidate : Node) : Option (List Node) :=
  if baseline.id = candidate.id then some []
  else do
    let before ← named store baseline.units
    let units := candidate.units
    -- a name that occurs twice counts once before and twice now
    if units.length = (SortedSet.ofList (before.map (·.1))).size then
      changedAmong before (← named store units)
    else none

/-- The test classes that cover one of the units; `none` if a unit has not been localized. -/
def coveringClasses (store : Store α) : List Node → Option (SortedSet String)
  | [] => some ∅
  | u :: us => do
    let classes ← store.coveredBy u
    let rest ← coveringClasses store us
    return rest.union classes

def choose (policy : FitnessPolicy α) (store : Store α) (baseline : Node) (v : Variant α) :
    RetestPlan :=
  if v.stale then .retest (.everything true) true
  else if !policy.incremental then .retest (.everything false) false
  else
    match changedUnits store baseline v.root with
    | none => .retest (.everything false) false
    | some [] => .inherit
    | some units =>
      match coveringClasses store units with
      | none => .retest (.everything false) false
      | some classes => .retest (.ofClasses classes) false

end RetestPlan

end GeneticRepair
