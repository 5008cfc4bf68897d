import GeneticRepair.Evolution.Roulette
import GeneticRepair.Evolution.Settings
import GeneticRepair.Syntax.Content
import GeneticRepair.Syntax.Spine

/-!
# `Evolution/Mutation.lean` — mutation

A mutation picks a suspicious statement in proportion to its suspicion and an operator, and applies
the operator to that statement. Deleting removes it from its parent. Inserting puts a copy of a
random statement before it, and the copy is as suspicious as the statement, so that it can be
mutated in turn.
-/

set_option autoImplicit false

namespace GeneticRepair

inductive MutationError where
  /-- The operator has no meaning. -/
  | reserved (operator : Operator)
  /-- The target is not part of the program. -/
  | targetMissing
  | targetIsRoot
  | noDonor
  | edit (cause : EditError)
deriving DecidableEq

namespace MutationError

def message : MutationError → String
  | .reserved operator =>
    "mutation operator `" ++ operator.name ++ "` is reserved and has no semantics"
  | .targetMissing => "mutation target is not reachable from the variant root"
  | .targetIsRoot => "mutation target has no parent block"
  | .noDonor => "no donor statement available in scope"
  | .edit cause => cause.message

end MutationError

inductive MutationResult where
  /-- A new version of the program, and what was done to it. -/
  | changed (root : Node) (operator : Operator) (description : String)
  /-- There is nothing to mutate, or no operator. -/
  | unchanged
  | refused (operator : Operator) (error : MutationError)

namespace Mutation

variable {α : Type} [Scalar α]

/-- The place of the parent of a node, and the index of the node below it. -/
def slotOf (root target : Node) : Except MutationError (ChildPath × Nat) :=
  match root.pathTo target.id with
  | none => .error .targetMissing
  | some path =>
    match path.getLast? with
    | none => .error .targetIsRoot
    | some index => .ok (path.dropLast, index)

/-- How a description refers to a statement. -/
def describe (n : Node) : String :=
  let source := "`" ++ n.source ++ "`"
  match n.lineSpan with
  | none => source
  | some span => source ++ s!" (line {span.first})"

/-- Copies the spine to a place and edits its target. -/
def editAt (root : Node) (path : ChildPath) (edit : Spine → Except EditError Spine) :
    StoreM α (Except MutationError Node) := do
  match ← root.copySpine path with
  | none => return .error .targetMissing
  | some spine =>
    match edit spine with
    | .error cause => return .error (.edit cause)
    | .ok spine => return .ok spine.close

def delete (root target : Node) : StoreM α (Except MutationError (Node × String)) := do
  match slotOf root target with
  | .error e => return .error e
  | .ok (path, index) =>
    let edited ← editAt root path fun s => (s.removeAt index).map (·.2)
    return edited.map fun root => (root, "delete " ++ describe target)

/-- The statements that may be inserted before a target. -/
def donors (root target : Node) : DonorScope → List Node
  | .program => root.statements
  | .sameUnit =>
    match root.unitAround target with
    | some unit => unit.statements
    | none => root.statements

/-- A copy of a statement alone that is as suspicious as another one. -/
def transplant (donor target : Node) : StoreM α Node := do
  let inserted ← StoreM.copy donor
  modify fun s => (s.clear inserted).raise inserted (s.suspicion target)
  return inserted

/-- Inserts a copy of a random statement of the scope before a statement. -/
def insertBefore (root target : Node) (scope : DonorScope) (rng : WordStream) :
    StoreM α (Except MutationError (Node × String) × WordStream) := do
  match slotOf root target with
  | .error e => return (.error e, rng)
  | .ok (path, index) =>
    let pool := donors root target scope
    let (choice, rest) := rng.below pool.length
    match pool[choice]? with
    -- an empty pool takes no word
    | none => return (.error .noDonor, rng)
    | some donor =>
      let inserted ← transplant donor target
      let edited ← editAt root path (·.insertAt index inserted)
      return (edited.map fun root =>
        (root, "insert " ++ describe donor ++ " before " ++ describe target), rest)

/-- Applies an operator to a statement of a program. -/
def apply (operator : Operator) (root target : Node) (scope : DonorScope)
    (rng : WordStream) : StoreM α (Except MutationError (Node × String) × WordStream) := do
  match operator with
  | .delete => return (← delete root target, rng)
  | .insertBefore => insertBefore root target scope rng
  | .swap => return (.error (.reserved .swap), rng)

/-- Mutates a program at a suspicious statement. -/
def mutate (root : Node) (operators : List Operator) (scope : DonorScope)
    (rng : WordStream) : StoreM α (MutationResult × WordStream) := do
  let store ← get
  let candidates := store.suspects root
  let (index, rng) := Roulette.draw (candidates.map store.suspicion) rng
  match index.bind (candidates[·]?) with
  | none => return (.unchanged, rng)
  | some target =>
    let (choice, rest) := rng.below operators.length
    match operators[choice]? with
    | none => return (.unchanged, rng)
    | some operator =>
      let (result, rng) ← apply operator root target scope rest
      match result with
      | .error e => return (.refused operator e, rng)
      | .ok (root, description) => return (.changed root operator description, rng)

end Mutation

end GeneticRepair
