import GeneticRepair.Syntax.Traversal

/-!
# `Syntax/Path.lean` — places in a program

A place is the list of child indices that leads to it from the root. The place of a node is the
first one, from left to right, at which that very node stands; a node that is shared may stand at
later places too.
-/

set_option autoImplicit false

namespace GeneticRepair

/-- The child indices from a root to a place. -/
abbrev ChildPath := List Nat

namespace Node

def descend : Node → ChildPath → Option Node
  | n, [] => some n
  | n, i :: path => n.children[i]?.bind (descend · path)

/-- The nodes on the way to a place, from the root on, as far as the place exists. -/
def along : Node → ChildPath → List Node
  | n, [] => [n]
  | n, i :: path =>
    n :: match n.children[i]? with
      | none => []
      | some c => c.along path

mutual

/-- The first place of the node with an identity. -/
def pathTo (target : NodeId) : Node → Option ChildPath
  | .leaf id .. => if id = target then some [] else none
  | .inner id _ _ children => if id = target then some [] else pathIn target 0 children

/-- The first place below a list of children whose first one has the given index. -/
def pathIn (target : NodeId) (index : Nat) : List Node → Option ChildPath
  | [] => none
  | c :: cs =>
    match c.pathTo target with
    | some path => some (index :: path)
    | none => pathIn target (index + 1) cs

end

/-- The parent of the first place of a node, and the index of the node below it; `none` for a node
that is missing and for the root. -/
def parentOf (root : Node) (n : Node) : Option (Node × Nat) := do
  let path ← root.pathTo n.id
  let index ← path.getLast?
  let parent ← root.descend path.dropLast
  return (parent, index)

/-- The node of `root` at the place that a node has in another version. In the same version that is
the node itself. -/
def counterpart (root other : Node) (n : Node) : Option Node :=
  if root.id = other.id then (other.pathTo n.id).map fun _ => n
  else (other.pathTo n.id).bind root.descend

/-- The innermost source file around the first place of a node, the node included. -/
def unitAround (root : Node) (n : Node) : Option Node := do
  let path ← root.pathTo n.id
  (root.along path).reverse.find? (·.kind = .file)

end Node

end GeneticRepair
