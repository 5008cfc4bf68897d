import GeneticRepair.Random.WordStream
import GeneticRepair.Syntax.Content
import GeneticRepair.Syntax.Spine

/-!
# `Evolution/Crossover.lean` — crossover

Two versions of a program are crossed where they diverge: at the outermost pairs of nodes, place by
place, that differ and hold a suspicious statement in one of the versions. At each such block the
children behind a random cutoff are exchanged.
-/

set_option autoImplicit false

namespace GeneticRepair

inductive Crossing where
  /-- Two new versions, and the number of blocks at which they were crossed. -/
  | offspring (first second : Node) (blocks : Nat)
  /-- The versions do not diverge at a suspicious block. -/
  | alike

namespace Crossover

variable {α : Type} [Scalar α]

/-- Whether a node has a suspicious statement among its children. -/
def holdsSuspicious (store : Store α) (n : Node) : Bool := n.children.any store.isSuspect

mutual

/-- The places of the blocks at which two nodes diverge, outermost and from left to right. -/
def blocks (store : Store α) : Node → Node → List ChildPath
  | .leaf .., _ => []
  | .inner id kind span children, b =>
    let a := Node.inner id kind span children
    if a.sameContent b || b.isLeaf then []
    else if holdsSuspicious store a || holdsSuspicious store b then [[]]
    else blocksIn store 0 children b.children

/-- The places of the blocks below two lists of children whose first ones have the given index. -/
def blocksIn (store : Store α) (index : Nat) : List Node → List Node → List ChildPath
  | a :: as, b :: bs =>
    (blocks store a b).map (index :: ·) ++ blocksIn store (index + 1) as bs
  | _, _ => []

end

/-- Exchanges what two lists hold behind a cutoff, or behind the end of the shorter one if that
comes first. -/
def splice {β : Type} (a b : List β) (cutoff : Nat) : List β × List β :=
  let c := min (min cutoff a.length) b.length
  (a.take c ++ b.drop c, b.take c ++ a.drop c)

/-- A version with other children at a place. -/
def graft (root : Node) (path : ChildPath) (children : List Node) : StoreM α (Option Node) := do
  match ← root.copySpine path with
  | none => return none
  | some spine => return (spine.setChildren children).toOption.map Spine.close

structure Progress where
  first : Node
  second : Node
  crossed : Nat

/-- Crosses two parents at one block. A cutoff is drawn up to the length of the shorter list of
children; the children are those of the parents, whatever other blocks have done. -/
def crossBlock (first second : Node) (path : ChildPath) (p : Progress) (rng : WordStream) :
    StoreM α (Progress × WordStream) := do
  match first.descend path, second.descend path with
  | some a, some b =>
    let (cutoff, rng) := rng.below (min a.children.length b.children.length + 1)
    let (kidsA, kidsB) := splice a.children b.children cutoff
    -- blocks do not nest, so the place is still there in both new versions
    let newFirst ← graft p.first path kidsA
    let newSecond ← graft p.second path kidsB
    match newFirst, newSecond with
    | some x, some y => return (⟨x, y, p.crossed + 1⟩, rng)
    | _, _ => return (p, rng)
  | _, _ => return (p, rng)

def crossBlocks (first second : Node) :
    List ChildPath → Progress → WordStream → StoreM α (Progress × WordStream)
  | [], p, rng => return (p, rng)
  | path :: paths, p, rng => do
    let (p, rng) ← crossBlock first second path p rng
    crossBlocks first second paths p rng

def cross (first second : Node) (rng : WordStream) : StoreM α (Crossing × WordStream) := do
  let store ← get
  let (p, rng) ← crossBlocks first second (blocks store first second) ⟨first, second, 0⟩ rng
  if p.crossed = 0 then return (.alike, rng)
  else return (.offspring p.first p.second p.crossed, rng)

end Crossover

end GeneticRepair
