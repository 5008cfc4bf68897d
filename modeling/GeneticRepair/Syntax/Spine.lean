import GeneticRepair.Syntax.Path
import GeneticRepair.Syntax.Store

/-!
# `Syntax/Spine.lean` — editing along a spine

A program is edited by copying its spine, the nodes from the root to the place that changes. The
copies are new nodes with the marks of what they were copied from. The last one, the target, can be
edited; closing the spine links the copies bottom-up into a new version, which shares every node off
the spine with the old one. An edit that is refused changes nothing.
-/

set_option autoImplicit false

namespace GeneticRepair

inductive EditError where
  | targetIsLeaf
  | targetIsInner
  | noSuchChild (index length : Nat)
deriving DecidableEq

namespace EditError

def message : EditError → String
  | .targetIsLeaf => "cannot edit children of a leaf"
  | .targetIsInner => "cannot edit text of an inner node"
  | .noSuchChild index length => s!"child index {index} out of range for {length} children"

end EditError

/-- A copied inner node above the target. -/
structure Ancestor where
  id : NodeId
  kind : NodeKind
  /-- The children of the node that was copied. -/
  children : List Node
  /-- The index of the child that the spine goes through. -/
  index : Nat

namespace Ancestor

/-- Puts a node where the spine goes through. -/
def link (a : Ancestor) (below : Node) : Node :=
  .make a.id a.kind (a.children.set a.index below)

end Ancestor

/-- The copied nodes from a root to a place. -/
structure Spine where
  /-- The copies above the target, the root first. -/
  ancestors : List Ancestor
  target : Node

namespace Spine

def path (s : Spine) : ChildPath := s.ancestors.map (·.index)

def length (s : Spine) : Nat := s.ancestors.length + 1

/-- Replaces the children of the target by what a function makes of them. -/
def editChildren {β : Type} (s : Spine) (f : List Node → Except EditError (β × List Node)) :
    Except EditError (β × Spine) :=
  match s.target with
  | .leaf .. => .error .targetIsLeaf
  | .inner id kind _ children =>
    match f children with
    | .error e => .error e
    | .ok (result, children) => .ok (result, { s with target := .make id kind children })

/-- Inserts a child of the target before the one with the index, or at the end. -/
def insertAt (s : Spine) (index : Nat) (child : Node) : Except EditError Spine :=
  (s.editChildren fun children =>
    if index ≤ children.length then .ok ((), children.take index ++ child :: children.drop index)
    else .error (.noSuchChild index children.length)).map (·.2)

/-- Removes a child of the target and hands it out. -/
def removeAt (s : Spine) (index : Nat) : Except EditError (Node × Spine) :=
  s.editChildren fun children =>
    match children[index]? with
    | some child => .ok (child, children.eraseIdx index)
    | none => .error (.noSuchChild index children.length)

def setChildren (s : Spine) (children : List Node) : Except EditError Spine :=
  (s.editChildren fun _ => .ok ((), children)).map (·.2)

def setToken (s : Spine) (text : String) : Except EditError Spine :=
  match s.target with
  | .leaf id _ position => .ok { s with target := .leaf id text position }
  | .inner .. => .error .targetIsInner

/-- Links the copies bottom-up to a new version of the program. -/
def close (s : Spine) : Node := s.ancestors.foldr Ancestor.link s.target

end Spine

namespace Node

variable {α : Type} [Scalar α]

/-- Copies the spine to a place; `none` if there is no such place. -/
def copySpine : Node → ChildPath → StoreM α (Option Spine)
  | n, [] => do
    let target ← StoreM.copy n
    return some ⟨[], target⟩
  | n, i :: path =>
    match n.children[i]? with
    | none => return none
    | some child => do
      let top ← StoreM.copy n
      let below ← child.copySpine path
      return below.map fun s => ⟨⟨top.id, n.kind, n.children, i⟩ :: s.ancestors, s.target⟩

/-- Copies the spine to the first place of a node. -/
def copySpineTo (root n : Node) : StoreM α (Option Spine) :=
  match root.pathTo n.id with
  | none => return none
  | some path => root.copySpine path

end Node

end GeneticRepair
