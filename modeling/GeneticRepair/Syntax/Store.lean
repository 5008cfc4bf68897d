import GeneticRepair.Collection.SortedSet
import GeneticRepair.Numeric.Scalar
import GeneticRepair.Syntax.Traversal

/-!
# `Syntax/Store.lean` — marks on nodes

What analyses find out about a node is its mark: how suspicious it is, which test classes cover it,
and named attributes. Marks are kept in a store under the identity of the node, so every version of
a program that shares the node sees the same mark, and writing one is visible in all of them. The
store also hands out identities: a new node gets the next free one together with its first mark.

* `mark_update`, `mark_allocate`: which marks an operation changes.
-/

set_option autoImplicit false

namespace GeneticRepair

/-- Named texts; each name occurs once. -/
abbrev Attributes := List (String × String)

namespace Attributes

def get? (a : Attributes) (key : String) : Option String := a.lookup key

def put (a : Attributes) (key value : String) : Attributes :=
  (key, value) :: a.filter (·.1 ≠ key)

/-- The name under which a compilation unit carries the name of its file. -/
def fileName : String := "file-name"

/-- The name under which a type declaration carries its qualified name. -/
def className : String := "class-name"

end Attributes

/-- What is known about a node. -/
structure Mark (α : Type) where
  /-- How likely the node is at fault; zero if nothing speaks against it. -/
  suspicion : α
  /-- The test classes that cover the node; `none` before the first localization. -/
  coveredBy : Option (SortedSet String)
  attributes : Attributes

namespace Mark

variable {α : Type} [Scalar α]

def fresh (attributes : Attributes) : Mark α := ⟨0, none, attributes⟩

/-- Keeps the greater of the suspicion and a score; a score that is undefined, or not greater,
changes nothing. -/
def raise (m : Mark α) (score : α) : Mark α :=
  if m.suspicion < score then { m with suspicion := score } else m

def clear (m : Mark α) : Mark α := { m with suspicion := 0 }

/-- Adds test classes to the covering ones; even with none of them the set exists afterwards. -/
def cover (m : Mark α) (classes : List String) : Mark α :=
  { m with coveredBy := some ((m.coveredBy.getD ∅).insertAll classes) }

def setAttribute (m : Mark α) (key value : String) : Mark α :=
  { m with attributes := m.attributes.put key value }

@[simp] theorem attributes_raise (m : Mark α) (score : α) :
    (m.raise score).attributes = m.attributes := by
  unfold raise
  split <;> rfl

@[simp] theorem coveredBy_raise (m : Mark α) (score : α) :
    (m.raise score).coveredBy = m.coveredBy := by
  unfold raise
  split <;> rfl

end Mark

/-- The marks of all nodes made so far, each at the identity of its node. -/
structure Store (α : Type) where
  /-- The marks in order of identity. -/
  marks : Array (Mark α)

namespace Store

variable {α : Type} [Scalar α]

def empty : Store α := ⟨#[]⟩

instance : Inhabited (Store α) := ⟨empty⟩

/-- The identity that the next node gets. -/
def next (s : Store α) : NodeId := s.marks.size

/-- The mark of a node; identities not given out have that of a new node. -/
def mark (s : Store α) (id : NodeId) : Mark α := s.marks.getD id (.fresh [])

/-- Gives out an identity with its first mark. -/
def allocate (s : Store α) (m : Mark α) : NodeId × Store α := (s.next, ⟨s.marks.push m⟩)

def update (s : Store α) (id : NodeId) (f : Mark α → Mark α) : Store α :=
  ⟨s.marks.modify id f⟩

def suspicion (s : Store α) (n : Node) : α := (s.mark n.id).suspicion

def coveredBy (s : Store α) (n : Node) : Option (SortedSet String) := (s.mark n.id).coveredBy

def attribute? (s : Store α) (n : Node) (key : String) : Option String :=
  (s.mark n.id).attributes.get? key

/-- Raises the suspicion of a node to a score. -/
def raise (s : Store α) (n : Node) (score : α) : Store α := s.update n.id (·.raise score)

def clear (s : Store α) (n : Node) : Store α := s.update n.id .clear

def cover (s : Store α) (n : Node) (classes : List String) : Store α :=
  s.update n.id (·.cover classes)

def setAttribute (s : Store α) (n : Node) (key value : String) : Store α :=
  s.update n.id (·.setAttribute key value)

/-- Whether a node is a statement that mutation may pick. -/
def isSuspect (s : Store α) (n : Node) : Bool :=
  n.kind = .atomicStatement && 0 < s.suspicion n

/-- The statements of a program that mutation may pick, at each of their places. -/
def suspects (s : Store α) (root : Node) : List Node :=
  root.preorder.filter s.isSuspect

/-! ## What an operation changes -/

omit [Scalar α] in
@[simp] theorem next_update (s : Store α) (id : NodeId) (f : Mark α → Mark α) :
    (s.update id f).next = s.next := by
  simp [next, update]

omit [Scalar α] in
@[simp] theorem next_allocate (s : Store α) (m : Mark α) : (s.allocate m).2.next = s.next + 1 := by
  simp [next, allocate]

omit [Scalar α] in
@[simp] theorem fst_allocate (s : Store α) (m : Mark α) : (s.allocate m).1 = s.next := rfl

/-- A new node has the mark it was made with, and no other mark changes. -/
theorem mark_allocate (s : Store α) (m : Mark α) (id : NodeId) :
    (s.allocate m).2.mark id = if id = s.next then m else s.mark id := by
  simp only [mark, allocate, next, Array.getD_eq_getD_getElem?, Array.getElem?_push]
  split <;> simp_all

/-- A change touches the mark of its node only. -/
theorem mark_update (s : Store α) (id : NodeId) (f : Mark α → Mark α) (x : NodeId) :
    (s.update id f).mark x = if x = id ∧ id < s.next then f (s.mark x) else s.mark x := by
  simp only [mark, update, next, Array.getD_eq_getD_getElem?, Array.getElem?_modify]
  by_cases h : x = id
  · subst h
    by_cases hx : x < s.marks.size <;> simp [hx]
  · simp [h, Ne.symm h]

end Store

/-- A computation that reads and writes marks and makes nodes. -/
abbrev StoreM (α : Type) := StateM (Store α)

namespace StoreM

variable {α : Type} [Scalar α]

/-- Gives out an identity with its first mark. -/
def allocate (m : Mark α) : StoreM α NodeId := fun s => s.allocate m

/-- Makes a copy of a node alone: a new identity with the same mark, and the same children. -/
def copy (n : Node) : StoreM α Node := fun s =>
  let (id, s) := s.allocate (s.mark n.id)
  (n.withId id, s)

end StoreM

end GeneticRepair
