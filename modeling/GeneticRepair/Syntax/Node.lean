/-!
# `Syntax/Node.lean` — program nodes

A program is the node at its root. A node is a leaf with a token or an inner node of some kind with
a list of children, and it carries an identity: two nodes are the same node when their identities
are equal, whatever they look like. Versions of a program share the nodes that an edit did not
touch, and one node may stand at several places of one program. What an analysis finds out about a
node is kept elsewhere under its identity, so the node itself never changes.

An inner node remembers the lines that its leaves span. `Node.make` computes them; every inner node
of the library is made by it.
-/

set_option autoImplicit false

namespace GeneticRepair

abbrev NodeId := Nat

/-- What a node stands for in the language of the program. -/
inductive NodeKind where
  | file
  | typeDeclaration
  | method
  | constructor
  | field
  | atomicStatement
  | compositeStatement
  | leaf
  | other
deriving DecidableEq, Repr, Inhabited

/-- A place in a source file; lines come first in its order. -/
structure Position where
  /-- The line, from one. -/
  line : Nat
  /-- The column in bytes, from one. -/
  column : Nat
deriving DecidableEq, Repr, Inhabited

instance : Ord Position := ⟨compareLex (compareOn Position.line) (compareOn Position.column)⟩

/-- A range of lines, both ends included. -/
structure LineSpan where
  first : Nat
  last : Nat
deriving DecidableEq, Repr, Inhabited

namespace LineSpan

def single (line : Nat) : LineSpan := ⟨line, line⟩

/-- The smallest range around two. -/
def union (a b : LineSpan) : LineSpan := ⟨min a.first b.first, max a.last b.last⟩

/-- The smallest range around all that are there; `none` if there are none. -/
def hull : List (Option LineSpan) → Option LineSpan
  | [] => none
  | none :: l => hull l
  | some a :: l =>
    match hull l with
    | none => some a
    | some b => some (a.union b)

def contains (a : LineSpan) (line : Nat) : Bool := a.first ≤ line && line ≤ a.last

end LineSpan

/-- A node of a program. -/
inductive Node where
  /-- A token with its place in the source. -/
  | leaf (id : NodeId) (text : String) (position : Position)
  /-- A node with children, and the lines that the leaves below it span. -/
  | inner (id : NodeId) (kind : NodeKind) (span : Option LineSpan) (children : List Node)

namespace Node

/-- What holds of every leaf, and of an inner node if it holds of its children, holds of every
node. -/
@[elab_as_elim, induction_eliminator]
theorem induction {motive : Node → Prop}
    (leaf : ∀ id text position, motive (.leaf id text position))
    (inner : ∀ id kind span children, (∀ c ∈ children, motive c) →
      motive (.inner id kind span children)) (n : Node) : motive n :=
  @Node.rec motive (fun l => ∀ c ∈ l, motive c) leaf inner
    (fun _ h => absurd h List.not_mem_nil)
    (fun _ _ hd tl _ h => (List.mem_cons.1 h).elim (fun e => e ▸ hd) (tl _)) n

def id : Node → NodeId
  | .leaf id .. => id
  | .inner id .. => id

/-- The kind of a node; that of a leaf is fixed. -/
def kind : Node → NodeKind
  | .leaf .. => .leaf
  | .inner _ kind .. => kind

/-- The children in order; a leaf has none. -/
def children : Node → List Node
  | .leaf .. => []
  | .inner _ _ _ children => children

/-- Whether the node is a token. An inner node of kind `leaf` is not. -/
def isLeaf : Node → Bool
  | .leaf .. => true
  | .inner .. => false

def text? : Node → Option String
  | .leaf _ text _ => some text
  | .inner .. => none

def position? : Node → Option Position
  | .leaf _ _ position => some position
  | .inner .. => none

/-- The lines from the first to the last leaf of a node; `none` if there is no leaf below it. -/
def lineSpan : Node → Option LineSpan
  | .leaf _ _ position => some (.single position.line)
  | .inner _ _ span _ => span

/-- Whether a line lies between the first and the last line of a node. -/
def coversLine (n : Node) (line : Nat) : Bool := n.lineSpan.any (·.contains line)

/-- An inner node over the given children. -/
def make (id : NodeId) (kind : NodeKind) (children : List Node) : Node :=
  .inner id kind (LineSpan.hull (children.map lineSpan)) children

def withId (n : Node) (id : NodeId) : Node :=
  match n with
  | .leaf _ text position => .leaf id text position
  | .inner _ kind span children => .inner id kind span children

@[simp] theorem id_make (id kind children) : (make id kind children).id = id := rfl

@[simp] theorem kind_make (id kind children) : (make id kind children).kind = kind := rfl

@[simp] theorem children_make (id kind children) : (make id kind children).children = children :=
  rfl

@[simp] theorem id_withId (n : Node) (i : NodeId) : (n.withId i).id = i := by cases n <;> rfl

@[simp] theorem kind_withId (n : Node) (i : NodeId) : (n.withId i).kind = n.kind := by
  cases n <;> rfl

@[simp] theorem children_withId (n : Node) (i : NodeId) : (n.withId i).children = n.children := by
  cases n <;> rfl

@[simp] theorem lineSpan_withId (n : Node) (i : NodeId) : (n.withId i).lineSpan = n.lineSpan := by
  cases n <;> rfl

/-! ## Size -/

mutual

/-- The number of places in the tree below and at a node; a shared node counts at every place. -/
def size : Node → Nat
  | .leaf .. => 1
  | .inner _ _ _ children => 1 + sizeAll children

/-- The number of places in a list of trees. -/
def sizeAll : List Node → Nat
  | [] => 0
  | c :: cs => c.size + sizeAll cs

end

theorem sizeAll_append (l m : List Node) : sizeAll (l ++ m) = sizeAll l + sizeAll m := by
  induction l with
  | nil => simp [sizeAll]
  | cons c l ih => simp [sizeAll, ih, Nat.add_assoc]

/-- A node takes one place more than its children together. -/
theorem size_eq (n : Node) : n.size = 1 + sizeAll n.children := by
  cases n <;> rfl

end Node

end GeneticRepair
