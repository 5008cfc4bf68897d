import GeneticRepair.Syntax.Node

/-!
# `Syntax/Traversal.lean` — reading a program in order

The pre-order of a node lists every place below it, parents before children and children from left
to right; a shared node is listed at each of its places. It is defined by recursion on the node, and
once more as a walk that keeps the nodes still to visit on a stack.

* `preorder_inner`, `preorder_leaf`: the recursive equations.
* `Walk.toList_start`: the walk from a node lists exactly its pre-order.
-/

set_option autoImplicit false

namespace GeneticRepair

namespace Node

mutual

/-- The pre-order of a node, followed by the given nodes. -/
def preorderOnto : Node → List Node → List Node
  | .leaf id text position, rest => .leaf id text position :: rest
  | .inner id kind span children, rest =>
    .inner id kind span children :: preorderOntoAll children rest

/-- The pre-orders of some nodes, followed by the given nodes. -/
def preorderOntoAll : List Node → List Node → List Node
  | [], rest => rest
  | c :: cs, rest => c.preorderOnto (preorderOntoAll cs rest)

end

/-- All places of a node in pre-order. -/
def preorder (n : Node) : List Node := n.preorderOnto []

theorem preorderOnto_eq (n : Node) (rest : List Node) :
    n.preorderOnto rest = n.preorder ++ rest := by
  induction n generalizing rest with
  | leaf => rfl
  | inner id kind span children ih =>
    have all : ∀ (l : List Node), (∀ c ∈ l, ∀ r, c.preorderOnto r = c.preorder ++ r) →
        ∀ r, preorderOntoAll l r = preorderOntoAll l [] ++ r := by
      intro l
      induction l with
      | nil => intro _ r; rfl
      | cons c l ihl =>
        intro h r
        have hc := h c (List.mem_cons_self ..)
        have hl := ihl fun d hd => h d (List.mem_cons_of_mem _ hd)
        simp only [preorderOntoAll]
        rw [hc, hc (preorderOntoAll l []), hl r, List.append_assoc]
    simp only [preorder, preorderOnto]
    rw [all children ih]
    rfl

theorem preorderOntoAll_eq (l rest : List Node) :
    preorderOntoAll l rest = l.flatMap preorder ++ rest := by
  induction l with
  | nil => rfl
  | cons c l ih => simp [preorderOntoAll, preorderOnto_eq, ih]

@[simp] theorem preorder_leaf (id text position) :
    (leaf id text position).preorder = [leaf id text position] := rfl

@[simp] theorem preorder_inner (id kind span children) :
    (inner id kind span children).preorder =
      inner id kind span children :: children.flatMap preorder := by
  simp [preorder, preorderOnto, preorderOntoAll_eq]

/-- A node comes first, then its children one after the other. -/
theorem preorder_eq (n : Node) : n.preorder = n :: n.children.flatMap preorder := by
  cases n <;> simp [children]

@[simp] theorem length_preorder (n : Node) : n.preorder.length = n.size := by
  induction n with
  | leaf => simp [size]
  | inner id kind span children ih =>
    have all : ∀ l : List Node, (∀ c ∈ l, c.preorder.length = c.size) →
        (l.flatMap preorder).length = sizeAll l := by
      intro l
      induction l with
      | nil => intro _; rfl
      | cons c l ihl =>
        intro h
        have hl := ihl fun d hd => h d (List.mem_cons_of_mem _ hd)
        rw [List.flatMap_cons, List.length_append, h c (List.mem_cons_self ..), hl, sizeAll]
    rw [preorder_inner, List.length_cons, all children ih, size, Nat.add_comm]

/-- The places of one kind in pre-order. -/
def ofKind (n : Node) (kind : NodeKind) : List Node := n.preorder.filter (·.kind = kind)

/-- The statements that mutation works on. -/
def statements (n : Node) : List Node := n.ofKind .atomicStatement

/-- The source files of a program. -/
def units (n : Node) : List Node := n.ofKind .file

end Node

/-! ## The walk -/

/-- A pre-order walk that is under way: the nodes still to visit, the next one first. -/
structure Walk where
  pending : List Node

namespace Walk

/-- The walk that is about to visit a node. -/
def start (n : Node) : Walk := ⟨[n]⟩

/-- Visits the next node and puts its children on the stack. -/
def next? (w : Walk) : Option (Node × Walk) :=
  match w.pending with
  | [] => none
  | n :: rest => some (n, ⟨n.children ++ rest⟩)

/-- The number of places that are still to visit. -/
def remaining (w : Walk) : Nat := Node.sizeAll w.pending

theorem remaining_next {w w' : Walk} {n : Node} (h : w.next? = some (n, w')) :
    w'.remaining < w.remaining := by
  obtain ⟨_ | ⟨m, rest⟩⟩ := w
  · simp [next?] at h
  · simp only [next?, Option.some.injEq, Prod.mk.injEq] at h
    obtain ⟨rfl, rfl⟩ := h
    simp only [remaining, Node.sizeAll_append, Node.sizeAll]
    rw [Node.size_eq m]
    omega

/-- The nodes that the walk visits until its stack is empty. -/
def toList (w : Walk) : List Node :=
  match _h : w.next? with
  | none => []
  | some (n, rest) => n :: rest.toList
termination_by w.remaining
decreasing_by exact remaining_next (by assumption)

theorem toList_eq (w : Walk) : w.toList = w.pending.flatMap Node.preorder := by
  fun_induction toList w with
  | case1 w h =>
    obtain ⟨_ | ⟨m, rest⟩⟩ := w
    · rfl
    · simp [next?] at h
  | case2 w n w' h ih =>
    obtain ⟨_ | ⟨m, rest⟩⟩ := w
    · simp [next?] at h
    · simp only [next?, Option.some.injEq, Prod.mk.injEq] at h
      obtain ⟨rfl, rfl⟩ := h
      simp [ih, Node.preorder_eq m]

/-- The walk from a node visits its places in pre-order. -/
theorem toList_start (n : Node) : (start n).toList = n.preorder := by
  simp [toList_eq, start]

end Walk

end GeneticRepair
