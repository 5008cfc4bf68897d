import Mathlib.Data.List.Sort
import Mathlib.Data.Option.Basic
import GeneticRepair.Proofs.Syntax.Places

/-!
# `Proofs/Syntax/Walking.lean` — what a walk visits

A walk keeps the nodes still to visit on a stack, and a step of it may put many on it. `Walk.Yields`
says what is visited until nothing is left, step by step, so that a walk which goes on for ever
yields nothing. What a walk from a node yields is said without stacks and without recursion on the
node by `Node.InOrder`: one node for each place, in the lexicographic order of the child indices. A
node that is shared is visited at each of its places, so its identity tells nothing about progress;
the number of places below the stack does (`Walk.remaining`).

* `yields_iff`: a walk ends, and yields one list only.
* `InOrder.unique`: places and their order determine the list.
* `walk_in_order`: a walk from a node, and what is read off it, is in the order of the places.
-/

set_option autoImplicit false

namespace GeneticRepair

namespace Walk

/-- The nodes that a walk visits until nothing is left to visit. -/
inductive Yields : Walk → List Node → Prop where
  | stop {w : Walk} (h : w.next? = none) : Yields w []
  | visit {w rest : Walk} {n : Node} {l : List Node} (h : w.next? = some (n, rest))
      (hrest : Yields rest l) : Yields w (n :: l)

variable {w : Walk} {l l' : List Node}

theorem yields_toList (w : Walk) : w.Yields w.toList := by
  fun_induction toList w with
  | case1 w h => exact .stop h
  | case2 w n rest h ih => exact .visit h ih

theorem Yields.unique (h : w.Yields l) (h' : w.Yields l') : l = l' := by
  induction h generalizing l' with
  | stop h =>
    cases h' with
    | stop => rfl
    | visit h' => cases h.symm.trans h'
  | visit h _ ih =>
    cases h' with
    | stop h' => cases h.symm.trans h'
    | visit h' hrest =>
      cases h.symm.trans h'
      rw [ih hrest]

/-- Every walk comes to an end, and yields one list. -/
theorem yields_iff : w.Yields l ↔ w.toList = l := by
  constructor
  · intro h
    exact (yields_toList w).unique h
  · rintro rfl
    exact yields_toList w

end Walk

namespace Node

/-- The nodes of some sort, one for each place at which such a node stands, in the order of the
places. -/
def InOrder (n : Node) (sort : Node → Prop) (l : List Node) : Prop :=
  ∃ ps : List ChildPath, ps.Pairwise (· < ·) ∧
    (∀ p, p ∈ ps ↔ ∃ m, n.descend p = some m ∧ sort m) ∧ ps.map n.descend = l.map some

variable {n : Node} {sort : Node → Prop} {l l' : List Node}

theorem InOrder.unique (h : n.InOrder sort l) (h' : n.InOrder sort l') : l = l' := by
  obtain ⟨ps, hps, hmem, hl⟩ := h
  obtain ⟨ps', hps', hmem', hl'⟩ := h'
  obtain rfl : ps = ps' := hps.eq_of_mem_iff hps' fun p => (hmem p).trans (hmem' p).symm
  exact List.map_injective_iff.mpr (Option.some_injective _) (hl.symm.trans hl')

theorem inOrder_filter (n : Node) (sort : Node → Bool) :
    n.InOrder (fun m => sort m = true) (n.preorder.filter sort) := by
  refine ⟨(n.occurrences sort).map Prod.fst, ?_, fun p => ?_, ?_⟩
  · rw [List.pairwise_map]
    exact pairwise_occurrences n sort
  · rw [List.mem_map]
    constructor
    · rintro ⟨⟨q, m⟩, hv, rfl⟩
      exact ⟨m, mem_occurrences.mp hv⟩
    · rintro ⟨m, hm⟩
      exact ⟨(p, m), mem_occurrences.mpr hm, rfl⟩
  · rw [filter_preorder, List.map_map, List.map_map]
    refine List.map_congr_left fun v hv => ?_
    exact (mem_occurrences.mp hv).1

theorem inOrder_preorder (n : Node) : n.InOrder (fun _ => True) n.preorder := by
  have h := inOrder_filter n fun _ => true
  rw [List.filter_true] at h
  simpa using h

/-- A walk from a node ends, and what it visits is the pre-order of the node: exactly what stands at
the places below it, one node for each place and in their order, as many as the size says. What is
read off a walk keeps that order. -/
theorem walk_in_order {α : Type} [Scalar α] (s : Store α) (n : Node) :
    (∀ l, (Walk.start n).Yields l ↔ l = n.preorder) ∧
      (∀ l, (Walk.start n).Yields l ↔ n.InOrder (fun _ => True) l) ∧
      n.preorder.length = n.size ∧
      n.InOrder (·.kind = .atomicStatement) n.statements ∧
      n.InOrder (fun m => m.kind = .atomicStatement ∧ 0 < s.suspicion m) (s.suspects n) ∧
      n.InOrder (·.kind = .file) n.units := by
  have hyields (l : List Node) : (Walk.start n).Yields l ↔ l = n.preorder := by
    rw [Walk.yields_iff, Walk.toList_start, eq_comm]
  have hkind (kind : NodeKind) : n.InOrder (·.kind = kind) (n.ofKind kind) := by
    simpa [ofKind] using inOrder_filter n (·.kind = kind)
  refine ⟨hyields, fun l => ?_, length_preorder n, hkind _, ?_, hkind _⟩
  · rw [hyields]
    constructor
    · rintro rfl
      exact inOrder_preorder n
    · intro h
      exact h.unique (inOrder_preorder n)
  · simpa [Store.suspects, Store.isSuspect] using inOrder_filter n s.isSuspect

end Node

end GeneticRepair
