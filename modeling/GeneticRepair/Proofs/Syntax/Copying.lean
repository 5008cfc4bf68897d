import GeneticRepair.Proofs.Syntax.Growth
import GeneticRepair.Syntax.Spine

/-!
# `Proofs/Syntax/Copying.lean` — what copying a spine makes

`Spine.Copies` describes the copies above a place by recursion on the place: they are numbered from
the root down, and each has the kind and the children of what it was copied from. Everything about
the version that closing the spine makes is an induction on it. `Node.Copied` adds the store.
-/

set_option autoImplicit false

namespace GeneticRepair

namespace Spine

/-- The copies above a place of a program, numbered from `k` on, and the node at the place. -/
inductive Copies : Node → NodeId → ChildPath → List Ancestor → Node → Prop where
  | here (n : Node) (k : NodeId) : Copies n k [] [] n
  | under {n c old : Node} {k : NodeId} {i : Nat} {path : ChildPath} {above : List Ancestor}
      (hc : n.children[i]? = some c) (h : Copies c (k + 1) path above old) :
      Copies n k (i :: path) (⟨k, n.kind, n.children, i⟩ :: above) old

variable {n old : Node} {k : NodeId} {path : ChildPath} {above : List Ancestor}

@[simp] theorem close_nil (x : Node) : close ⟨[], x⟩ = x := rfl

@[simp] theorem close_cons (a : Ancestor) (x : Node) :
    close ⟨a :: above, x⟩ = a.link (close ⟨above, x⟩) := rfl

theorem children_link (a : Ancestor) (x : Node) :
    (a.link x).children = a.children.set a.index x := rfl

/-- Where the spine goes through, a linked copy has the node that was put there. -/
theorem getElem?_link {n c : Node} {i : Nat} (hc : n.children[i]? = some c) (k : NodeId)
    (x : Node) :
    ((⟨k, n.kind, n.children, i⟩ : Ancestor).link x).children[i]? = some x := by
  rw [children_link]
  exact List.getElem?_set_self (List.getElem?_eq_some_iff.mp hc).1

namespace Copies

theorem descend_eq (h : Copies n k path above old) : n.descend path = some old := by
  induction h with
  | here => rfl
  | under hc _ ih => rw [Node.descend_cons hc, ih]

/-- At the place the new version has what was linked in there. -/
theorem descend_close (h : Copies n k path above old) (x : Node) :
    (close ⟨above, x⟩).descend path = some x := by
  induction h with
  | here => rfl
  | under hc _ ih => rw [close_cons, Node.descend_cons (getElem?_link hc _ _), ih]

/-- Off the way to the place and off what is below it, the new version has the same nodes. -/
theorem descend_close_off (h : Copies n k path above old) (x : Node) {q : ChildPath}
    (hq : ¬ q <+: path) (hpath : ¬ path <+: q) :
    (close ⟨above, x⟩).descend q = n.descend q := by
  induction h generalizing q with
  | here => exact absurd List.nil_prefix hpath
  | @under n c old k i path above hc _ ih =>
    cases q with
    | nil => exact absurd List.nil_prefix hq
    | cons j q =>
      rw [close_cons]
      by_cases hj : i = j
      · subst hj
        rw [List.prefix_cons_inj] at hq hpath
        rw [Node.descend_cons (getElem?_link hc _ _), Node.descend_cons hc]
        exact ih hq hpath
      · rw [Node.descend, children_link, List.getElem?_set_ne hj]
        rfl

/-- On the way to the place the new version has the copies, and they have the kind and the number of
children of what was there. -/
theorem descend_close_above (h : Copies n k path above old) (x : Node) {q : ChildPath}
    (hq : q <+: path) (hne : q ≠ path) :
    ∃ was now, n.descend q = some was ∧ (close ⟨above, x⟩).descend q = some now ∧
      now.id = k + q.length ∧ now.kind = was.kind ∧
      now.children.length = was.children.length := by
  induction h generalizing q with
  | here => exact absurd (List.prefix_nil.mp hq) hne
  | @under n c old k i path above hc _ ih =>
    rw [close_cons]
    cases q with
    | nil =>
      refine ⟨n, _, rfl, rfl, rfl, rfl, ?_⟩
      rw [children_link, List.length_set]
    | cons j q =>
      obtain ⟨rfl, hbelow⟩ := List.cons_prefix_cons.mp hq
      obtain ⟨was, now, hwas, hnow, hid, hkind, hlen⟩ := ih hbelow fun e => hne (congrArg _ e)
      refine ⟨was, now, ?_, ?_, ?_, hkind, hlen⟩
      · rw [Node.descend_cons hc, hwas]
      · rw [Node.descend_cons (getElem?_link hc _ _), hnow]
      · rw [hid, List.length_cons, Nat.add_assoc k 1, Nat.add_comm 1]

/-- A node of the new version was there before, came with what was linked in, or is a copy. -/
theorem mem_preorder_close (h : Copies n k path above old) (x : Node) {m : Node}
    (hm : m ∈ (close ⟨above, x⟩).preorder) :
    m ∈ n.preorder ∨ m ∈ x.preorder ∨
      ∃ q was, q <+: path ∧ n.descend q = some was ∧ (close ⟨above, x⟩).descend q = some m ∧
        m.id = k + q.length ∧ m.kind = was.kind := by
  induction h with
  | here => exact Or.inr (Or.inl hm)
  | @under n c old k i path above hc _ ih =>
    rw [close_cons] at hm ⊢
    obtain rfl | ⟨d, hd, hm⟩ := Node.mem_preorder_iff.mp hm
    · exact Or.inr (Or.inr ⟨[], n, List.nil_prefix, rfl, rfl, rfl, rfl⟩)
    · rw [children_link] at hd
      obtain hd | rfl := List.mem_or_eq_of_mem_set hd
      · exact Or.inl (Node.mem_preorder_of_mem_child hd hm)
      · obtain hm | hm | ⟨q, was, hq, hwas, hnow, hid, hkind⟩ := ih hm
        · exact Or.inl (Node.mem_preorder_of_mem_child (List.mem_of_getElem? hc) hm)
        · exact Or.inr (Or.inl hm)
        · refine Or.inr (Or.inr ⟨i :: q, was, ?_, ?_, ?_, ?_, hkind⟩)
          · exact List.cons_prefix_cons.mpr ⟨rfl, hq⟩
          · rw [Node.descend_cons hc, hwas]
          · rw [Node.descend_cons (getElem?_link hc _ _), hnow]
          · rw [hid, List.length_cons, Nat.add_assoc k 1, Nat.add_comm 1]

end Copies

end Spine

namespace Node

variable {α : Type} [Scalar α]

theorem copySpine_nil (n : Node) (s : Store α) :
    n.copySpine [] s =
      (some ⟨[], n.withId s.next⟩, (s.allocate (s.mark n.id)).2) := rfl

theorem copySpine_cons_of_none {n : Node} {i : Nat} (hc : n.children[i]? = none)
    (path : ChildPath) (s : Store α) : n.copySpine (i :: path) s = (none, s) := by
  rw [copySpine, hc]
  rfl

theorem copySpine_cons_of_some {n c : Node} {i : Nat} (hc : n.children[i]? = some c)
    (path : ChildPath) (s : Store α) :
    n.copySpine (i :: path) s =
      ((c.copySpine path (s.allocate (s.mark n.id)).2).1.map fun spine =>
          ⟨⟨s.next, n.kind, n.children, i⟩ :: spine.ancestors, spine.target⟩,
        (c.copySpine path (s.allocate (s.mark n.id)).2).2) := by
  cases n with
  | leaf id text position => rw [copySpine, hc]; rfl
  | inner id kind span children => rw [copySpine, hc]; rfl

/-- Copying a spine only makes nodes, also when there is no such place. -/
theorem copySpine_extends (n : Node) (path : ChildPath) (s : Store α) :
    s.Extends (n.copySpine path s).2 := by
  induction path generalizing n s with
  | nil =>
    rw [copySpine_nil]
    exact Store.Extends.allocate s _
  | cons i path ih =>
    cases hc : n.children[i]? with
    | none =>
      rw [copySpine_cons_of_none hc]
      exact Store.Extends.refl s
    | some c =>
      rw [copySpine_cons_of_some hc]
      exact (Store.Extends.allocate s _).trans (ih c _)

/-- A spine can be copied exactly to the places that are there. -/
theorem isSome_copySpine (n : Node) (path : ChildPath) (s : Store α) :
    (n.copySpine path s).1.isSome = (n.descend path).isSome := by
  induction path generalizing n s with
  | nil => rfl
  | cons i path ih =>
    cases hc : n.children[i]? with
    | none =>
      rw [copySpine_cons_of_none hc, descend, hc]
      rfl
    | some c => rw [copySpine_cons_of_some hc, Option.isSome_map, descend_cons hc, ih]

/-- The spine to a place has been copied: the copies are new, from the root down, and have the marks
of what they were copied from. -/
structure Copied (s s' : Store α) (n : Node) (path : ChildPath) (spine : Spine) (old : Node) :
    Prop where
  copies : Spine.Copies n s.next path spine.ancestors old
  target_eq : spine.target = old.withId (s.next + path.length)
  next_eq : s'.next = s.next + path.length + 1
  mark_eq : ∀ q m, q <+: path → n.descend q = some m →
    s'.mark (s.next + q.length) = s.mark m.id

theorem copied_of_copySpine {n : Node} {path : ChildPath} {s s' : Store α} {spine : Spine}
    (hs : s.Holds n) (h : n.copySpine path s = (some spine, s')) :
    ∃ old, Copied s s' n path spine old := by
  induction path generalizing n s spine with
  | nil =>
    rw [copySpine_nil, Prod.mk.injEq, Option.some.injEq] at h
    obtain ⟨rfl, rfl⟩ := h
    refine ⟨n, .here n s.next, rfl, Store.next_allocate s _, fun q m hq hm => ?_⟩
    obtain rfl := List.prefix_nil.mp hq
    obtain rfl := Option.some.inj hm
    rw [List.length_nil, Nat.add_zero, Store.mark_allocate, if_pos rfl]
  | cons i path ih =>
    cases hc : n.children[i]? with
    | none =>
      rw [copySpine_cons_of_none hc, Prod.mk.injEq] at h
      exact absurd h.1 (by simp)
    | some c =>
      have hgrown := Store.Extends.allocate s (s.mark n.id)
      have hchild : s.Holds c := hs.of_mem
        (mem_preorder_of_mem_child (List.mem_of_getElem? hc) (self_mem_preorder c))
      have hafter := copySpine_extends c path (s.allocate (s.mark n.id)).2
      rw [copySpine_cons_of_some hc, Prod.mk.injEq, Option.map_eq_some_iff] at h
      obtain ⟨⟨below, hbelow, rfl⟩, rfl⟩ := h
      obtain ⟨old, hcopied⟩ := ih (hchild.mono hgrown.next_le) (Prod.ext hbelow rfl)
      have hnext : (s.allocate (s.mark n.id)).2.next = s.next + 1 := Store.next_allocate s _
      obtain ⟨hcopies, htarget, hsize, hmark⟩ := hcopied
      rw [hnext] at hcopies htarget hsize hmark
      refine ⟨old, .under hc hcopies, ?_, ?_, fun q m hq hm => ?_⟩
      · rw [htarget, List.length_cons, Nat.add_right_comm, Nat.add_assoc]
      · rw [hsize, List.length_cons, Nat.add_assoc s.next 1, Nat.add_comm 1]
      · cases q with
        | nil =>
          obtain rfl := Option.some.inj hm
          rw [List.length_nil, Nat.add_zero, hafter.mark_eq s.next (hnext ▸ Nat.lt_succ_self _),
            Store.mark_allocate, if_pos rfl]
        | cons j q =>
          obtain ⟨rfl, hq'⟩ := List.cons_prefix_cons.mp hq
          rw [descend_cons hc] at hm
          have hlt : m.id < s.next := hchild m (mem_preorder_of_descend hm)
          rw [List.length_cons, ← Nat.add_assoc, Nat.add_right_comm, hmark q m hq' hm,
            hgrown.mark_eq m.id hlt]

end Node

end GeneticRepair
