import GeneticRepair.Syntax.Path
import GeneticRepair.Syntax.Store

/-!
# `Proofs/Syntax/Growth.lean` — stores that only grow

Editing makes nodes and never touches one that was there. `Store.Extends` is that as a preorder on
stores, and `Store.Holds` says that a program is made of nodes that the store knows, which is what
keeps a new node from being mistaken for one of them.
-/

set_option autoImplicit false

namespace GeneticRepair

theorem bind_apply {σ β γ : Type} (x : StateM σ β) (f : β → StateM σ γ) (s : σ) :
    (x >>= f) s = f (x s).1 (x s).2 := rfl

/-! ## Nodes of a program -/

namespace Node

theorem self_mem_preorder (n : Node) : n ∈ n.preorder := by
  rw [preorder_eq]
  exact List.mem_cons_self

theorem mem_preorder_of_mem_child {n c m : Node} (hc : c ∈ n.children) (hm : m ∈ c.preorder) :
    m ∈ n.preorder := by
  rw [preorder_eq]
  exact List.mem_cons_of_mem _ (List.mem_flatMap.mpr ⟨c, hc, hm⟩)

/-- A node below another one is that node itself or below one of its children. -/
theorem mem_preorder_iff {n m : Node} :
    m ∈ n.preorder ↔ m = n ∨ ∃ c ∈ n.children, m ∈ c.preorder := by
  rw [preorder_eq, List.mem_cons, List.mem_flatMap]

theorem mem_preorder_trans {n m k : Node} (hk : k ∈ m.preorder) (hm : m ∈ n.preorder) :
    k ∈ n.preorder := by
  induction n with
  | leaf id text position =>
    rw [preorder_leaf, List.mem_singleton] at hm
    exact hm ▸ hk
  | inner id kind span children ih =>
    obtain rfl | ⟨c, hc, hm⟩ := mem_preorder_iff.mp hm
    · exact hk
    · exact mem_preorder_of_mem_child hc (ih c hc hm)

theorem descend_cons {n c : Node} {i : Nat} (hc : n.children[i]? = some c) (path : ChildPath) :
    n.descend (i :: path) = c.descend path := by
  rw [descend, hc, Option.bind_some]

theorem mem_preorder_of_descend {n m : Node} {path : ChildPath} (h : n.descend path = some m) :
    m ∈ n.preorder := by
  induction path generalizing n with
  | nil =>
    obtain rfl := Option.some.inj h
    exact self_mem_preorder n
  | cons i path ih =>
    obtain ⟨c, hc, hm⟩ := Option.bind_eq_some_iff.mp h
    exact mem_preorder_of_mem_child (List.mem_of_getElem? hc) (ih hm)

theorem descend_append (n : Node) (path more : ChildPath) :
    n.descend (path ++ more) = (n.descend path).bind (descend · more) := by
  induction path generalizing n with
  | nil => rfl
  | cons i path ih =>
    cases hc : n.children[i]? with
    | none => rw [List.cons_append, descend, descend, hc, Option.bind_none, Option.bind_none]; rfl
    | some c => rw [List.cons_append, descend_cons hc, descend_cons hc, ih]

/-- Every node stands at some place. -/
theorem exists_descend_of_mem_preorder {n m : Node} (h : m ∈ n.preorder) :
    ∃ path, n.descend path = some m := by
  induction n with
  | leaf id text position =>
    rw [preorder_leaf, List.mem_singleton] at h
    exact ⟨[], congrArg some h.symm⟩
  | inner id kind span children ih =>
    obtain rfl | ⟨c, hc, hm⟩ := mem_preorder_iff.mp h
    · exact ⟨[], rfl⟩
    · obtain ⟨path, hpath⟩ := ih c hc hm
      obtain ⟨i, hi⟩ := List.getElem?_of_mem hc
      exact ⟨i :: path, by rw [descend_cons hi, hpath]⟩

/-- The nodes on the way to a place are those that stand at its beginnings. -/
theorem mem_along_iff {n m : Node} {path : ChildPath} :
    m ∈ n.along path ↔ ∃ q, q <+: path ∧ n.descend q = some m := by
  induction path generalizing n with
  | nil =>
    simp only [along, List.mem_singleton, List.prefix_nil, exists_eq_left, descend,
      Option.some.injEq, eq_comm]
  | cons i path ih =>
    unfold along
    rw [List.mem_cons]
    constructor
    · rintro (rfl | hm)
      · exact ⟨[], List.nil_prefix, rfl⟩
      · cases hc : n.children[i]? with
        | none =>
          rw [hc] at hm
          cases hm
        | some c =>
          rw [hc] at hm
          obtain ⟨q, hq, hm⟩ := ih.mp hm
          exact ⟨i :: q, List.cons_prefix_cons.mpr ⟨rfl, hq⟩, by rw [descend_cons hc, hm]⟩
    · rintro ⟨q, hq, hm⟩
      cases q with
      | nil => exact .inl (Option.some.inj hm).symm
      | cons j q =>
        obtain ⟨rfl, hbelow⟩ := List.cons_prefix_cons.mp hq
        obtain ⟨c, hc, hm⟩ := Option.bind_eq_some_iff.mp hm
        rw [hc]
        exact .inr (ih.mpr ⟨q, hbelow, hm⟩)

theorem size_le_sizeAll {c : Node} {l : List Node} (h : c ∈ l) : c.size ≤ sizeAll l := by
  induction l with
  | nil => cases h
  | cons d l ih =>
    rw [sizeAll]
    obtain rfl | h := List.mem_cons.mp h
    · omega
    · have hle := ih h
      omega

/-- A node below another one is smaller. -/
theorem eq_or_size_lt {n m : Node} (h : m ∈ n.preorder) : m = n ∨ m.size < n.size := by
  induction n with
  | leaf id text position =>
    rw [preorder_leaf, List.mem_singleton] at h
    exact .inl h
  | inner id kind span children ih =>
    obtain rfl | ⟨c, hc, hm⟩ := mem_preorder_iff.mp h
    · exact .inl rfl
    · have hle : m.size ≤ c.size := by
        obtain rfl | hlt := ih c hc hm
        · exact Nat.le_refl _
        · exact Nat.le_of_lt hlt
      have hchild : c.size ≤ sizeAll children := size_le_sizeAll hc
      rw [size]
      omega

/-- A node does not stand below itself. -/
theorem descend_cons_ne_self (n : Node) (i : Nat) (path : ChildPath) :
    n.descend (i :: path) ≠ some n := by
  intro h
  obtain ⟨c, hc, h⟩ := Option.bind_eq_some_iff.mp h
  have hchild : c.size ≤ sizeAll n.children := size_le_sizeAll (List.mem_of_getElem? hc)
  have hsize := size_eq n
  obtain rfl | hlt := eq_or_size_lt (mem_preorder_of_descend h)
  · omega
  · omega

theorem pathIn_eq_some {target : NodeId} {children : List Node} {index : Nat} {path : ChildPath}
    (h : pathIn target index children = some path) :
    ∃ j c below, children[j]? = some c ∧ path = (index + j) :: below ∧
      c.pathTo target = some below := by
  induction children generalizing index with
  | nil =>
    unfold pathIn at h
    cases h
  | cons c children ih =>
    unfold pathIn at h
    split at h
    · next below hbelow =>
      obtain rfl := Option.some.inj h
      exact ⟨0, c, below, rfl, rfl, hbelow⟩
    · obtain ⟨j, d, below, hd, rfl, hbelow⟩ := ih h
      refine ⟨j + 1, d, below, hd, ?_, hbelow⟩
      rw [Nat.add_assoc, Nat.add_comm 1]

/-- At the place of an identity stands a node that has it. -/
theorem descend_of_pathTo {n : Node} {target : NodeId} {path : ChildPath}
    (h : n.pathTo target = some path) : ∃ m, n.descend path = some m ∧ m.id = target := by
  induction n generalizing path with
  | leaf id text position =>
    unfold pathTo at h
    split at h
    · next hid =>
      obtain rfl := Option.some.inj h
      exact ⟨_, rfl, hid⟩
    · cases h
  | inner id kind span children ih =>
    unfold pathTo at h
    split at h
    · next hid =>
      obtain rfl := Option.some.inj h
      exact ⟨_, rfl, hid⟩
    · obtain ⟨j, c, below, hc, rfl, hbelow⟩ := pathIn_eq_some h
      obtain ⟨m, hm, hid⟩ := ih c (List.mem_of_getElem? hc) hbelow
      refine ⟨m, ?_, hid⟩
      rw [Nat.zero_add, descend_cons hc, hm]

end Node

/-! ## Stores -/

namespace Store

variable {α : Type}

/-- Every node of the program has been made. -/
def Holds (s : Store α) (n : Node) : Prop := ∀ m ∈ n.preorder, m.id < s.next

theorem Holds.mono {s s' : Store α} {n : Node} (h : s.Holds n) (hs : s.next ≤ s'.next) :
    s'.Holds n := fun m hm => Nat.lt_of_lt_of_le (h m hm) hs

theorem Holds.of_mem {s : Store α} {n m : Node} (h : s.Holds n) (hm : m ∈ n.preorder) :
    s.Holds m := fun k hk => h k (Node.mem_preorder_trans hk hm)

variable [Scalar α]

/-- Nodes may have been made since, and the marks of the earlier ones are as they were. -/
structure Extends (s s' : Store α) : Prop where
  next_le : s.next ≤ s'.next
  mark_eq : ∀ id < s.next, s'.mark id = s.mark id

theorem Extends.refl (s : Store α) : s.Extends s := ⟨Nat.le_refl _, fun _ _ => rfl⟩

theorem Extends.trans {s s' s'' : Store α} (h : s.Extends s') (h' : s'.Extends s'') :
    s.Extends s'' :=
  ⟨Nat.le_trans h.next_le h'.next_le, fun id hid =>
    (h'.mark_eq id (Nat.lt_of_lt_of_le hid h.next_le)).trans (h.mark_eq id hid)⟩

theorem Extends.allocate (s : Store α) (m : Mark α) : s.Extends (s.allocate m).2 := by
  refine ⟨?_, fun id hid => ?_⟩
  · rw [next_allocate]
    exact Nat.le_succ _
  · rw [mark_allocate, if_neg (Nat.ne_of_lt hid)]

/-- Writing to a node that was made since changes no earlier one. -/
theorem Extends.update {s s' : Store α} (h : s.Extends s') {id : NodeId} (hid : s.next ≤ id)
    (f : Mark α → Mark α) : s.Extends (s'.update id f) := by
  refine ⟨?_, fun x hx => ?_⟩
  · rw [next_update]
    exact h.next_le
  · have hne : ¬ (x = id ∧ id < s'.next) := fun e => Nat.not_lt_of_le hid (e.1 ▸ hx)
    rw [mark_update, if_neg hne]
    exact h.mark_eq x hx

end Store

end GeneticRepair
