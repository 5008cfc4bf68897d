import GeneticRepair.Proofs.Syntax.Editing
import Mathlib.Data.List.Nodup

/-!
# `Proofs/Syntax/Forest.lean` — programs that share nodes

Versions of a program live side by side and share nodes, so what keeps one of them intact has to be
said of all of them together. `Store.Forest` says that every identity in a list of programs has been
given out and is that of one node. `Store.Spares` says that an operation keeps that up with the
programs it makes, and writes no mark that was there: whoever holds a node finds the same kind,
children, token, position and mark in it as before.

* `Forest.extend`: new nodes with new identities, one each, are no danger to a forest.
* `Forest.edited`: a script of edits on a copied spine makes only such nodes.
-/

set_option autoImplicit false

namespace GeneticRepair

namespace Store

variable {α : Type} {s s' s'' : Store α} {programs more made : List Node} {t m : Node}

/-- The programs are made of nodes that have been given out, and an identity is that of one node. -/
structure Forest (s : Store α) (programs : List Node) : Prop where
  holds : ∀ t ∈ programs, s.Holds t
  eq_of_id_eq : ∀ t ∈ programs, ∀ t' ∈ programs, ∀ m ∈ t.preorder, ∀ m' ∈ t'.preorder,
    m.id = m'.id → m = m'

/-- A node of one of the programs. -/
def HasNode (programs : List Node) (m : Node) : Prop := ∃ t ∈ programs, m ∈ t.preorder

theorem HasNode.of_mem (h : t ∈ programs) : HasNode programs t := ⟨t, h, Node.self_mem_preorder t⟩

theorem HasNode.below (h : HasNode programs t) (hm : m ∈ t.preorder) : HasNode programs m := by
  obtain ⟨p, hp, ht⟩ := h
  exact ⟨p, hp, Node.mem_preorder_trans hm ht⟩

theorem hasNode_append :
    HasNode (made ++ programs) m ↔ HasNode made m ∨ HasNode programs m := by
  constructor
  · rintro ⟨t, ht, hm⟩
    exact (List.mem_append.mp ht).imp (⟨t, ·, hm⟩) (⟨t, ·, hm⟩)
  · rintro (⟨t, ht, hm⟩ | ⟨t, ht, hm⟩)
    · exact ⟨t, List.mem_append_left _ ht, hm⟩
    · exact ⟨t, List.mem_append_right _ ht, hm⟩

namespace Forest

theorem lt_next (h : s.Forest programs) (hm : HasNode programs m) : m.id < s.next := by
  obtain ⟨t, ht, hm⟩ := hm
  exact h.holds t ht m hm

/-- A node is known by its identity. -/
theorem eq (h : s.Forest programs) {m' : Node} (hm : HasNode programs m)
    (hm' : HasNode programs m') (hid : m.id = m'.id) : m = m' := by
  obtain ⟨t, ht, hm⟩ := hm
  obtain ⟨t', ht', hm'⟩ := hm'
  exact h.eq_of_id_eq t ht t' ht' m hm m' hm' hid

/-- What has the identity of one of the programs is that program. -/
theorem eq_program (h : s.Forest programs) {n : Node} (hm : HasNode programs m)
    (hn : n ∈ programs) (hid : m.id = n.id) : m = n := h.eq hm (.of_mem hn) hid

/-- Programs whose nodes are all among those of a forest are one themselves. -/
theorem of_hasNode (h : s.Forest programs)
    (hsub : ∀ t ∈ more, ∀ m ∈ t.preorder, HasNode programs m) : s.Forest more :=
  ⟨fun t ht m hm => h.lt_next (hsub t ht m hm),
    fun t ht t' ht' m hm m' hm' => h.eq (hsub t ht m hm) (hsub t' ht' m' hm')⟩

theorem subset (h : s.Forest programs) (hsub : ∀ t ∈ more, t ∈ programs) : s.Forest more :=
  h.of_hasNode fun t ht _ hm => ⟨t, hsub t ht, hm⟩

theorem mono (h : s.Forest programs) (hs : s.next ≤ s'.next) : s'.Forest programs :=
  ⟨fun t ht => (h.holds t ht).mono hs, h.eq_of_id_eq⟩

/-- Programs made of some nodes with different identities are one. -/
theorem of_nodes (nodes : List Node) (hn : (nodes.map Node.id).Nodup)
    (hlt : ∀ m ∈ nodes, m.id < s.next) (hsub : ∀ t ∈ programs, t.preorder ⊆ nodes) :
    s.Forest programs :=
  ⟨fun t ht m hm => hlt m (hsub t ht hm), fun t ht t' ht' _ hm _ hm' hid =>
    List.inj_on_of_nodup_map hn (hsub t ht hm) (hsub t' ht' hm') hid⟩

/-- A program whose places have different identities is one. -/
theorem of_nodup (hs : s.Holds t) (hn : (t.preorder.map Node.id).Nodup) : s.Forest [t] :=
  .of_nodes t.preorder hn hs fun _ ht => List.mem_singleton.mp ht ▸ List.Subset.refl _

/-- Nodes that are new under identities of their own can be added. -/
theorem extend (h : s.Forest programs) (hs : s.next ≤ s'.next)
    (hold : ∀ m, HasNode made m → HasNode programs m ∨ s.next ≤ m.id ∧ m.id < s'.next)
    (hnew : ∀ m m', HasNode made m → HasNode made m' → s.next ≤ m.id → m.id = m'.id → m = m') :
    s'.Forest (made ++ programs) := by
  have hcases : ∀ m, HasNode (made ++ programs) m →
      HasNode programs m ∨ HasNode made m ∧ s.next ≤ m.id ∧ m.id < s'.next := by
    intro m hm
    obtain hm | hm := hasNode_append.mp hm
    · exact (hold m hm).imp_right fun hid => ⟨hm, hid⟩
    · exact Or.inl hm
  constructor
  · intro t ht m hm
    obtain hm | ⟨-, -, hlt⟩ := hcases m ⟨t, ht, hm⟩
    · exact Nat.lt_of_lt_of_le (h.lt_next hm) hs
    · exact hlt
  · intro t ht t' ht' m hm m' hm' hid
    -- an identity below `s.next` is that of an old node, any other that of a new one
    obtain hm | ⟨hm, hle, -⟩ := hcases m ⟨t, ht, hm⟩
    · obtain hm' | ⟨-, hle', -⟩ := hcases m' ⟨t', ht', hm'⟩
      · exact h.eq hm hm' hid
      · exact absurd (hid ▸ h.lt_next hm) (Nat.not_lt_of_le hle')
    · obtain hm' | ⟨hm', -⟩ := hcases m' ⟨t', ht', hm'⟩
      · exact absurd (hid ▸ h.lt_next hm') (Nat.not_lt_of_le (hid ▸ hle))
      · exact hnew m m' hm hm' hle hid

end Forest

variable [Scalar α]

/-- From programs to the ones that an operation makes: no mark that was there has been written, and
old and new programs are a forest together. -/
structure Spares (s s' : Store α) (programs made : List Node) : Prop where
  grown : s.Extends s'
  forest : s'.Forest (made ++ programs)

namespace Spares

/-- An operation that makes no program. -/
theorem none (h : s.Forest programs) (hgrown : s.Extends s') : s.Spares s' programs [] :=
  ⟨hgrown, h.mono hgrown.next_le⟩

/-- An operation that hands out programs that are there. -/
theorem same (h : s.Forest programs) (hsub : ∀ t ∈ made, t ∈ programs) :
    s.Spares s programs made :=
  ⟨Extends.refl s, h.subset fun t ht => (List.mem_append.mp ht).elim (hsub t) id⟩

/-- One operation after the other; of the programs that they make, some are kept. -/
theorem trans {all : List Node} (h : s.Spares s' programs made)
    (h' : s'.Spares s'' (made ++ programs) more) (hsub : ∀ t ∈ all, t ∈ more ∨ t ∈ made) :
    s.Spares s'' programs all := by
  refine ⟨h.grown.trans h'.grown, h'.forest.subset fun t ht => ?_⟩
  obtain ht | ht := List.mem_append.mp ht
  · exact (hsub t ht).elim (List.mem_append_left _)
      fun ht => List.mem_append_right _ (List.mem_append_left _ ht)
  · exact List.mem_append_right _ (List.mem_append_right _ ht)

end Spares

/-! ## Editing -/

section Editing

variable {path : ChildPath} {script : List Edit} {t' : Node}
  {answers : List (Except EditError (Option Node))}

/-- A node of the edited version was there, or is the copy at one place on the spine. -/
theorem hasNode_of_edited (ht : t ∈ programs)
    (hb : ∀ e ∈ script, ∀ c ∈ e.brought, HasNode programs c)
    (he : EditedAt path script s s' t t' answers) (hm : m ∈ t'.preorder) :
    HasNode programs m ∨
      ∃ q, q <+: path ∧ t'.descend q = some m ∧ m.id = s.next + q.length := by
  obtain hold | ⟨e, hes, c, hc, hm⟩ | ⟨q, hq, hnow⟩ := he.only m hm
  · exact Or.inl ⟨t, ht, hold⟩
  · exact Or.inl ((hb e hes c hc).below hm)
  · obtain ⟨was, now, -, hnow', hid, -⟩ := he.along q hq
    obtain rfl : m = now := Option.some.inj (hnow.symm.trans hnow')
    exact Or.inr ⟨q, hq, hnow, hid⟩

/-- Editing a copied spine of a program, with nothing brought in but nodes that are there, spares
all programs. -/
theorem Forest.edited (h : s.Forest programs) (ht : t ∈ programs)
    (hb : ∀ e ∈ script, ∀ c ∈ e.brought, HasNode programs c)
    (he : EditedAt path script s s' t t' answers) : s.Spares s' programs [t'] := by
  have horigin : ∀ m, HasNode [t'] m → HasNode programs m ∨
      ∃ q, q <+: path ∧ t'.descend q = some m ∧ m.id = s.next + q.length := by
    rintro m ⟨_, hmem, hm⟩
    obtain rfl := List.mem_singleton.mp hmem
    exact hasNode_of_edited ht hb he hm
  refine ⟨he.grown, h.extend he.grown.next_le (fun m hm => ?_) fun m m' hm hm' hle hid => ?_⟩
  · refine (horigin m hm).imp_right ?_
    rintro ⟨q, hq, -, hid⟩
    refine ⟨hid ▸ Nat.le_add_right _ _, ?_⟩
    rw [hid, he.next_eq, Nat.lt_succ_iff]
    exact Nat.add_le_add_left hq.length_le _
  · have hcopy : ∀ m, HasNode [t'] m → s.next ≤ m.id →
        ∃ q, q <+: path ∧ t'.descend q = some m ∧ m.id = s.next + q.length := fun m hm hle =>
      (horigin m hm).resolve_left fun hold => Nat.not_lt_of_le hle (h.lt_next hold)
    obtain ⟨q, hq, hnow, hlength⟩ := hcopy m hm hle
    obtain ⟨q', hq', hnow', hlength'⟩ := hcopy m' hm' (hid ▸ hle)
    -- copies with one number are at one place of the spine
    have hlengths : q.length = q'.length := by
      rw [hlength, hlength'] at hid
      exact Nat.add_left_cancel hid
    obtain rfl : q = q' :=
      (List.prefix_of_prefix_length_le hq hq' (Nat.le_of_eq hlengths)).eq_of_length hlengths
    exact Option.some.inj (hnow.symm.trans hnow')

end Editing

end Store

end GeneticRepair
