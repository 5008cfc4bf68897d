import GeneticRepair.Proofs.Evolution.Undisturbed

/-!
# `Proofs/Evolution/Confined.lean` — what a run does not write to

A search is used for one program after the other, and the marks of all of them are in one store.
Without an oracle a run writes to marks that were there only when it localizes the faults of its
program, and then only to nodes of that program; everything else stays (`Store.Confined`). So a
program that shares no node with the programs of some runs is after them what it was before
(`Confined.agreeOn`).
-/

set_option autoImplicit false

namespace GeneticRepair

variable {α ω : Type} [Scalar α] {programs : List Node}

namespace Store

variable {s s' s'' : Store α}

/-- Of the marks that were there, only those on nodes of the programs may have changed. -/
structure Confined (programs : List Node) (s s' : Store α) : Prop where
  next_le : s.next ≤ s'.next
  mark_eq : ∀ id < s.next, (∀ t ∈ programs, ∀ n ∈ t.preorder, n.id ≠ id) →
    s'.mark id = s.mark id

theorem Extends.confined (h : s.Extends s') : s.Confined programs s' :=
  ⟨h.next_le, fun id hid _ => h.mark_eq id hid⟩

namespace Confined

theorem refl (s : Store α) : s.Confined programs s := (Extends.refl s).confined

theorem trans (h : s.Confined programs s') (h' : s'.Confined programs s'') :
    s.Confined programs s'' :=
  ⟨Nat.le_trans h.next_le h'.next_le, fun id hid hout =>
    (h'.mark_eq id (Nat.lt_of_lt_of_le hid h.next_le) hout).trans (h.mark_eq id hid hout)⟩

theorem update {root n : Node} (hroot : root ∈ programs) (hn : n ∈ root.preorder) (s : Store α)
    (f : Mark α → Mark α) : s.Confined programs (s.update n.id f) := by
  refine ⟨Nat.le_of_eq (next_update s n.id f).symm, fun id _ hout => ?_⟩
  rw [mark_update, if_neg fun h => hout root hroot n hn h.1.symm]

/-- A program that shares no node with the others is what it was. -/
theorem agreeOn (h : s.Confined programs s') {root : Node} (hs : s.Holds root)
    (hapart : ∀ t ∈ programs, ∀ n ∈ t.preorder, ∀ m ∈ root.preorder, n.id ≠ m.id) :
    AgreeOn root s s' :=
  .of_mark_eq fun m hm => h.mark_eq m.id (hs m hm) fun t ht n hn => hapart t ht n hn m hm

end Confined

theorem writes_confined {root : Node} (hroot : root ∈ programs) :
    Localization.Writes root (Confined programs : Store α → Store α → Prop) where
  refl := .refl
  trans := .trans
  raise s _ score hn := .update hroot hn s (·.raise score)
  clear s _ hn := .update hroot hn s .clear
  cover s _ classes hn := .update hroot hn s (·.cover classes)

end Store

namespace Search

variable [Root α] {c : Collaborators α ω}

theorem confined_run (hc : c.oracle = none) (settings : Settings α) {root : Node}
    (hroot : root ∈ programs) (s : Search α ω) :
    s.bench.store.Confined programs (run settings c root s).2.bench.store := by
  cases hvalid : settings.validate with
  | error fault =>
    rw [run, hvalid]
    exact .refl _
  | ok _ =>
    have hfirst := Bench.writes_establish (Store.writes_confined hroot) c.executor s.bench
    exact hfirst.trans (extends_run hc hvalid root s).confined

/-- The search after runs on some programs, whatever came of them. -/
def after (settings : Settings α) (c : Collaborators α ω) (earlier : List Node)
    (s : Search α ω) : Search α ω :=
  earlier.foldl (fun s root => (run settings c root s).2) s

theorem confined_after (hc : c.oracle = none) (settings : Settings α) (earlier : List Node)
    (s : Search α ω) :
    s.bench.store.Confined earlier (after settings c earlier s).bench.store :=
  List.foldlRecOn (motive := fun s' => s.bench.store.Confined earlier s'.bench.store) earlier _
    (.refl _) fun s' hs' _ hroot => hs'.trans (confined_run hc settings hroot s')

end Search

end GeneticRepair
