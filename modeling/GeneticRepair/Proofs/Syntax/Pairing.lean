import Mathlib.Order.Basic
import GeneticRepair.Proofs.Collection.Related
import GeneticRepair.Proofs.Syntax.Growth
import GeneticRepair.Syntax.Content

/-!
# `Proofs/Syntax/Pairing.lean` — programs that are alike

Identities are handed out by a store and mean nothing beyond being equal or not. Two programs that
were read from the same sources, each into a store of its own, differ in them and in nothing else. A
`Pairing` says which identities stand for each other, one for one; two nodes are `Alike` if they are
built alike of paired nodes, and a pairing `Aligns` two stores if paired nodes carry the same mark.
Nodes that are made side by side are paired, too, so a pairing grows along an edit, and what is
alike stays alike (`Node.Alike.mono`).

Whatever only reads programs that are alike sees no difference; the lemmas here say so for one
reading after the other.
-/

set_option autoImplicit false

namespace GeneticRepair

open List (Forall₂)

/-- Which nodes of two stores stand for each other. -/
structure Pairing where
  pairs : NodeId → NodeId → Prop
  right_unique : ∀ {a b c}, pairs a b → pairs a c → b = c
  left_unique : ∀ {a b c}, pairs a c → pairs b c → a = b

namespace Pairing

/-- A pairing is below another one if that has all its pairs. -/
instance : Preorder Pairing where
  le p q := ∀ a b, p.pairs a b → q.pairs a b
  le_refl _ _ _ h := h
  le_trans _ _ _ hpq hqr a b h := hqr a b (hpq a b h)

variable {p q : Pairing} {a b c d : NodeId}

theorem mono (hpq : p ≤ q) (h : p.pairs a b) : q.pairs a b := hpq a b h

/-- Paired identities are compared with the same result. -/
theorem eq_iff_eq (h : p.pairs a b) (h' : p.pairs c d) : b = d ↔ a = c := by
  constructor
  · rintro rfl
    exact p.left_unique h h'
  · rintro rfl
    exact p.right_unique h h'

/-- The pairing with one more pair, of two identities that are not paired yet. -/
def insert (p : Pairing) (a b : NodeId) (ha : ∀ y, ¬ p.pairs a y) (hb : ∀ x, ¬ p.pairs x b) :
    Pairing where
  pairs x y := p.pairs x y ∨ x = a ∧ y = b
  right_unique := by
    rintro x y z (h | ⟨hx, hy⟩) (h' | ⟨hx', hz⟩)
    · exact p.right_unique h h'
    · exact absurd (hx' ▸ h) (ha y)
    · exact absurd (hx ▸ h') (ha z)
    · exact hy.trans hz.symm
  left_unique := by
    rintro x y z (h | ⟨hx, hz⟩) (h' | ⟨hy, hz'⟩)
    · exact p.left_unique h h'
    · exact absurd (hz' ▸ h) (hb x)
    · exact absurd (hz ▸ h') (hb y)
    · exact hx.trans hy.symm

/-- Every identity below a bound stands for itself. -/
def upTo (bound : NodeId) : Pairing where
  pairs a b := a = b ∧ a < bound
  right_unique := by
    rintro a b c ⟨rfl, -⟩ ⟨rfl, -⟩
    rfl
  left_unique := by
    rintro a b c ⟨rfl, -⟩ ⟨rfl, -⟩
    rfl

end Pairing

namespace Node

/-- Two nodes are built alike of paired nodes. -/
inductive Alike (p : Pairing) : Node → Node → Prop where
  | leaf {a b : NodeId} (paired : p.pairs a b) (text : String) (position : Position) :
    Alike p (.leaf a text position) (.leaf b text position)
  | inner {a b : NodeId} (paired : p.pairs a b) (kind : NodeKind) (span : Option LineSpan)
    {cs ds : List Node} (below : Forall₂ (Alike p) cs ds) :
    Alike p (.inner a kind span cs) (.inner b kind span ds)

namespace Alike

variable {p q : Pairing} {n n' m m' : Node}

/-- What holds of paired leaves, and of paired nodes if it holds of their children, holds of any two
nodes that are alike. -/
@[elab_as_elim]
theorem induction {motive : Node → Node → Prop}
    (leaf : ∀ {a b : NodeId}, p.pairs a b → ∀ text position,
      motive (.leaf a text position) (.leaf b text position))
    (inner : ∀ {a b : NodeId}, p.pairs a b → ∀ kind span {cs ds : List Node},
      Forall₂ (Alike p) cs ds → Forall₂ motive cs ds →
      motive (.inner a kind span cs) (.inner b kind span ds))
    (h : Alike p n n') : motive n n' := by
  induction n generalizing n' with
  | leaf id text position =>
    cases h with
    | leaf paired => exact leaf paired text position
  | inner id kind span children ih =>
    cases h with
    | @inner _ _ paired _ _ _ ds below =>
      have hboth : Forall₂ (fun c d => (∀ d, Alike p c d → motive c d) ∧ Alike p c d) children ds :=
        (List.forall₂_and_left children ds).mpr ⟨fun c hc d hd => ih c hc hd, below⟩
      exact inner paired kind span below (hboth.imp fun c d hcd => hcd.1 d hcd.2)

theorem mono (hpq : p ≤ q) (h : Alike p n n') : Alike q n n' := by
  refine h.induction (fun paired text position => ?_) fun paired kind span _ _ _ ih => ?_
  · exact .leaf (Pairing.mono hpq paired) text position
  · exact .inner (Pairing.mono hpq paired) kind span ih

theorem mono_all {ns ns' : List Node} (hpq : p ≤ q) (h : Forall₂ (Alike p) ns ns') :
    Forall₂ (Alike q) ns ns' := h.imp fun _ _ => mono hpq

/-- A node of nodes that stand for themselves is alike itself. -/
theorem self (h : ∀ m ∈ n.preorder, p.pairs m.id m.id) : Alike p n n := by
  induction n with
  | leaf id text position => exact .leaf (h _ (self_mem_preorder _)) text position
  | inner id kind span children ih =>
    refine .inner (h _ (self_mem_preorder _)) kind span (List.forall₂_same.mpr fun c hc => ?_)
    exact ih c hc fun m hm => h m (mem_preorder_of_mem_child hc hm)

/-! ### What can be read off a node -/

theorem id (h : Alike p n n') : p.pairs n.id n'.id := by
  cases h with
  | leaf paired => exact paired
  | inner paired => exact paired

theorem kind_eq (h : Alike p n n') : n'.kind = n.kind := by
  cases h with
  | _ => rfl

theorem children (h : Alike p n n') : Forall₂ (Alike p) n.children n'.children := by
  cases h with
  | leaf => exact .nil
  | inner _ _ _ below => exact below

theorem isLeaf_eq (h : Alike p n n') : n'.isLeaf = n.isLeaf := by
  cases h with
  | _ => rfl

theorem text_eq (h : Alike p n n') : n'.text? = n.text? := by
  cases h with
  | _ => rfl

theorem lineSpan_eq (h : Alike p n n') : n'.lineSpan = n.lineSpan := by
  cases h with
  | _ => rfl

theorem coversLine_eq (h : Alike p n n') (line : Nat) : n'.coversLine line = n.coversLine line := by
  rw [coversLine, coversLine, h.lineSpan_eq]

theorem withId (h : Alike p n n') (hpq : p ≤ q) {a b : NodeId} (hab : q.pairs a b) :
    Alike q (n.withId a) (n'.withId b) := by
  cases h with
  | leaf _ text position => exact .leaf hab text position
  | inner _ kind span below => exact .inner hab kind span (mono_all hpq below)

theorem make {a b : NodeId} (hab : p.pairs a b) (kind : NodeKind) {cs ds : List Node}
    (h : Forall₂ (Alike p) cs ds) : Alike p (.make a kind cs) (.make b kind ds) := by
  have hspans : ds.map lineSpan = cs.map lineSpan :=
    forall₂_map_eq h fun _ _ hcd => hcd.lineSpan_eq
  rw [Node.make, Node.make, hspans]
  exact .inner hab kind _ h

/-! ### Lists of places -/

theorem preorder (h : Alike p n n') : Forall₂ (Alike p) n.preorder n'.preorder := by
  refine h.induction ?_ ?_
  · intro a b paired text position
    exact .cons (.leaf paired text position) .nil
  · intro a b paired kind span cs ds below ih
    rw [preorder_inner, preorder_inner]
    exact .cons (.inner paired kind span below) (forall₂_flatMap ih fun _ _ h => h)

theorem ofKind (h : Alike p n n') (kind : NodeKind) :
    Forall₂ (Alike p) (n.ofKind kind) (n'.ofKind kind) :=
  forall₂_filter h.preorder fun m m' hm => by rw [hm.kind_eq]

theorem statements (h : Alike p n n') : Forall₂ (Alike p) n.statements n'.statements :=
  h.ofKind .atomicStatement

theorem units (h : Alike p n n') : Forall₂ (Alike p) n.units n'.units := h.ofKind .file

theorem tokens_eq (h : Alike p n n') : n'.tokens = n.tokens := by
  rw [← List.forall₂_eq_eq_eq]
  refine List.rel_filterMap (fun m' m hm => ?_) h.preorder.flip
  rw [hm.text_eq]
  cases m.text? with
  | none => exact .none
  | some text => exact .some rfl

theorem source_eq (h : Alike p n n') : n'.source = n.source := by
  rw [Node.source_eq, Node.source_eq, h.tokens_eq]

/-! ### Places -/

theorem descend (h : Alike p n n') (path : ChildPath) :
    Option.Rel (Alike p) (n.descend path) (n'.descend path) := by
  induction path generalizing n n' with
  | nil => exact .some h
  | cons i path ih => exact rel_bind (getElem?_rel h.children i) fun c d hcd => ih hcd

theorem along (h : Alike p n n') (path : ChildPath) :
    Forall₂ (Alike p) (n.along path) (n'.along path) := by
  induction path generalizing n n' with
  | nil => exact .cons h .nil
  | cons i path ih =>
    rw [Node.along, Node.along]
    refine .cons h ?_
    have hchild := getElem?_rel h.children i
    generalize n.children[i]? = c at hchild
    generalize n'.children[i]? = d at hchild
    cases hchild with
    | none => exact .nil
    | some hcd => exact ih hcd

/-- Paired nodes stand at the same first place. -/
theorem pathTo_eq (h : Alike p n n') {i j : NodeId} (hij : p.pairs i j) :
    n'.pathTo j = n.pathTo i := by
  refine h.induction ?_ ?_
  · intro a b paired text position
    unfold pathTo
    simp only [Pairing.eq_iff_eq paired hij]
  · intro a b paired kind span cs ds below ih
    have hin (index : Nat) : pathIn j index ds = pathIn i index cs := by
      clear below
      induction ih generalizing index with
      | nil => rfl
      | cons hc _ ihcs =>
        unfold pathIn
        rw [hc, ihcs]
    unfold pathTo
    simp only [Pairing.eq_iff_eq paired hij, hin]

theorem unitAround (h : Alike p n n') (hm : Alike p m m') :
    Option.Rel (Alike p) (n.unitAround m) (n'.unitAround m') := by
  unfold Node.unitAround
  rw [h.pathTo_eq hm.id]
  cases n.pathTo m.id with
  | none => exact .none
  | some path =>
    exact find?_rel (List.rel_reverse (h.along path)) fun k k' hk => by rw [hk.kind_eq]

/-! ### Contents -/

/-- Comparing the contents of nodes looks at identities, but only for equality. -/
theorem sameContent_eq (h : Alike p n n') (hm : Alike p m m') :
    n'.sameContent m' = n.sameContent m := by
  -- the second pair is taken apart along with the first one
  refine h.induction (motive := fun n n' => ∀ {m m'}, Alike p m m' →
    n'.sameContent m' = n.sameContent m) ?_ ?_ hm
  · intro a b paired text position m m' hm
    cases hm with
    | leaf paired' text' position' =>
      unfold sameContent
      simp only [beq_eq_decide, Pairing.eq_iff_eq paired paired']
    | inner paired' =>
      unfold sameContent
      simp only [beq_eq_decide, Pairing.eq_iff_eq paired paired']
  · intro a b paired kind span cs ds below ih m m' hm
    cases hm with
    | leaf paired' text' position' =>
      unfold sameContent
      simp only [beq_eq_decide, Pairing.eq_iff_eq paired paired']
    | @inner a' b' paired' kind' span' cs' ds' below' =>
      have hall : sameContentAll ds ds' = sameContentAll cs cs' := by
        clear below
        induction ih generalizing cs' ds' with
        | nil =>
          cases below' with
          | nil => rfl
          | cons => rfl
        | cons hc _ ihcs =>
          cases below' with
          | nil => rfl
          | cons hd hds => rw [sameContentAll, sameContentAll, hc hd, ihcs hds]
      unfold sameContent
      simp only [beq_eq_decide, Pairing.eq_iff_eq paired paired', hall]

end Alike

end Node

end GeneticRepair
