import GeneticRepair.Proofs.Evolution.Crossing
import GeneticRepair.Proofs.Syntax.Forest

/-!
# `Proofs/Evolution/Descent.lean` — what versions have from the program they go back to

Mutation and crossover make nodes in one way only, by copying, and what they copy is an inner node.
A copy takes over the mark; only an inserted statement is as suspicious as its place and not as its
donor. `Comes` says so of a single node, and whatever this keeps holds of all versions after any
number of mutations and crossovers (`Lineage.inherits`). Above all, a node of any version has the
kind, the attributes and the covering classes of some node of the program that all of it started
from: `Descends`.

* `Lineage`: the versions that mutations and crossovers make, in any order.
* `Lineage.descends`: all of them descend from the program.
-/

set_option autoImplicit false

namespace GeneticRepair

open Store (HasNode Extends)

variable {α : Type} [Scalar α]

/-! ## Where the nodes of a version come from -/

/-- Where a node of a version comes from, the making of which started from some programs in `s`. -/
inductive Comes (sources : List Node) (s s' : Store α) (m : Node) : Prop where
  /-- It is a node of the programs, or a copy of one that is not a leaf. -/
  | taken {was : Node} (hwas : HasNode sources was) (hlt : m.id < s'.next)
      (hleaf : m.isLeaf = true → m = was) (hkind : m.kind = was.kind)
      (hmark : s'.mark m.id = s.mark was.id)
  /-- It is a copy of a statement that has been inserted at a place. -/
  | inserted {donor place : Node} (hdonor : HasNode sources donor)
      (hplace : HasNode sources place) (hlt : m.id < s'.next) (hinner : m.isLeaf = false)
      (hkind : m.kind = donor.kind)
      (hattributes : (s'.mark m.id).attributes = (s.mark donor.id).attributes)
      (hcovered : (s'.mark m.id).coveredBy = (s.mark donor.id).coveredBy)
      (hsuspicion : s'.suspicion m = if 0 < s.suspicion place then s.suspicion place else 0)

/-- A version made from some programs: its nodes come from theirs, and it is new unless it is one
of them. -/
structure Stems (sources : List Node) (s s' : Store α) (t : Node) : Prop where
  comes : ∀ m ∈ t.preorder, Comes sources s s' m
  new : t ∈ sources ∨ s.next ≤ t.id

section

variable {sources : List Node} {s₀ s s' : Store α} {t t' m m' : Node}

namespace Comes

theorem lt_next (h : Comes sources s s' m) : m.id < s'.next := by
  cases h with
  | taken _ hlt => exact hlt
  | inserted _ _ hlt => exact hlt

theorem of_hasNode (hm : HasNode sources m) (hlt : m.id < s.next) : Comes sources s s m :=
  .taken hm hlt (fun _ => rfl) rfl rfl

/-- A copy of an inner node comes from where that node comes from. -/
theorem copy (h : Comes sources s₀ s m) (hlt : m'.id < s'.next)
    (hleaf : m'.isLeaf = true → m' = m) (hkind : m'.kind = m.kind)
    (hmark : s'.mark m'.id = s.mark m.id) : Comes sources s₀ s' m' := by
  cases h with
  | taken hwas _ hleaf' hkind' hmark' =>
    refine .taken hwas hlt (fun h => ?_) (hkind.trans hkind') (hmark.trans hmark')
    obtain rfl := hleaf h
    exact hleaf' h
  | inserted hdonor hplace _ hinner hkind' hattributes hcovered hsuspicion =>
    refine .inserted hdonor hplace hlt (Bool.eq_false_iff.mpr fun h => ?_) (hkind.trans hkind')
      (hmark ▸ hattributes) (hmark ▸ hcovered) ((congrArg Mark.suspicion hmark).trans hsuspicion)
    obtain rfl := hleaf h
    exact Bool.eq_false_iff.mp hinner h

theorem mono (h : Comes sources s₀ s m) (hs : s.Extends s') : Comes sources s₀ s' m :=
  h.copy (Nat.lt_of_lt_of_le h.lt_next hs.next_le) (fun _ => rfl) rfl (hs.mark_eq m.id h.lt_next)

end Comes

namespace Stems

theorem self (ht : t ∈ sources) (hs : s.Holds t) : Stems sources s s t :=
  ⟨fun m hm => .of_hasNode ⟨t, ht, hm⟩ (hs m hm), .inl ht⟩

theorem mono (h : Stems sources s₀ s t) (hs : s.Extends s') : Stems sources s₀ s' t :=
  ⟨fun m hm => (h.comes m hm).mono hs, h.new⟩

/-- An edit at an inner node makes a version of the same programs, if they are also where the nodes
come from that it brings in. -/
theorem edited {path : ChildPath} {script : List Edit}
    {answers : List (Except EditError (Option Node))} (hnext : s₀.next ≤ s.next)
    (h : Stems sources s₀ s t) (he : EditedAt path script s s' t t' answers)
    (hinner : ∀ was, t.descend path = some was → was.isLeaf = false)
    (hb : ∀ e ∈ script, ∀ c ∈ e.brought, ∀ m ∈ c.preorder, Comes sources s₀ s m) :
    Stems sources s₀ s' t' := by
  refine ⟨fun m hm => ?_, .inr (Nat.le_trans hnext he.next_le_id)⟩
  obtain hold | ⟨e, hes, c, hc, hm⟩ | ⟨q, hq, hm⟩ := he.only m hm
  · exact (h.comes m hold).mono he.grown
  · exact (hb e hes c hc m hm).mono he.grown
  · obtain ⟨was, now, hwas, hnow, hid, hkind, hmark, -⟩ := he.along q hq
    obtain rfl : m = now := Option.some.inj (hm.symm.trans hnow)
    have hlt : m.id < s'.next := by
      rw [hid, he.next_eq]
      exact Nat.lt_succ_of_le (Nat.add_le_add_left hq.length_le _)
    exact (h.comes was (Node.mem_preorder_of_descend hwas)).copy hlt
      (fun hleaf => absurd hleaf (Bool.eq_false_iff.mp (he.isLeaf_along hinner hq hm))) hkind
      hmark

end Stems

end

/-! ## Mutation -/

namespace Mutation

variable {s : Store α} {t : Node}

/-- The new version, if there is one. -/
def offspring {δ : Type} : Except MutationError (Node × δ) → List Node
  | .ok made => [made.1]
  | .error _ => []

theorem mem_of_mem_donors {target donor : Node} {scope : DonorScope}
    (h : donor ∈ donors t target scope) : donor ∈ t.preorder := by
  have hall {n : Node} (h : donor ∈ n.statements) : donor ∈ n.preorder := List.mem_filter.mp h |>.1
  cases scope with
  | program => exact hall h
  | sameUnit =>
    unfold donors at h
    cases hunit : t.unitAround target with
    | none =>
      rw [hunit] at h
      exact hall h
    | some unit =>
      rw [hunit] at h
      obtain ⟨path, -, hfind⟩ := Option.bind_eq_some_iff.mp hunit
      obtain ⟨q, -, hunit⟩ := Node.mem_along_iff.mp
        (List.mem_reverse.mp (List.mem_of_find?_eq_some hfind))
      exact Node.mem_preorder_trans (hall h) (Node.mem_preorder_of_descend hunit)

/-- Donors are statements, and so they are not leaves. -/
theorem isLeaf_of_mem_donors {target donor : Node} {scope : DonorScope}
    (h : donor ∈ donors t target scope) : donor.isLeaf = false := by
  have hall {n : Node} (h : donor ∈ n.statements) : donor.isLeaf = false := by
    have hkind := of_decide_eq_true (List.mem_filter.mp h).2
    cases donor with
    | leaf => cases hkind
    | inner => rfl
  unfold donors at h
  split at h
  · exact hall h
  · split at h
    · exact hall h
    · exact hall h

/-- What is below a transplanted copy comes from where its donor does, and the copy itself is an
inserted statement. -/
theorem comes_transplant {donor target : Node} {scope : DonorScope} (hs : s.Holds t)
    (hdonor : donor ∈ donors t target scope) {place : Node} (hplace : place ∈ t.preorder)
    (hid : place.id = target.id) :
    ∀ m ∈ (transplant donor target s).1.preorder,
      Comes [t] s (transplant donor target s).2 m := by
  obtain ⟨hcopy, hgrown, hnext, hattributes, hcovered⟩ := transplant_spec donor target s
  have hmem : ∀ {m : Node}, m ∈ t.preorder → HasNode [t] m := fun hm =>
    ⟨t, List.mem_singleton_self t, hm⟩
  have hin := mem_of_mem_donors hdonor
  have hsuspicion := suspicion_transplant donor (hid ▸ hs place hplace : target.id < s.next)
  rw [hcopy]
  intro m hm
  obtain rfl | ⟨c, hc, hm⟩ := Node.mem_preorder_iff.mp hm
  · have hinner : (donor.withId s.next).isLeaf = false := by
      rw [← isLeaf_of_mem_donors hdonor]
      cases donor <;> rfl
    refine .inserted (hmem hin) (hmem hplace) ?_ hinner (Node.kind_withId donor _) ?_ ?_ ?_
    · rw [Node.id_withId, hnext]
      exact Nat.lt_succ_self _
    · rw [Node.id_withId, hattributes]
    · rw [Node.id_withId, hcovered]
    · unfold Store.suspicion at hsuspicion ⊢
      rw [Node.id_withId, hid, hsuspicion]
  · rw [Node.children_withId] at hc
    have hm := Node.mem_preorder_trans (Node.mem_preorder_of_mem_child hc hm) hin
    exact (Comes.of_hasNode (hmem hm) (hs m hm)).mono hgrown

/-- Every operator makes a version of the program that it is applied to, or nothing. -/
theorem stems_apply (operator : Operator) (target : Node) (scope : DonorScope) (rng : WordStream)
    (hs : s.Holds t) :
    ∀ t' ∈ offspring (apply operator t target scope rng s).1.1,
      Stems [t] s (apply operator t target scope rng s).2 t' := by
  have hself : Stems [t] s s t := .self (List.mem_singleton_self t) hs
  have hslot {path : ChildPath} {index : Nat} (h : slotOf t target = .ok (path, index)) :
      (∀ was, t.descend path = some was → was.isLeaf = false) ∧
        ∃ place ∈ t.preorder, place.id = target.id := by
    obtain ⟨parent, found, hparent, hfound, hid⟩ := slotOf_spec h
    refine ⟨fun was hwas => ?_, found, ?_, hid⟩
    · obtain rfl := Option.some.inj (hparent.symm.trans hwas)
      exact Node.isLeaf_of_getElem? hfound
    · exact Node.mem_preorder_trans (Node.mem_preorder_of_mem_child
        (List.mem_of_getElem? hfound) (Node.self_mem_preorder found))
        (Node.mem_preorder_of_descend hparent)
  have happlied := application operator t target scope rng s
  generalize apply operator t target scope rng s = applied at happlied ⊢
  cases happlied with
  | refused _ _ _ => exact nofun
  | removed slot _ _ hedit =>
    obtain ⟨answers, he⟩ := hedit.edited hs
    exact List.forall_mem_singleton.mpr (hself.edited (Nat.le_refl _) he (hslot slot).1
      (List.forall_mem_singleton.mpr nofun))
  | @inserted _ _ donor _ _ slot hdonor _ _ hedit =>
    obtain ⟨hinner, place, hplace, hid⟩ := hslot slot
    have hgrown : s.Extends (transplant donor target s).2 := (transplant_spec donor target s).2.1
    obtain ⟨answers, he⟩ := hedit.edited (hs.mono hgrown.next_le)
    exact List.forall_mem_singleton.mpr ((hself.mono hgrown).edited hgrown.next_le he hinner
      (List.forall_mem_singleton.mpr (List.forall_mem_singleton.mpr
        (comes_transplant hs hdonor hplace hid))))

/-- So does a mutation. -/
theorem stems_mutate {operators : List Operator} {scope : DonorScope} {rng rng' : WordStream}
    {root : Node} {operator : Operator} {description : String} {s' : Store α} (hs : s.Holds t)
    (h : mutate t operators scope rng s = ((.changed root operator description, rng'), s')) :
    Stems [t] s s' root := by
  obtain ⟨-, hresult⟩ | ⟨operator', target, rng', -, hstore, hresult⟩ :=
    mutate_cases t operators scope rng s
  · rw [h] at hresult
    cases hresult
  · have hstems := stems_apply operator' target scope rng' hs
    rw [h] at hstore hresult
    obtain ⟨-, hanswer⟩ := eq_ok_of_resultOf hresult.symm
    rw [hanswer] at hstems
    rw [show s' = _ from hstore]
    exact hstems _ (List.mem_singleton_self _)

end Mutation

/-! ## Crossover -/

namespace Crossover

variable {sources : List Node} {s₀ s s' : Store α} {first second : Node}

/-- The two new versions, if there are any. -/
def offspring : Crossing → List Node
  | .offspring first second _ => [first, second]
  | .alike => []

/-- The children that a block gets come from where the parents do. -/
theorem comes_exchanged {own other : Node} (hown : Stems sources s₀ s own)
    (hother : Stems sources s₀ s other) (path : ChildPath) (cutoff : Nat) :
    ∀ k ∈ (own.childrenAt path).take cutoff ++ (other.childrenAt path).drop cutoff,
      ∀ m ∈ k.preorder, Comes sources s₀ s m := by
  intro k hk m hm
  obtain hk | hk := List.mem_append.mp hk
  · exact hown.comes m (Node.mem_preorder_trans hm
      (Node.mem_preorder_of_mem_childrenAt (List.mem_of_mem_take hk)))
  · exact hother.comes m (Node.mem_preorder_trans hm
      (Node.mem_preorder_of_mem_childrenAt (List.mem_of_mem_drop hk)))

/-- At a block there are inner nodes, since they have been given other children. -/
theorem isLeaf_block {path : ChildPath} {kids : List Node} {t t' : Node}
    (he : EditedAt path [.replace kids] s s' t t' [.ok none]) :
    ∀ was, t.descend path = some was → was.isLeaf = false := by
  obtain ⟨was, now, hwas, -, hinner, -⟩ := he.replaced
  intro found hfound
  obtain rfl := Option.some.inj (hwas.symm.trans hfound)
  exact hinner

theorem Crosses.stems {paths : List ChildPath} {rng rng' : WordStream} {p p' : Progress}
    (h : Crosses first second paths rng p s p' rng' s') (hnext : s₀.next ≤ s.next)
    (hfirst : Stems sources s₀ s first) (hsecond : Stems sources s₀ s second)
    (hp : Stems sources s₀ s p.first) (hq : Stems sources s₀ s p.second) :
    Stems sources s₀ s' p'.first ∧ Stems sources s₀ s' p'.second := by
  induction h with
  | done => exact ⟨hp, hq⟩
  | @block path paths rng rest rng' p p' s s₁ s₂ s' x y cutoff _ hx hy _ ih =>
    have hnext₁ : s₀.next ≤ s₁.next := Nat.le_trans hnext hx.grown.next_le
    have hfirst₁ := hfirst.mono hx.grown
    have hsecond₁ := hsecond.mono hx.grown
    have hmade : Stems sources s₀ s₁ x := hp.edited hnext hx (isLeaf_block hx)
      (List.forall_mem_singleton.mpr (comes_exchanged hfirst hsecond path cutoff))
    have hmade' : Stems sources s₀ s₂ y := (hq.mono hx.grown).edited hnext₁ hy (isLeaf_block hy)
      (List.forall_mem_singleton.mpr (comes_exchanged hsecond₁ hfirst₁ path cutoff))
    exact ih (Nat.le_trans hnext₁ hy.grown.next_le) (hfirst₁.mono hy.grown)
      (hsecond₁.mono hy.grown) (hmade.mono hy.grown) hmade'

/-- A crossover makes two versions of the programs that are crossed, or nothing. -/
theorem stems_cross (rng : WordStream) (hfirst : s.Holds first) (hsecond : s.Holds second) :
    ∀ t' ∈ offspring (cross first second rng s).1.1,
      Stems [first, second] s (cross first second rng s).2 t' := by
  obtain ⟨-, hcross⟩ | ⟨-, x, y, s', hcross, hcrosses⟩ := cross_spec hfirst hsecond rng
  · rw [hcross]
    exact nofun
  · have hself : Stems [first, second] s s first := .self List.mem_cons_self hfirst
    have hself' : Stems [first, second] s s second :=
      .self (List.mem_cons_of_mem _ (List.mem_singleton_self second)) hsecond
    obtain ⟨hx, hy⟩ := hcrosses.stems (Nat.le_refl _) hself hself' hself hself'
    rw [hcross]
    exact List.forall_mem_cons.mpr ⟨hx, List.forall_mem_singleton.mpr hy⟩

/-- Crossing at a block makes both versions anew, whatever it has been before. -/
theorem Crosses.new {paths : List ChildPath} {rng rng' : WordStream} {p p' : Progress}
    (h : Crosses first second paths rng p s p' rng' s') {low : NodeId} (hlow : low ≤ s.next)
    (hp : paths ≠ [] ∨ low ≤ p.first.id ∧ low ≤ p.second.id) :
    low ≤ p'.first.id ∧ low ≤ p'.second.id := by
  induction h with
  | done => exact hp.resolve_left (absurd rfl)
  | block _ hx hy _ ih =>
    have hnext := Nat.le_trans hlow hx.grown.next_le
    exact ih (Nat.le_trans hnext hy.grown.next_le)
      (.inr ⟨Nat.le_trans hlow hx.next_le_id, Nat.le_trans hnext hy.next_le_id⟩)

/-- The children of a crossing are versions that have not been there. -/
theorem new_cross (rng : WordStream) (hfirst : s.Holds first) (hsecond : s.Holds second) :
    ∀ t' ∈ offspring (cross first second rng s).1.1, s.next ≤ t'.id := by
  obtain ⟨-, hcross⟩ | ⟨hblocks, x, y, s', hcross, hcrosses⟩ := cross_spec hfirst hsecond rng
  · rw [hcross]
    exact nofun
  · obtain ⟨hx, hy⟩ := hcrosses.new (Nat.le_refl _) (.inl hblocks)
    rw [hcross]
    exact List.forall_mem_cons.mpr ⟨hx, List.forall_mem_singleton.mpr hy⟩

end Crossover

/-! ## Many of them -/

/-- The marks and the versions that a program gives rise to, from `base` on, by mutations and
crossovers in any order. An operator may be applied to any version and at any node. -/
inductive Lineage (base : Store α) (root : Node) : Store α → List Node → Prop where
  | start : Lineage base root base [root]
  | mutate {s : Store α} {versions : List Node} {t : Node} (h : Lineage base root s versions)
      (ht : t ∈ versions) (operator : Operator) (target : Node) (scope : DonorScope)
      (rng : WordStream) :
      Lineage base root (Mutation.apply operator t target scope rng s).2
        (Mutation.offspring (Mutation.apply operator t target scope rng s).1.1 ++ versions)
  | cross {s : Store α} {versions : List Node} {first second : Node}
      (h : Lineage base root s versions) (hfirst : first ∈ versions) (hsecond : second ∈ versions)
      (rng : WordStream) :
      Lineage base root (Crossover.cross first second rng s).2
        (Crossover.offspring (Crossover.cross first second rng s).1.1 ++ versions)

/-- What the nodes of a program have, the nodes of all its versions have, if it passes on to whatever
comes from nodes that have it. -/
theorem Lineage.inherits {P : Store α → Node → Prop} {base s : Store α} {root : Node}
    {versions : List Node} (h : Lineage base root s versions) (hroot : base.Holds root)
    (hstart : ∀ m ∈ root.preorder, P base m)
    (hpass : ∀ (sources : List Node) (s s' : Store α) (m : Node),
      (∀ n, HasNode sources n → P s n) → Comes sources s s' m → P s' m) :
    base.Extends s ∧ ∀ t ∈ versions, (t = root ∨ base.next ≤ t.id) ∧ s.Holds t ∧
      ∀ m ∈ t.preorder, P s m := by
  -- what there is stays as it is, and what is made comes from it
  have step {s s' : Store α} {versions sources made : List Node} (hgrown : s.Extends s')
      (hmade : ∀ t ∈ made, Stems sources s s' t) (hsources : ∀ t ∈ sources, t ∈ versions)
      (ih : base.Extends s ∧ ∀ t ∈ versions, (t = root ∨ base.next ≤ t.id) ∧ s.Holds t ∧
        ∀ m ∈ t.preorder, P s m) :
      base.Extends s' ∧ ∀ t ∈ made ++ versions, (t = root ∨ base.next ≤ t.id) ∧ s'.Holds t ∧
        ∀ m ∈ t.preorder, P s' m := by
    obtain ⟨hbase, hall⟩ := ih
    have hP : ∀ n, HasNode versions n → P s n := fun n ⟨t, ht, hn⟩ => (hall t ht).2.2 n hn
    refine ⟨hbase.trans hgrown, List.forall_mem_append.mpr ⟨fun t ht => ?_, fun t ht => ?_⟩⟩
    · have hstems := hmade t ht
      refine ⟨hstems.new.elim (fun h => (hall t (hsources t h)).1)
          fun h => .inr (Nat.le_trans hbase.next_le h),
        fun m hm => (hstems.comes m hm).lt_next, fun m hm => ?_⟩
      exact hpass sources s s' m (fun n ⟨u, hu, hn⟩ => hP n ⟨u, hsources u hu, hn⟩)
        (hstems.comes m hm)
    · obtain ⟨hnew, hholds, -⟩ := hall t ht
      refine ⟨hnew, hholds.mono hgrown.next_le, fun m hm => ?_⟩
      exact hpass versions s s' m hP ((Comes.of_hasNode ⟨t, ht, hm⟩ (hholds m hm)).mono hgrown)
  induction h with
  | start =>
    exact ⟨Extends.refl base, List.forall_mem_singleton.mpr ⟨.inl rfl, hroot, hstart⟩⟩
  | @mutate s versions t _ ht operator target scope rng ih =>
    exact step (Mutation.apply_extends operator t target scope rng s)
      (Mutation.stems_apply operator target scope rng (ih.2 t ht).2.1)
      (List.forall_mem_singleton.mpr ht) ih
  | @cross s versions first second _ hfirst hsecond rng ih =>
    exact step (Crossover.cross_extends first second rng s)
      (Crossover.stems_cross rng (ih.2 first hfirst).2.1 (ih.2 second hsecond).2.1)
      (List.forall_mem_cons.mpr ⟨hfirst, List.forall_mem_singleton.mpr hsecond⟩) ih

/-! ## Nodes that go back to a program -/

/-- A node goes back to a node of a program, as that program was marked in `base`. -/
structure Traced (base : Store α) (root : Node) (s : Store α) (m : Node) : Prop where
  lt_next : m.id < s.next
  origin : ∃ w ∈ root.preorder, m.kind = w.kind ∧
    (s.mark m.id).attributes = (base.mark w.id).attributes ∧
    (s.mark m.id).coveredBy = (base.mark w.id).coveredBy

/-- Every node of a version goes back to a node of a program, and a version that is not the program
itself is new. -/
structure Descends (base : Store α) (root : Node) (s : Store α) (t : Node) : Prop where
  traced : ∀ m ∈ t.preorder, Traced base root s m
  new : t = root ∨ base.next ≤ t.id

/-- What an operation on descendants keeps: stores only grow, and what it makes descends. -/
structure Bears (base : Store α) (root : Node) (s s' : Store α) (made : List Node) : Prop where
  grown : s.Extends s'
  descends : ∀ t ∈ made, Descends base root s' t

section

variable {base s s' : Store α} {root m : Node} {sources versions : List Node}

theorem Comes.traced (h : Comes sources s s' m)
    (hsources : ∀ n, HasNode sources n → Traced base root s n) : Traced base root s' m := by
  cases h with
  | taken hwas hlt _ hkind hmark =>
    obtain ⟨-, w, hw, hk, hattributes, hcovered⟩ := hsources _ hwas
    exact ⟨hlt, w, hw, hkind.trans hk, hmark ▸ hattributes, hmark ▸ hcovered⟩
  | inserted hdonor _ hlt _ hkind hattributes hcovered _ =>
    obtain ⟨-, w, hw, hk, ha, hc⟩ := hsources _ hdonor
    exact ⟨hlt, w, hw, hkind.trans hk, hattributes.trans ha, hcovered.trans hc⟩

namespace Lineage

theorem bears (h : Lineage base root s versions) (hroot : base.Holds root) :
    Bears base root base s versions := by
  obtain ⟨hgrown, hall⟩ := h.inherits hroot (P := Traced base root)
    (fun m hm => ⟨hroot m hm, m, hm, rfl, rfl, rfl⟩) fun _ _ _ _ hsources h => h.traced hsources
  exact ⟨hgrown, fun t ht => ⟨(hall t ht).2.2, (hall t ht).1⟩⟩

/-- Every version descends from the program. -/
theorem descends (h : Lineage base root s versions) (hroot : base.Holds root) {t : Node}
    (ht : t ∈ versions) : Descends base root s t := (h.bears hroot).descends t ht

end Lineage

end

end GeneticRepair
