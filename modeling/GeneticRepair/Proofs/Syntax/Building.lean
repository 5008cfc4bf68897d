import GeneticRepair.Proofs.Syntax.Forest
import GeneticRepair.Proofs.Syntax.Spans
import GeneticRepair.Syntax.Draft

/-!
# `Proofs/Syntax/Building.lean` — what building a draft makes

Building a draft makes nodes under identities that are new, one for each, and takes over the nodes
that the draft names. Every node that is made carries its span, because its children are made first.
-/

set_option autoImplicit false

namespace GeneticRepair

open Store (HasNode)

variable {programs made : List Node} {n m : Node} {next next' next'' : NodeId}

theorem Store.not_hasNode_nil (m : Node) : ¬ HasNode [] m := by
  rintro ⟨t, ht, -⟩
  exact List.not_mem_nil ht

theorem Store.hasNode_singleton : HasNode [n] m ↔ m ∈ n.preorder := by
  constructor
  · rintro ⟨t, ht, hm⟩
    obtain rfl := List.mem_singleton.mp ht
    exact hm
  · intro hm
    exact ⟨n, List.mem_singleton_self n, hm⟩

theorem Store.hasNode_cons : HasNode (n :: made) m ↔ m ∈ n.preorder ∨ HasNode made m := by
  change HasNode ([n] ++ made) m ↔ _
  rw [hasNode_append, hasNode_singleton]

namespace Draft

mutual

/-- The nodes that a draft takes over. -/
def reused : Draft → List Node
  | .leaf .. => []
  | .inner _ _ children => reusedAll children
  | .existing node _ => [node]

def reusedAll : List Draft → List Node
  | [] => []
  | d :: ds => d.reused ++ reusedAll ds

end

/-- What has been built from nodes of some programs: the nodes that are new have the identities from
one number to another, one each, and all nodes carry their spans. -/
structure Built (programs : List Node) (next next' : NodeId) (made : List Node) : Prop where
  next_le : next ≤ next'
  origin : ∀ m, HasNode made m → HasNode programs m ∨ next ≤ m.id ∧ m.id < next'
  eq_of_id_eq : ∀ m m', HasNode made m → HasNode made m' → next ≤ m.id → m.id = m'.id → m = m'
  spanned : (∀ m, HasNode programs m → m.Spanned) → ∀ m, HasNode made m → m.Spanned

theorem built_nil (programs : List Node) (next : NodeId) : Built programs next next [] := by
  exact ⟨Nat.le_refl _, fun m hm => absurd hm (Store.not_hasNode_nil m),
    fun m _ hm => absurd hm (Store.not_hasNode_nil m),
    fun _ m hm => absurd hm (Store.not_hasNode_nil m)⟩

theorem built_leaf (programs : List Node) (next : NodeId) (text : String) (position : Position) :
    Built programs next (next + 1) [.leaf next text position] := by
  have honly (m : Node) (hm : HasNode [.leaf next text position] m) :
      m = .leaf next text position := by
    rw [Store.hasNode_singleton, Node.preorder_leaf] at hm
    exact List.mem_singleton.mp hm
  refine ⟨Nat.le_succ _, fun m hm => .inr ?_, fun m m' hm hm' _ _ => ?_, fun _ m hm => ?_⟩
  · rw [honly m hm]
    exact ⟨Nat.le_refl _, Nat.lt_succ_self _⟩
  · rw [honly m hm, honly m' hm']
  · rw [honly m hm]
    exact Node.spanned_leaf next text position

theorem built_existing (hlt : ∀ m, HasNode programs m → m.id < next) (hn : HasNode programs n) :
    Built programs next next [n] := by
  have hold (m : Node) (hm : HasNode [n] m) : HasNode programs m :=
    hn.below (Store.hasNode_singleton.mp hm)
  refine ⟨Nat.le_refl _, fun m hm => .inl (hold m hm), fun m _ hm _ hle _ => ?_,
    fun h m hm => h m (hold m hm)⟩
  exact absurd (hlt m (hold m hm)) (Nat.not_lt_of_le hle)

/-- First one program is built, then others. -/
theorem Built.cons (h : Built programs next next' [n]) (h' : Built programs next' next'' made)
    (hlt : ∀ m, HasNode programs m → m.id < next) : Built programs next next'' (n :: made) := by
  have hcases (m : Node) (hm : HasNode (n :: made) m) : HasNode [n] m ∨ HasNode made m := by
    rwa [Store.hasNode_singleton, ← Store.hasNode_cons]
  -- what is built first has the lower numbers
  have hapart (m m' : Node) (hm : HasNode [n] m) (hm' : HasNode made m') (hle : next ≤ m.id) :
      m.id ≠ m'.id := by
    intro hid
    obtain hold | ⟨-, hhigh⟩ := h.origin m hm
    · exact Nat.not_lt_of_le hle (hlt m hold)
    · obtain hold | ⟨hlow, -⟩ := h'.origin m' hm'
      · exact Nat.not_lt_of_le hle (hid ▸ hlt m' hold)
      · exact Nat.not_lt_of_le hlow (hid ▸ hhigh)
  refine ⟨Nat.le_trans h.next_le h'.next_le, fun m hm => ?_, fun m m' hm hm' hle hid => ?_,
    fun hall m hm => ?_⟩
  · obtain hm | hm := hcases m hm
    · exact (h.origin m hm).imp_right fun ⟨hlow, hhigh⟩ =>
        ⟨hlow, Nat.lt_of_lt_of_le hhigh h'.next_le⟩
    · exact (h'.origin m hm).imp_right fun ⟨hlow, hhigh⟩ => ⟨Nat.le_trans h.next_le hlow, hhigh⟩
  · obtain hm | hm := hcases m hm
    · obtain hm' | hm' := hcases m' hm'
      · exact h.eq_of_id_eq m m' hm hm' hle hid
      · exact absurd hid (hapart m m' hm hm' hle)
    · obtain hm' | hm' := hcases m' hm'
      · exact absurd hid.symm (hapart m' m hm' hm (hid ▸ hle))
      · have hle' : next' ≤ m.id := (h'.origin m hm).elim
          (fun hold => absurd (hlt m hold) (Nat.not_lt_of_le hle)) And.left
        exact h'.eq_of_id_eq m m' hm hm' hle' hid
  · obtain hm | hm := hcases m hm
    · exact h.spanned hall m hm
    · exact h'.spanned hall m hm

/-- A node is made after its children. -/
theorem Built.make (h : Built programs next next' made)
    (hlt : ∀ m, HasNode programs m → m.id < next) (kind : NodeKind) :
    Built programs next (next' + 1) [.make next' kind made] := by
  have hcases (m : Node) (hm : HasNode [.make next' kind made] m) :
      m = .make next' kind made ∨ HasNode made m := by
    rw [Store.hasNode_singleton] at hm
    exact Node.mem_preorder_iff.mp hm
  have hbelow (m : Node) (hm : HasNode made m) : m.id < next' :=
    (h.origin m hm).elim (fun hold => Nat.lt_of_lt_of_le (hlt m hold) h.next_le) And.right
  refine ⟨Nat.le_succ_of_le h.next_le, fun m hm => ?_, fun m m' hm hm' hle hid => ?_,
    fun hall m hm => ?_⟩
  · obtain rfl | hm := hcases m hm
    · exact .inr ⟨h.next_le, Nat.lt_succ_self _⟩
    · exact (h.origin m hm).imp_right fun ⟨hlow, hhigh⟩ => ⟨hlow, Nat.lt_succ_of_lt hhigh⟩
  · obtain rfl | hm := hcases m hm
    · obtain rfl | hm' := hcases m' hm'
      · rfl
      · exact absurd hid.symm (Nat.ne_of_lt (hbelow m' hm'))
    · obtain rfl | hm' := hcases m' hm'
      · exact absurd hid (Nat.ne_of_lt (hbelow m hm))
      · exact h.eq_of_id_eq m m' hm hm' hle hid
  · obtain rfl | hm := hcases m hm
    · exact Node.spanned_make (fun c hc => h.spanned hall c (.of_mem hc)) next' kind
    · exact h.spanned hall m hm

variable {α : Type} [Scalar α]

mutual

theorem built_build : (d : Draft) → ∀ {s : Store α}, (∀ m, HasNode programs m → m.id < s.next) →
    (∀ n ∈ d.reused, HasNode programs n) →
    Built programs s.next (d.build s).2.next [(d.build s).1]
  | .leaf text position attributes, s, _, _ => by
    have hnext : ((Draft.leaf text position attributes).build s).2.next = s.next + 1 :=
      Store.next_allocate s _
    rw [hnext]
    exact built_leaf programs s.next text position
  | .inner kind attributes children, s, hlt, hreused => by
    have hnext : ((Draft.inner kind attributes children).build s).2.next =
        (buildAll children s).2.next + 1 := Store.next_allocate _ _
    rw [hnext]
    exact (built_buildAll children hlt hreused).make hlt kind
  | .existing node attributes, s, hlt, hreused => by
    have hnext : ((Draft.existing node attributes).build s).2.next = s.next :=
      List.foldlRecOn (motive := fun s' : Store α => s'.next = s.next) attributes _ rfl
        fun s' h a _ => (Store.next_update s' node.id _).trans h
    rw [hnext]
    exact built_existing hlt (hreused node (List.mem_singleton_self _))

theorem built_buildAll : (ds : List Draft) → ∀ {s : Store α},
    (∀ m, HasNode programs m → m.id < s.next) → (∀ n ∈ reusedAll ds, HasNode programs n) →
    Built programs s.next (buildAll ds s).2.next (buildAll ds s).1
  | [], s, _, _ => built_nil programs s.next
  | d :: ds, s, hlt, hreused => by
    have hfirst := built_build d hlt fun n hn => hreused n (List.mem_append_left _ hn)
    have hrest := built_buildAll ds (s := (d.build s).2)
      (fun m hm => Nat.lt_of_lt_of_le (hlt m hm) hfirst.next_le)
      fun n hn => hreused n (List.mem_append_right _ hn)
    exact hfirst.cons hrest hlt

end

end Draft

end GeneticRepair
