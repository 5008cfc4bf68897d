import GeneticRepair.Proofs.Evolution.Descent
import GeneticRepair.Proofs.Syntax.Forest

/-!
# `Proofs/Evolution/Sparing.lean` — mutation and crossover spare what is there

Every operator comes down to edits of copied spines, which are harmless one by one
(`Store.Forest.edited`). What is left is to see that whatever an edit brings in has been among the
programs before, or has just been made for it.
-/

set_option autoImplicit false

namespace GeneticRepair

open Store

variable {α : Type} [Scalar α] {s : Store α} {programs : List Node} {t : Node}

/-! ## Mutation -/

namespace Mutation

/-- The copy is new, and below it are nodes that were there. -/
theorem spares_transplant {donor : Node} (target : Node) (h : s.Forest programs)
    (hdonor : HasNode programs donor) :
    s.Spares (transplant donor target s).2 programs [(transplant donor target s).1] := by
  obtain ⟨hcopy, hgrown, hnext, -⟩ := transplant_spec donor target s
  have hcases : ∀ m, HasNode [(transplant donor target s).1] m →
      m = donor.withId s.next ∨ HasNode programs m := by
    rintro m ⟨_, hmem, hm⟩
    obtain rfl := List.mem_singleton.mp hmem
    rw [hcopy] at hm
    obtain rfl | ⟨c, hc, hm⟩ := Node.mem_preorder_iff.mp hm
    · exact Or.inl rfl
    · rw [Node.children_withId] at hc
      exact Or.inr (hdonor.below (Node.mem_preorder_of_mem_child hc hm))
  refine ⟨hgrown, h.extend hgrown.next_le (fun m hm => ?_) fun m m' hm hm' hle hid => ?_⟩
  · obtain rfl | hm := hcases m hm
    · rw [Node.id_withId, hnext]
      exact Or.inr ⟨Nat.le_refl _, Nat.lt_succ_self _⟩
    · exact Or.inl hm
  · have hnew : ∀ m, HasNode [(transplant donor target s).1] m → s.next ≤ m.id →
        m = donor.withId s.next := fun m hm hle =>
      (hcases m hm).resolve_right fun hold => Nat.not_lt_of_le hle (h.lt_next hold)
    rw [hnew m hm hle, hnew m' hm' (hid ▸ hle)]

theorem spares_apply (operator : Operator) (target : Node) (scope : DonorScope)
    (rng : WordStream) (h : s.Forest programs) (ht : t ∈ programs) :
    s.Spares (apply operator t target scope rng s).2 programs
      (offspring (apply operator t target scope rng s).1.1) := by
  have happlied := application operator t target scope rng s
  generalize apply operator t target scope rng s = applied at happlied ⊢
  cases happlied with
  | refused _ _ hgrown => exact .none h hgrown
  | removed _ _ _ hedit =>
    obtain ⟨answers, he⟩ := hedit.edited (h.holds t ht)
    refine h.edited ht (List.forall_mem_singleton.mpr ?_) he
    exact nofun
  | @inserted _ _ donor _ _ _ hdonor _ _ hedit =>
    have hcopied := spares_transplant target h ⟨t, ht, mem_of_mem_donors hdonor⟩
    have ht' := List.mem_append_right [(transplant donor target s).1] ht
    obtain ⟨answers, he⟩ := hedit.edited (hcopied.forest.holds t ht')
    refine hcopied.trans (hcopied.forest.edited ht' ?_ he) fun t' ht' => Or.inl ht'
    -- for the edit the copy is one of the programs
    exact List.forall_mem_singleton.mpr (List.forall_mem_singleton.mpr (.of_mem List.mem_cons_self))

end Mutation

theorem Mutation.spares_mutate (operators : List Operator) (scope : DonorScope)
    (rng : WordStream) (h : s.Forest programs) (ht : t ∈ programs) :
    s.Spares (mutate t operators scope rng s).2 programs
      (mutate t operators scope rng s).1.1.offspring := by
  obtain ⟨hsame, hresult⟩ | ⟨operator, target, rng', -, hstore, hresult⟩ :=
    mutate_cases t operators scope rng s
  · rw [hsame, hresult]
    exact .none h (Extends.refl s)
  · have happlied := spares_apply operator target scope rng' h ht
    rw [hstore, hresult]
    cases hanswer : (apply operator t target scope rng' s).1.1 with
    | error e => exact .none h happlied.grown
    | ok made =>
      rw [hanswer] at happlied
      exact happlied

/-! ## Crossover -/

namespace Crossover

theorem hasNode_exchanged {own other : Node} (hown : own ∈ programs) (hother : other ∈ programs)
    (path : ChildPath) (cutoff : Nat) :
    ∀ k ∈ (own.childrenAt path).take cutoff ++ (other.childrenAt path).drop cutoff,
      HasNode programs k := by
  intro k hk
  obtain hk | hk := List.mem_append.mp hk
  · exact ⟨own, hown, Node.mem_preorder_of_mem_childrenAt (List.mem_of_mem_take hk)⟩
  · exact ⟨other, hother, Node.mem_preorder_of_mem_childrenAt (List.mem_of_mem_drop hk)⟩

/-- The versions on the way are spared too, though nobody keeps them. -/
theorem Crosses.spares {first second : Node} {paths : List ChildPath} {rng rng' : WordStream}
    {p p' : Progress} {s' : Store α} (h : Crosses first second paths rng p s p' rng' s')
    (hforest : s.Forest programs) (hfirst : first ∈ programs) (hsecond : second ∈ programs)
    (hp : p.first ∈ programs) (hq : p.second ∈ programs) :
    s.Spares s' programs [p'.first, p'.second] := by
  induction h generalizing programs with
  | done =>
    refine .same hforest fun t ht => ?_
    obtain rfl | ht := List.mem_cons.mp ht
    · exact hp
    · exact List.mem_singleton.mp ht ▸ hq
  | @block path paths rng rest rng' p p' s s₁ s₂ s' x y cutoff _ hx hy _ ih =>
    have hmade : s.Spares s₁ programs [x] := hforest.edited hp (fun e he => by
      obtain rfl := List.mem_singleton.mp he
      exact hasNode_exchanged hfirst hsecond path cutoff) hx
    have hmade' : s₁.Spares s₂ ([x] ++ programs) [y] :=
      hmade.forest.edited (List.mem_cons_of_mem x hq) (fun e he => by
        obtain rfl := List.mem_singleton.mp he
        exact hasNode_exchanged (List.mem_cons_of_mem x hsecond) (List.mem_cons_of_mem x hfirst)
          path cutoff) hy
    have hboth : s.Spares s₂ programs [x, y] := hmade.trans hmade' fun t ht =>
      (List.mem_cons.mp ht).elim (fun e => Or.inr (List.mem_singleton.mpr e)) Or.inl
    have hold {t : Node} (ht : t ∈ programs) : t ∈ [x, y] ++ programs :=
      List.mem_append_right _ ht
    have hlater := ih hboth.forest (hold hfirst) (hold hsecond) List.mem_cons_self
      (List.mem_cons_of_mem x List.mem_cons_self)
    exact hboth.trans hlater fun t ht => Or.inl ht

theorem spares_cross {first second : Node} (rng : WordStream) (h : s.Forest programs)
    (hfirst : first ∈ programs) (hsecond : second ∈ programs) :
    s.Spares (cross first second rng s).2 programs
      (offspring (cross first second rng s).1.1) := by
  obtain ⟨-, hcross⟩ | ⟨-, x, y, s', hcross, hcrosses⟩ :=
    cross_spec (h.holds first hfirst) (h.holds second hsecond) rng
  · rw [hcross]
    exact .none h (Extends.refl s)
  · rw [hcross]
    exact hcrosses.spares h hfirst hsecond hfirst hsecond

end Crossover

end GeneticRepair
