import GeneticRepair.Proofs.Evolution.Diverging
import GeneticRepair.Proofs.Evolution.Mirrored

/-!
# `Proofs/Evolution/Swapping.lean` — parents the other way round

Nothing in a crossover tells its two parents apart: the versions diverge at the same blocks, the
cutoffs are drawn below the same bounds, and what one child gets at a block the other child gets
when the parents change places. So the same words give the same two children in the other order
(`cross_swap`). Only the copies on the way to the blocks are made anew.
-/

set_option autoImplicit false

namespace GeneticRepair

/-- The nodes that were there stand for themselves in every later store. -/
theorem Store.Extends.aligns {α : Type} [Scalar α] {s s' : Store α} (h : s.Extends s') :
    (Pairing.upTo s.next).Aligns s s' := by
  refine ⟨fun hab => hab.2, ?_, ?_⟩
  · rintro a b ⟨rfl, hlt⟩
    exact Nat.lt_of_lt_of_le hlt h.next_le
  · rintro a b ⟨rfl, hlt⟩
    exact h.mark_eq a hlt

namespace Crossover

variable {α : Type} [Scalar α] {s s₂ : Store α} {first second : Node} {path : ChildPath}

/-! ## Blocks and cutoffs -/

theorem blocks_of_extends (hfirst : s.Holds first) (hsecond : s.Holds second)
    (h : s.Extends s₂) : blocks s₂ first second = blocks s first second :=
  blocks_eq h.aligns (.self fun m hm => ⟨rfl, hfirst m hm⟩) (.self fun m hm => ⟨rfl, hsecond m hm⟩)

theorem DivergeAt.swap (h : DivergeAt s first second path) : DivergeAt s second first path := by
  obtain ⟨a, b, ha, hb, hinner, hinner', hdiffer, hsuspicious⟩ := h
  exact ⟨b, a, hb, ha, hinner', hinner, Node.sameContent_comm a b ▸ hdiffer, hsuspicious.symm⟩

theorem blocksIn_comm {as bs : List Node} (h : ∀ a ∈ as, ∀ b, blocks s a b = blocks s b a)
    (index : Nat) : blocksIn s index as bs = blocksIn s index bs as := by
  induction as generalizing index bs with
  | nil => cases bs <;> unfold blocksIn <;> rfl
  | cons a as ih =>
    cases bs with
    | nil => unfold blocksIn; rfl
    | cons b bs =>
      obtain ⟨ha, has⟩ := List.forall_mem_cons.mp h
      rw [blocksIn, blocksIn, ha b, ih has]

theorem blocks_comm_of_children
    (h : ∀ c ∈ first.children, ∀ d, blocks s c d = blocks s d c) :
    blocks s first second = blocks s second first := by
  by_cases hroot : DivergeAt s first second []
  · rw [blocks_of_divergeAt hroot, blocks_of_divergeAt hroot.swap]
  have hroot' : ¬ DivergeAt s second first [] := fun h => hroot h.swap
  cases hsame : first.sameContent second with
  | true =>
    rw [blocks_of_sameContent hsame,
      blocks_of_sameContent ((Node.sameContent_comm second first).trans hsame)]
  | false =>
    rw [blocks_of_not_divergeAt hroot hsame,
      blocks_of_not_divergeAt hroot' ((Node.sameContent_comm second first).trans hsame),
      blocksIn_comm h]

/-- The versions diverge at the same places, whichever is called the first. -/
theorem blocks_comm (s : Store α) (first second : Node) :
    blocks s first second = blocks s second first := by
  induction first generalizing second with
  | leaf => exact blocks_comm_of_children nofun
  | inner id kind span children ih => exact blocks_comm_of_children ih

theorem drawCutoffs_comm (first second : Node) (paths : List ChildPath) (rng : WordStream) :
    drawCutoffs first second paths rng = drawCutoffs second first paths rng := by
  induction paths generalizing rng with
  | nil => rfl
  | cons path paths ih =>
    unfold drawCutoffs
    rw [min_comm]
    simp only [ih]

/-! ## Children -/

/-- At every block the first child of one crossover gets what the second child of the other gets. -/
theorem Crosses.content_eq {paths : List ChildPath} {rng rest rest' : WordStream}
    {p q p' q' : Progress} {s' s₂' : Store α} (h : Crosses first second paths rng p s p' rest s')
    (h' : Crosses second first paths rng q s₂ q' rest' s₂')
    (hfirst : p.first.content = q.second.content) (hsecond : p.second.content = q.first.content) :
    p'.first.content = q'.second.content ∧ p'.second.content = q'.first.content := by
  induction h generalizing q s₂ with
  | done =>
    cases h'
    exact ⟨hfirst, hsecond⟩
  | block hdraw hx hy _ ih =>
    cases h' with
    | block hdraw' hy' hx' later' =>
      rw [min_comm, hdraw, Prod.mk.injEq] at hdraw'
      obtain ⟨rfl, rfl⟩ := hdraw'
      exact ih later' (hx.content_eq hx' hfirst rfl) (hy.content_eq hy' hsecond rfl)

/-- Two versions that differ in copies on the way to some places only. -/
structure Twins (paths : List ChildPath) (n m : Node) : Prop where
  content_eq : n.content = m.content
  sameContent : m.sameContent n = true
  descend_eq : ∀ q, (∀ p ∈ paths, ¬ q <+: p) → m.descend q = n.descend q

/-- Parents that change places, now or later, do not diverge either way, or have the same children
in the other order. The same words are drawn. -/
theorem cross_swap (hfirst : s.Holds first) (hsecond : s.Holds second) (hlater : s.Extends s₂)
    (rng : WordStream) :
    (blocks s first second = [] ∧ cross first second rng s = ((.alike, rng), s) ∧
        cross second first rng s₂ = ((.alike, rng), s₂)) ∨
      (blocks s first second ≠ [] ∧ ∃ x y x₂ y₂ rng' s' s₂',
        cross first second rng s =
          ((.offspring x y (blocks s first second).length, rng'), s') ∧
        cross second first rng s₂ =
          ((.offspring y₂ x₂ (blocks s first second).length, rng'), s₂') ∧
        Twins (blocks s first second) x x₂ ∧ Twins (blocks s first second) y y₂) := by
  have hfirst₂ := hfirst.mono hlater.next_le
  have hsecond₂ := hsecond.mono hlater.next_le
  have hblocks : blocks s₂ second first = blocks s first second :=
    (blocks_of_extends hsecond hfirst hlater).trans (blocks_comm s second first)
  obtain ⟨hnone, hcross⟩ | ⟨hsome, x, y, s', hcross, hcrosses⟩ := cross_spec hfirst hsecond rng
  · obtain ⟨-, hcross'⟩ | ⟨hsome, -⟩ := cross_spec hsecond₂ hfirst₂ rng
    · exact .inl ⟨hnone, hcross, hcross'⟩
    · exact absurd (hblocks.trans hnone) hsome
  · obtain ⟨hnone, -⟩ | ⟨-, y₂, x₂, s₂', hcross', hcrosses'⟩ := cross_spec hsecond₂ hfirst₂ rng
    · exact absurd (hblocks.symm.trans hnone) hsome
    rw [hblocks, drawCutoffs_comm second first] at hcross' hcrosses'
    obtain ⟨hx, hy⟩ := hcrosses.content_eq hcrosses' rfl rfl
    have hawaits := awaits_blocks hsecond₂ hfirst₂
    rw [hblocks] at hawaits
    obtain ⟨-, hrx, hry⟩ := hcrosses.rearranged (awaits_blocks hfirst hsecond)
    obtain ⟨-, hry', hrx'⟩ := hcrosses'.rearranged hawaits
    rw [drawCutoffs_comm second first] at hry' hrx'
    refine .inr ⟨hsome, x, y, x₂, y₂, _, s', s₂', hcross, hcross', ⟨hx, ?_, fun q hq => ?_⟩,
      ⟨hy, ?_, fun q hq => ?_⟩⟩
    · exact Node.sameContent_of_content_eq hx.symm
    · exact hrx.descend_eq hrx' fun c hc => hq c.1 (mem_of_mem_changes hc)
    · exact Node.sameContent_of_content_eq hy.symm
    · exact hry.descend_eq hry' fun c hc => hq c.1 (mem_of_mem_changes hc)

open TwoMethods in
/-- The versions are crossed, and then the other way round with the same words. -/
theorem cross_swap_twoMethods :
    ∃ later, marks.Holds program ∧ marks.Holds version ∧ marks.Extends later ∧
      ∃ x y x₂ y₂ rng',
        cross program version (.ofList [0x80000000, 0]) marks =
          ((.offspring x y 2, rng'), later) ∧
        (cross version program (.ofList [0x80000000, 0]) later).1 = (.offspring y₂ x₂ 2, rng') ∧
        Twins [[0], [1]] x x₂ ∧ Twins [[0], [1]] y y₂ := by
  have hgrown := cross_extends program version (.ofList [0x80000000, 0]) marks
  obtain ⟨hnone, -⟩ | ⟨-, x, y, x₂, y₂, rng', s', s₂', hcross, hcross', hx, hy⟩ :=
    cross_swap holds_program holds_version hgrown (.ofList [0x80000000, 0])
  · exact absurd (blocks_program.symm.trans hnone) nofun
  · rw [hcross] at hgrown hcross'
    rw [blocks_program] at hcross hcross' hx hy
    exact ⟨s', holds_program, holds_version, hgrown, x, y, x₂, y₂, rng', hcross,
      congrArg Prod.fst hcross', hx, hy⟩

end Crossover

end GeneticRepair
