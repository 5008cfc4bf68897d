import GeneticRepair.Proofs.Evolution.Crossing
import GeneticRepair.Proofs.Syntax.Contents
import GeneticRepair.Proofs.Syntax.Forest
import Mathlib.Data.List.Lex

/-!
# `Proofs/Evolution/Diverging.lean` — where two versions diverge

The search for blocks goes down two versions in step and stops where it finds a leaf, one content on
both sides or a block. It misses nothing by that: below a leaf there is no place, below nodes of one
content all contents are the same, and what lies below a block is not outermost. So the blocks are
the places at which the versions diverge and above which they do not (`blocks_exact`).
-/

set_option autoImplicit false

namespace GeneticRepair.Crossover

variable {α : Type} [Scalar α] {s : Store α} {first second : Node} {path : ChildPath}

theorem divergeAt_nil : DivergeAt s first second [] ↔
    first.isLeaf = false ∧ second.isLeaf = false ∧ first.sameContent second = false ∧
      (holdsSuspicious s first = true ∨ holdsSuspicious s second = true) := by
  constructor
  · rintro ⟨a, b, ha, hb, h⟩
    obtain rfl := Option.some.inj ha
    obtain rfl := Option.some.inj hb
    exact h
  · exact fun h => ⟨first, second, rfl, rfl, h⟩

theorem divergeAt_cons {i : Nat} : DivergeAt s first second (i :: path) ↔
    ∃ a b, first.children[i]? = some a ∧ second.children[i]? = some b ∧ DivergeAt s a b path := by
  constructor
  · rintro ⟨x, y, hx, hy, h⟩
    obtain ⟨a, ha, hx⟩ := Option.bind_eq_some_iff.mp hx
    obtain ⟨b, hb, hy⟩ := Option.bind_eq_some_iff.mp hy
    exact ⟨a, b, ha, hb, x, y, hx, hy, h⟩
  · rintro ⟨a, b, ha, hb, x, y, hx, hy, h⟩
    refine ⟨x, y, ?_, ?_, h⟩
    · rwa [Node.descend_cons ha]
    · rwa [Node.descend_cons hb]

/-- Versions with one content diverge nowhere. -/
theorem not_divergeAt_of_content_eq (h : first.content = second.content) (path : ChildPath) :
    ¬ DivergeAt s first second path := by
  rintro ⟨a, b, ha, hb, -, -, hdiffer, -⟩
  have hab := Node.descend_of_content_eq h path
  rw [ha, hb, Option.map_some, Option.map_some, Option.some.injEq] at hab
  rw [Node.sameContent_of_content_eq hab] at hdiffer
  cases hdiffer

/-- The versions diverge at a place, and nowhere on the way to it. -/
def DivergeFirst (s : Store α) (first second : Node) (path : ChildPath) : Prop :=
  DivergeAt s first second path ∧ ∀ q, q <+: path → q ≠ path → ¬ DivergeAt s first second q

theorem divergeFirst_nil : DivergeFirst s first second [] ↔ DivergeAt s first second [] :=
  and_iff_left fun _ hq hne => absurd (List.prefix_nil.mp hq) hne

theorem divergeFirst_cons {i : Nat} : DivergeFirst s first second (i :: path) ↔
    ¬ DivergeAt s first second [] ∧ ∃ a b, first.children[i]? = some a ∧
      second.children[i]? = some b ∧ DivergeFirst s a b path := by
  constructor
  · rintro ⟨h, hfirst⟩
    obtain ⟨a, b, ha, hb, hbelow⟩ := divergeAt_cons.mp h
    refine ⟨hfirst [] List.nil_prefix nofun, a, b, ha, hb, hbelow, fun q hq hne hdiverge => ?_⟩
    refine hfirst (i :: q) (List.cons_prefix_cons.mpr ⟨rfl, hq⟩) (fun heq => hne ?_)
      (divergeAt_cons.mpr ⟨a, b, ha, hb, hdiverge⟩)
    exact (List.cons.inj heq).2
  · rintro ⟨hroot, a, b, ha, hb, hbelow, hfirst⟩
    refine ⟨divergeAt_cons.mpr ⟨a, b, ha, hb, hbelow⟩, fun q hq hne hdiverge => ?_⟩
    cases q with
    | nil => exact hroot hdiverge
    | cons j q =>
      obtain ⟨hij, hbelow'⟩ := List.cons_prefix_cons.mp hq
      subst hij
      obtain ⟨a', b', ha', hb', hdiverge⟩ := divergeAt_cons.mp hdiverge
      obtain rfl := Option.some.inj (ha.symm.trans ha')
      obtain rfl := Option.some.inj (hb.symm.trans hb')
      exact hfirst q hbelow' (fun heq => hne (congrArg _ heq)) hdiverge

/-! ## The search -/

theorem blocks_of_divergeAt (h : DivergeAt s first second []) : blocks s first second = [[]] := by
  obtain ⟨hinner, hinner', hdiffer, hsuspicious⟩ := divergeAt_nil.mp h
  cases first with
  | leaf => cases hinner
  | inner id kind span children =>
    rw [← Bool.or_eq_true] at hsuspicious
    unfold blocks
    simp only [hdiffer, hinner', hsuspicious, Bool.or_self, Bool.false_eq_true, if_false, if_true]

theorem blocks_of_sameContent (h : first.sameContent second = true) :
    blocks s first second = [] := by
  cases first with
  | leaf =>
    unfold blocks
    rfl
  | inner id kind span children =>
    unfold blocks
    simp only [h, Bool.true_or, if_true]

/-- The search goes down unless the nodes are a block or of one content. -/
theorem blocks_of_not_divergeAt (h : ¬ DivergeAt s first second [])
    (hdiffer : first.sameContent second = false) :
    blocks s first second = blocksIn s 0 first.children second.children := by
  cases first with
  | leaf =>
    unfold blocks blocksIn
    rfl
  | inner id kind span children =>
    unfold blocks
    simp only [hdiffer, Bool.false_or]
    split
    · next hleaf =>
      cases second with
      | inner => cases hleaf
      | leaf =>
        unfold blocksIn
        cases children <;> rfl
    · next hinner =>
      rw [if_neg]
      · rfl
      · rw [Bool.or_eq_true]
        exact fun hsuspicious => h (divergeAt_nil.mpr
          ⟨rfl, Bool.eq_false_iff.mpr hinner, hdiffer, hsuspicious⟩)

theorem mem_blocks_iff
    (hid : ∀ m ∈ first.preorder, ∀ m' ∈ second.preorder, m.id = m'.id → m = m') :
    path ∈ blocks s first second ↔ DivergeFirst s first second path := by
  induction path generalizing first second with
  | nil =>
    rw [divergeFirst_nil]
    refine ⟨divergeAt_of_mem_blocks, fun h => ?_⟩
    rw [blocks_of_divergeAt h]
    exact List.mem_singleton_self _
  | cons i path ih =>
    by_cases hroot : DivergeAt s first second []
    · rw [blocks_of_divergeAt hroot, List.mem_singleton, divergeFirst_cons]
      exact ⟨nofun, fun h => absurd hroot h.1⟩
    cases hsame : first.sameContent second with
    | true =>
      rw [blocks_of_sameContent hsame]
      refine ⟨nofun, fun h => ?_⟩
      exact absurd h.1 (not_divergeAt_of_content_eq ((Node.sameContent_iff hid).mp hsame) _)
    | false =>
      rw [blocks_of_not_divergeAt hroot hsame, mem_blocksIn, divergeFirst_cons,
        and_iff_right hroot]
      simp only [Nat.zero_add]
      have hbelow {j : Nat} {a b : Node} (ha : first.children[j]? = some a)
          (hb : second.children[j]? = some b) :
          path ∈ blocks s a b ↔ DivergeFirst s a b path :=
        ih fun m hm m' hm' =>
          hid m (Node.mem_preorder_of_mem_child (List.mem_of_getElem? ha) hm) m'
            (Node.mem_preorder_of_mem_child (List.mem_of_getElem? hb) hm')
      constructor
      · rintro ⟨j, a, b, below, ha, hb, heq, hmem⟩
        obtain ⟨rfl, rfl⟩ := List.cons.inj heq
        exact ⟨a, b, ha, hb, (hbelow ha hb).mp hmem⟩
      · rintro ⟨a, b, ha, hb, h⟩
        exact ⟨i, a, b, path, ha, hb, rfl, (hbelow ha hb).mpr h⟩

/-- The blocks are found in the order of their places. -/
theorem ascending_blocks (s : Store α) (first second : Node) :
    (blocks s first second).Pairwise (· < ·) :=
  pairwise_blocks_of (fun _ _ _ h => List.cons_lt_cons_iff.mpr (.inr ⟨rfl, h⟩))
    (fun _ _ _ _ h => List.cons_lt_cons_iff.mpr (.inl h)) s first second

/-- The blocks are the places at which two versions diverge first. They are listed in ascending
order, none twice and none below another. -/
theorem blocks_exact (hforest : s.Forest [first, second]) :
    (∀ path, path ∈ blocks s first second ↔
      DivergeAt s first second path ∧
        ∀ q, q <+: path → q ≠ path → ¬ DivergeAt s first second q) ∧
      (blocks s first second).Pairwise (· < ·) ∧ (blocks s first second).Nodup ∧
      ∀ p ∈ blocks s first second, ∀ q ∈ blocks s first second, p <+: q → p = q := by
  have hid : ∀ m ∈ first.preorder, ∀ m' ∈ second.preorder, m.id = m'.id → m = m' :=
    hforest.eq_of_id_eq first (by simp) second (by simp)
  have hascending := ascending_blocks s first second
  refine ⟨fun path => mem_blocks_iff hid, hascending, hascending.imp fun h => ne_of_lt h, ?_⟩
  intro p hp q hq hpq
  by_contra hne
  exact ((mem_blocks_iff hid).mp hq).2 p hpq hne (divergeAt_of_mem_blocks hp)

namespace TwoMethods

theorem forest_versions : marks.Forest [program, version] := by
  refine .of_nodes (version :: version.children ++ program.preorder) (by decide +kernel)
    (by decide +kernel) ?_
  have hversion : version.preorder = [version, .make 9 .method [writing], writing,
    token 2 "write" 2, .make 10 .method [opening, closing], opening, token 0 "open" 1, closing,
    token 4 "close" 3] := rfl
  have hprogram : program.preorder = [program, .make 6 .method [opening, writing], opening,
    token 0 "open" 1, writing, token 2 "write" 2, .make 7 .method [closing], closing,
    token 4 "close" 3] := rfl
  have hmethods : version.children = [.make 9 .method [writing],
    .make 10 .method [opening, closing]] := rfl
  refine List.forall_mem_cons.mpr ⟨List.subset_append_right _ _, ?_⟩
  refine List.forall_mem_cons.mpr ⟨?_, nofun⟩
  rw [hversion, hprogram, hmethods]
  simp

end TwoMethods

open TwoMethods in
/-- The two methods diverge, and the versions themselves have no statement of their own. -/
theorem blocks_exact_twoMethods : marks.Forest [program, version] ∧
    (∀ path, path ∈ blocks marks program version ↔
      DivergeAt marks program version path ∧
        ∀ q, q <+: path → q ≠ path → ¬ DivergeAt marks program version q) ∧
    blocks marks program version = [[0], [1]] :=
  ⟨forest_versions, (blocks_exact forest_versions).1, blocks_program⟩

end GeneticRepair.Crossover
