import GeneticRepair.Proofs.Evolution.Versions
import GeneticRepair.Proofs.Syntax.Rearranging

/-!
# `Proofs/Evolution/Crossing.lean` — what a crossover exchanges

The blocks at which two versions diverge are inner nodes in both of them, and no block lies below
another (`DivergeAt`, `pairwise_blocks`). So every block is still in its place when its turn comes,
none of the ways out of `crossBlock` is ever taken, and a crossover is one pair of edits for each
block (`Crosses`).

* `cross_exact`: all that a crossover draws, answers, exchanges and leaves alone.
-/

set_option autoImplicit false

namespace GeneticRepair

/-- A draw lies below its bound. -/
theorem WordStream.below_lt {n : Nat} (hn : 0 < n) (rng : WordStream) : (rng.below n).1 < n := by
  have hword (w : UInt32) : w.toNat * n ≤ (Nat.pow 2 32 - 1) * n :=
    Nat.mul_le_mul_right n (Nat.le_sub_one_of_lt w.toNat_lt)
  have hfirst := hword rng.next32.1
  have hsecond := hword rng.next32.2.next32.1
  unfold below
  simp only []
  -- both words together, scaled, stay below `n` times the range of a word
  generalize rng.next32.1.toNat * n = scaled at *
  generalize rng.next32.2.next32.1.toNat * n = carried at *
  simp only [Nat.pow_eq, Nat.reducePow, Nat.reduceSub] at *
  split
  · simp only []
    split <;> omega
  · simp only []
    omega

namespace Crossover

variable {α : Type} [Scalar α] {s : Store α} {first second : Node} {path : ChildPath}

/-! ## Blocks -/

/-- Two versions have different inner nodes at a place, and one of them holds a suspicious
statement. -/
def DivergeAt (s : Store α) (first second : Node) (path : ChildPath) : Prop :=
  ∃ a b, first.descend path = some a ∧ second.descend path = some b ∧
    a.isLeaf = false ∧ b.isLeaf = false ∧ a.sameContent b = false ∧
    (holdsSuspicious s a = true ∨ holdsSuspicious s b = true)

/-- The blocks below two lists of children are those of any two with the same index. -/
theorem mem_blocksIn {as bs : List Node} {index : Nat} :
    path ∈ blocksIn s index as bs ↔
      ∃ j a b below, as[j]? = some a ∧ bs[j]? = some b ∧ path = (index + j) :: below ∧
        below ∈ blocks s a b := by
  induction as generalizing index bs with
  | nil =>
    unfold blocksIn
    simp
  | cons a as ih =>
    cases bs with
    | nil =>
      unfold blocksIn
      simp
    | cons b bs =>
      unfold blocksIn
      rw [List.mem_append, List.mem_map, ih]
      constructor
      · rintro (⟨below, hbelow, rfl⟩ | ⟨j, a', b', below, ha, hb, rfl, hbelow⟩)
        · exact ⟨0, a, b, below, rfl, rfl, rfl, hbelow⟩
        · refine ⟨j + 1, a', b', below, ha, hb, ?_, hbelow⟩
          rw [Nat.add_assoc, Nat.add_comm 1]
      · rintro ⟨_ | j, a', b', below, ha, hb, rfl, hbelow⟩
        · obtain rfl := Option.some.inj ha
          obtain rfl := Option.some.inj hb
          exact .inl ⟨below, hbelow, rfl⟩
        · refine .inr ⟨j, a', b', below, ha, hb, ?_, hbelow⟩
          rw [Nat.add_assoc, Nat.add_comm 1]

theorem divergeAt_of_mem_blocks (h : path ∈ blocks s first second) :
    DivergeAt s first second path := by
  induction first generalizing second path with
  | leaf =>
    unfold blocks at h
    cases h
  | inner id kind span children ih =>
    unfold blocks at h
    simp only [] at h
    split at h
    · cases h
    · next hdiffer =>
      rw [Bool.or_eq_true, not_or, Bool.not_eq_true, Bool.not_eq_true] at hdiffer
      split at h
      · next hsuspicious =>
        rw [Bool.or_eq_true] at hsuspicious
        obtain rfl := List.mem_singleton.mp h
        exact ⟨_, second, rfl, rfl, rfl, hdiffer.2, hdiffer.1, hsuspicious⟩
      · obtain ⟨j, a, b, below, ha, hb, rfl, hbelow⟩ := mem_blocksIn.mp h
        obtain ⟨x, y, hx, hy, hrest⟩ := ih a (List.mem_of_getElem? ha) hbelow
        rw [Nat.zero_add]
        refine ⟨x, y, ?_, ?_, hrest⟩
        · rwa [Node.descend_cons ha]
        · rwa [Node.descend_cons hb]

section

variable {R : ChildPath → ChildPath → Prop} (hcons : ∀ i p q, R p q → R (i :: p) (i :: q))
  (hlt : ∀ i j p q, i < j → R (i :: p) (j :: q))

include hcons hlt

theorem pairwise_blocksIn {as bs : List Node} (h : ∀ a ∈ as, ∀ b, (blocks s a b).Pairwise R)
    (index : Nat) : (blocksIn s index as bs).Pairwise R := by
  induction as generalizing index bs with
  | nil =>
    unfold blocksIn
    exact .nil
  | cons a as ih =>
    cases bs with
    | nil =>
      unfold blocksIn
      exact .nil
    | cons b bs =>
      unfold blocksIn
      refine List.pairwise_append.mpr ⟨?_, ?_, fun p hp q hq => ?_⟩
      · rw [List.pairwise_map]
        exact (h a List.mem_cons_self b).imp (hcons index _ _)
      · exact ih (fun a ha => h a (List.mem_cons_of_mem _ ha)) (index + 1)
      · -- later children have greater indices
        obtain ⟨p, -, rfl⟩ := List.mem_map.mp hp
        obtain ⟨j, -, -, q, -, -, rfl, -⟩ := mem_blocksIn.mp hq
        exact hlt _ _ _ _ (by omega)

/-- Any two blocks are related in their order if places below children with different indices are,
and places below one child when they are below it. -/
theorem pairwise_blocks_of (s : Store α) (first second : Node) :
    (blocks s first second).Pairwise R := by
  induction first generalizing second with
  | leaf =>
    unfold blocks
    exact .nil
  | inner id kind span children ih =>
    unfold blocks
    simp only []
    split
    · exact .nil
    · split
      · exact List.pairwise_singleton _ _
      · exact pairwise_blocksIn hcons hlt ih 0

end

/-- No block lies below another one. -/
theorem pairwise_blocks (s : Store α) (first second : Node) :
    (blocks s first second).Pairwise Apart :=
  pairwise_blocks_of (fun i _ _ => .cons i) (fun _ _ p q h => .of_ne (Nat.ne_of_lt h) p q) s first
    second

/-! ## Cutoffs -/

/-- The cutoffs for some blocks: one number is drawn for each, in order, up to the length of the
shorter list of children there. -/
def drawCutoffs (first second : Node) :
    List ChildPath → WordStream → List (ChildPath × Nat) × WordStream
  | [], rng => ([], rng)
  | path :: paths, rng =>
    let (cutoff, rng) :=
      rng.below (min (first.childrenAt path).length (second.childrenAt path).length + 1)
    let (cutoffs, rng) := drawCutoffs first second paths rng
    ((path, cutoff) :: cutoffs, rng)

theorem drawCutoffs_cons {rng rest : WordStream} {cutoff : Nat}
    (hdraw : rng.below (min (first.childrenAt path).length (second.childrenAt path).length + 1) =
      (cutoff, rest)) (paths : List ChildPath) :
    drawCutoffs first second (path :: paths) rng =
      ((path, cutoff) :: (drawCutoffs first second paths rest).1,
        (drawCutoffs first second paths rest).2) := by
  rw [drawCutoffs, hdraw]

theorem map_fst_drawCutoffs (first second : Node) (paths : List ChildPath) (rng : WordStream) :
    (drawCutoffs first second paths rng).1.map Prod.fst = paths := by
  induction paths generalizing rng with
  | nil => rfl
  | cons path paths ih => exact congrArg _ (ih _)

theorem cutoff_le (first second : Node) (paths : List ChildPath) (rng : WordStream) :
    ∀ c ∈ (drawCutoffs first second paths rng).1,
      c.2 ≤ min (first.childrenAt c.1).length (second.childrenAt c.1).length := by
  induction paths generalizing rng with
  | nil => exact nofun
  | cons path paths ih =>
    refine List.forall_mem_cons.mpr ⟨?_, ih _⟩
    exact Nat.le_of_lt_succ (WordStream.below_lt (Nat.succ_pos _) rng)

/-- What the children at the blocks of one version become: its own up to the cutoff, and those of
the other one behind it. -/
def changes (own other : Node) (cutoffs : List (ChildPath × Nat)) :
    List (ChildPath × List Node) :=
  cutoffs.map fun c => (c.1, (own.childrenAt c.1).take c.2 ++ (other.childrenAt c.1).drop c.2)

/-- A cutoff that has been drawn needs no correction. -/
theorem splice_eq {β : Type} {a b : List β} {cutoff : Nat} (h : cutoff ≤ min a.length b.length) :
    splice a b cutoff = (a.take cutoff ++ b.drop cutoff, b.take cutoff ++ a.drop cutoff) := by
  have hc : min (min cutoff a.length) b.length = cutoff := by omega
  unfold splice
  rw [hc]

/-! ## One block -/

/-- An inner node can be given other children wherever it stands. -/
theorem isSome_graft {t was : Node} (hs : s.Holds t) (hwas : t.descend path = some was)
    (hinner : was.isLeaf = false) (kids : List Node) :
    ∃ t', (graft t path kids s).1 = some t' := by
  have hsome := Node.isSome_copySpine t path s
  rw [hwas, Option.isSome_some] at hsome
  obtain ⟨spine, hspine⟩ := Option.isSome_iff_exists.mp hsome
  obtain ⟨old, hcopied⟩ := Node.copied_of_copySpine hs (Prod.ext hspine rfl)
  obtain rfl : was = old := Option.some.inj (hwas.symm.trans hcopied.copies.descend_eq)
  unfold graft
  rw [bind_apply, hspine]
  obtain ⟨ancestors, target⟩ := spine
  obtain rfl : target = was.withId (s.next + path.length) := hcopied.target_eq
  cases was with
  | leaf => cases hinner
  | inner id kind span children => exact ⟨_, rfl⟩

/-- A crossover under way from one pair of versions to another: at every block a cutoff is drawn,
and the two versions get the children of the parents that it calls for. -/
inductive Crosses (first second : Node) : List ChildPath → WordStream → Progress → Store α →
    Progress → WordStream → Store α → Prop where
  | done {rng : WordStream} {p : Progress} {s : Store α} : Crosses first second [] rng p s p rng s
  | block {path : ChildPath} {paths : List ChildPath} {rng rest rng' : WordStream}
      {p p' : Progress} {s s₁ s₂ s' : Store α} {x y : Node} {cutoff : Nat}
      (hdraw : rng.below (min (first.childrenAt path).length (second.childrenAt path).length + 1) =
        (cutoff, rest))
      (hx : EditedAt path [.replace ((first.childrenAt path).take cutoff ++
        (second.childrenAt path).drop cutoff)] s s₁ p.first x [.ok none])
      (hy : EditedAt path [.replace ((second.childrenAt path).take cutoff ++
        (first.childrenAt path).drop cutoff)] s₁ s₂ p.second y [.ok none])
      (later : Crosses first second paths rest ⟨x, y, p.crossed + 1⟩ s₂ p' rng' s') :
      Crosses first second (path :: paths) rng p s p' rng' s'

/-- Some blocks are still to come: they are apart from each other, and what stands there in the
parents still does in the versions made so far. -/
structure Awaits (first second : Node) (paths : List ChildPath) (p : Progress) (s : Store α) :
    Prop where
  apart : paths.Pairwise Apart
  first_at : ∀ path ∈ paths, ∃ a, first.descend path = some a ∧ p.first.descend path = some a ∧
    a.isLeaf = false
  second_at : ∀ path ∈ paths, ∃ b, second.descend path = some b ∧
    p.second.descend path = some b ∧ b.isLeaf = false
  holds_first : s.Holds first ∧ s.Holds p.first
  holds_second : s.Holds second ∧ s.Holds p.second

omit [Scalar α] in
/-- The children that a block gets are nodes of the parents. -/
theorem holds_exchanged {own other : Node} (hown : s.Holds own) (hother : s.Holds other)
    (path : ChildPath) (cutoff : Nat) :
    ∀ k ∈ (own.childrenAt path).take cutoff ++ (other.childrenAt path).drop cutoff,
      s.Holds k := by
  intro k hk
  obtain hk | hk := List.mem_append.mp hk
  · exact hown.childrenAt path k (List.mem_of_mem_take hk)
  · exact hother.childrenAt path k (List.mem_of_mem_drop hk)

/-- At a block that is still to come both versions are given other children. -/
theorem crossBlock_spec {paths : List ChildPath} {p : Progress} (rng : WordStream)
    (h : Awaits first second (path :: paths) p s) {cutoff : Nat} {rest : WordStream}
    (hdraw : rng.below (min (first.childrenAt path).length (second.childrenAt path).length + 1) =
      (cutoff, rest)) :
    ∃ x y s₁ s₂, crossBlock first second path p rng s = ((⟨x, y, p.crossed + 1⟩, rest), s₂) ∧
      EditedAt path [.replace ((first.childrenAt path).take cutoff ++
        (second.childrenAt path).drop cutoff)] s s₁ p.first x [.ok none] ∧
      EditedAt path [.replace ((second.childrenAt path).take cutoff ++
        (first.childrenAt path).drop cutoff)] s₁ s₂ p.second y [.ok none] := by
  obtain ⟨a, ha, hpa, hinner⟩ := h.first_at path List.mem_cons_self
  obtain ⟨b, hb, hpb, hinner'⟩ := h.second_at path List.mem_cons_self
  have hle : cutoff ≤ min (first.childrenAt path).length (second.childrenAt path).length := by
    have hlt := WordStream.below_lt (Nat.succ_pos
      (min (first.childrenAt path).length (second.childrenAt path).length)) rng
    rw [Nat.succ_eq_add_one, hdraw] at hlt
    exact Nat.le_of_lt_succ hlt
  rw [Node.childrenAt_of_descend ha, Node.childrenAt_of_descend hb] at hdraw hle ⊢
  obtain ⟨x, hx⟩ := isSome_graft h.holds_first.2 hpa hinner
    (a.children.take cutoff ++ b.children.drop cutoff)
  have hgrown := graft_extends p.first path (a.children.take cutoff ++ b.children.drop cutoff) s
  generalize hs₁ : (graft p.first path (a.children.take cutoff ++ b.children.drop cutoff) s).2 = s₁
    at hgrown
  have hholds : s₁.Holds p.second := h.holds_second.2.mono hgrown.next_le
  obtain ⟨y, hy⟩ := isSome_graft hholds hpb hinner'
    (b.children.take cutoff ++ a.children.drop cutoff)
  refine ⟨x, y, s₁, _, ?_, graft_spec h.holds_first.2 (Prod.ext hx hs₁),
    graft_spec hholds (Prod.ext hy rfl)⟩
  unfold crossBlock
  rw [ha, hb]
  simp only []
  rw [hdraw]
  simp only []
  rw [splice_eq hle, bind_apply, hx, hs₁]
  simp only []
  rw [bind_apply, hy]
  rfl

/-- The other blocks are still to come. -/
theorem Awaits.next {paths : List ChildPath} {p : Progress} {s₁ s₂ : Store α} {x y : Node}
    {cutoff : Nat} (h : Awaits first second (path :: paths) p s)
    (hx : EditedAt path [.replace ((first.childrenAt path).take cutoff ++
      (second.childrenAt path).drop cutoff)] s s₁ p.first x [.ok none])
    (hy : EditedAt path [.replace ((second.childrenAt path).take cutoff ++
      (first.childrenAt path).drop cutoff)] s₁ s₂ p.second y [.ok none]) (crossed : Nat) :
    Awaits first second paths ⟨x, y, crossed⟩ s₂ := by
  obtain ⟨hpath, hpaths⟩ := List.pairwise_cons.mp h.apart
  have hfirst := h.holds_first.1.mono hx.grown.next_le
  have hsecond := h.holds_second.1.mono hx.grown.next_le
  refine ⟨hpaths, fun q hq => ?_, fun q hq => ?_, ⟨hfirst.mono hy.grown.next_le, ?_⟩,
    ⟨hsecond.mono hy.grown.next_le, ?_⟩⟩
  · obtain ⟨a, ha, hpa, hinner⟩ := h.first_at q (List.mem_cons_of_mem _ hq)
    exact ⟨a, ha, (hx.off q (hpath q hq).2 (hpath q hq).1).trans hpa, hinner⟩
  · obtain ⟨b, hb, hpb, hinner⟩ := h.second_at q (List.mem_cons_of_mem _ hq)
    exact ⟨b, hb, (hy.off q (hpath q hq).2 (hpath q hq).1).trans hpb, hinner⟩
  · refine (hx.holds h.holds_first.2 fun e he => ?_).mono hy.grown.next_le
    obtain rfl := List.mem_singleton.mp he
    exact holds_exchanged h.holds_first.1 h.holds_second.1 path cutoff
  · refine hy.holds (h.holds_second.2.mono hx.grown.next_le) fun e he => ?_
    obtain rfl := List.mem_singleton.mp he
    exact holds_exchanged hsecond hfirst path cutoff

/-! ## All blocks -/

/-- None of the blocks is skipped. -/
theorem crosses_crossBlocks {paths : List ChildPath} {p : Progress} (rng : WordStream)
    (h : Awaits first second paths p s) :
    ∃ x y s', crossBlocks first second paths p rng s =
        ((⟨x, y, p.crossed + paths.length⟩, (drawCutoffs first second paths rng).2), s') ∧
      Crosses first second paths rng p s ⟨x, y, p.crossed + paths.length⟩
        (drawCutoffs first second paths rng).2 s' := by
  induction paths generalizing p rng s with
  | nil => exact ⟨p.first, p.second, s, rfl, .done⟩
  | cons path paths ih =>
    obtain ⟨⟨cutoff, rest⟩, hdraw⟩ : ∃ drawn, rng.below (min (first.childrenAt path).length
      (second.childrenAt path).length + 1) = drawn := ⟨_, rfl⟩
    obtain ⟨x, y, s₁, s₂, hblock, hx, hy⟩ := crossBlock_spec rng h hdraw
    obtain ⟨x', y', s', hblocks, hlater⟩ := ih rest (h.next hx hy (p.crossed + 1))
    have hcount : p.crossed + 1 + paths.length = p.crossed + (path :: paths).length := by
      rw [List.length_cons, Nat.add_assoc, Nat.add_comm 1]
    rw [hcount] at hblocks hlater
    rw [drawCutoffs_cons hdraw]
    refine ⟨x', y', s', ?_, .block hdraw hx hy hlater⟩
    unfold crossBlocks
    rw [bind_apply, hblock]
    exact hblocks

theorem mem_of_mem_changes {own other : Node} {paths : List ChildPath} {rng : WordStream}
    {c : ChildPath × List Node}
    (hc : c ∈ changes own other (drawCutoffs first second paths rng).1) : c.1 ∈ paths := by
  obtain ⟨d, hd, rfl⟩ := List.mem_map.mp hc
  rw [← map_fst_drawCutoffs first second paths rng]
  exact List.mem_map_of_mem hd

/-- Either version ends up with its own children up to the cutoffs and those of the other parent
behind them. -/
theorem Crosses.rearranged {paths : List ChildPath} {rng rng' : WordStream} {p p' : Progress}
    {s' : Store α} (h : Crosses first second paths rng p s p' rng' s')
    (ha : Awaits first second paths p s) :
    s.Extends s' ∧
      Rearranged (changes first second (drawCutoffs first second paths rng).1) s s' p.first
        p'.first ∧
      Rearranged (changes second first (drawCutoffs first second paths rng).1) s s' p.second
        p'.second := by
  induction h with
  | done => exact ⟨Store.Extends.refl _, .nil _ _ _, .nil _ _ _⟩
  | @block path paths rng rest rng' p p' s s₁ s₂ s' x y cutoff hdraw hx hy _ ih =>
    obtain ⟨hgrown, hfirst, hsecond⟩ := ih (ha.next hx hy (p.crossed + 1))
    have hapart {own other : Node} : ∀ c ∈ changes own other
        (drawCutoffs first second paths rest).1, Apart path c.1 :=
      fun c hc => (List.pairwise_cons.mp ha.apart).1 c.1 (mem_of_mem_changes hc)
    have hown := ha.holds_first.1
    have hother := ha.holds_second.1
    rw [drawCutoffs_cons hdraw]
    refine ⟨(hx.grown.trans hy.grown).trans hgrown, ?_, ?_⟩
    · exact .cons ha.holds_first.2 (holds_exchanged hown hother path cutoff) hx hy.grown hgrown
        hfirst hapart
    · have hnext := hx.grown.next_le
      have hmade : Rearranged _ s₁ s' p.second p'.second :=
        .cons (ha.holds_second.2.mono hnext)
          (holds_exchanged (hother.mono hnext) (hown.mono hnext) path cutoff) hy
          (Store.Extends.refl s₂) hgrown hsecond hapart
      exact hmade.since ha.holds_second.2 hx.grown

/-- At the start of a crossover all its blocks are to come. -/
theorem awaits_blocks (hfirst : s.Holds first) (hsecond : s.Holds second) :
    Awaits first second (blocks s first second) ⟨first, second, 0⟩ s := by
  refine ⟨pairwise_blocks s first second, fun path h => ?_, fun path h => ?_, ⟨hfirst, hfirst⟩,
    ⟨hsecond, hsecond⟩⟩
  · obtain ⟨a, -, ha, -, hinner, -⟩ := divergeAt_of_mem_blocks h
    exact ⟨a, ha, ha, hinner⟩
  · obtain ⟨-, b, -, hb, -, hinner, -⟩ := divergeAt_of_mem_blocks h
    exact ⟨b, hb, hb, hinner⟩

/-- Two versions with what lies behind a cutoff exchanged at each of some blocks. -/
structure Exchanged (s s' : Store α) (first second x y : Node)
    (cutoffs : List (ChildPath × Nat)) : Prop where
  at_block : ∀ c ∈ cutoffs, ∃ a b a' b', first.descend c.1 = some a ∧
    second.descend c.1 = some b ∧ x.descend c.1 = some a' ∧ y.descend c.1 = some b' ∧
    c.2 ≤ min a.children.length b.children.length ∧
    a'.children = a.children.take c.2 ++ b.children.drop c.2 ∧
    b'.children = b.children.take c.2 ++ a.children.drop c.2
  off : ∀ q, (∀ c ∈ cutoffs, ¬ c.1 <+: q ∧ ¬ q <+: c.1) →
    x.descend q = first.descend q ∧ y.descend q = second.descend q
  along_first : ∀ c ∈ cutoffs, ∀ q, q <+: c.1 → ∃ was now, first.descend q = some was ∧
    x.descend q = some now ∧ now.kind = was.kind ∧ s'.mark now.id = s.mark was.id ∧
    (q ≠ c.1 → now.children.length = was.children.length)
  along_second : ∀ c ∈ cutoffs, ∀ q, q <+: c.1 → ∃ was now, second.descend q = some was ∧
    y.descend q = some now ∧ now.kind = was.kind ∧ s'.mark now.id = s.mark was.id ∧
    (q ≠ c.1 → now.children.length = was.children.length)
  leaves : x.leaves + y.leaves = first.leaves + second.leaves

/-- It does not matter which of the two is called the first. -/
theorem Exchanged.swap {s' : Store α} {x y : Node} {cutoffs : List (ChildPath × Nat)}
    (h : Exchanged s s' first second x y cutoffs) : Exchanged s s' second first y x cutoffs := by
  refine ⟨fun c hc => ?_, fun q hq => (h.off q hq).symm, h.along_second, h.along_first, ?_⟩
  · obtain ⟨a, b, a', b', ha, hb, ha', hb', hle, hkids, hkids'⟩ := h.at_block c hc
    exact ⟨b, a, b', a', hb, ha, hb', ha', by rwa [min_comm], hkids', hkids⟩
  · rw [add_comm, h.leaves, add_comm]

/-- An exchange at a block neither makes nor loses a leaf. -/
theorem allLeaves_exchange (l m : List Node) (cutoff : Nat) :
    Node.allLeaves (l.take cutoff ++ m.drop cutoff) +
      Node.allLeaves (m.take cutoff ++ l.drop cutoff) = Node.allLeaves l + Node.allLeaves m := by
  have hl := Node.allLeaves_append (l.take cutoff) (l.drop cutoff)
  have hm := Node.allLeaves_append (m.take cutoff) (m.drop cutoff)
  rw [List.take_append_drop] at hl hm
  rw [Node.allLeaves_append, Node.allLeaves_append, hl, hm]
  abel

theorem sum_leaves_changes (first second : Node) (cutoffs : List (ChildPath × Nat)) :
    ((changes first second cutoffs).map fun c => Node.allLeaves c.2).sum +
        ((changes second first cutoffs).map fun c => Node.allLeaves c.2).sum =
      ((changes first second cutoffs).map fun c => Node.allLeaves (first.childrenAt c.1)).sum +
        ((changes second first cutoffs).map fun c => Node.allLeaves (second.childrenAt c.1)).sum := by
  induction cutoffs with
  | nil => rfl
  | cons c cutoffs ih =>
    unfold changes at ih ⊢
    simp only [List.map_cons, List.sum_cons]
    rw [add_add_add_comm, allLeaves_exchange, ih, add_add_add_comm]

theorem exchanged_of_rearranged {s' : Store α} {x y : Node} {paths : List ChildPath}
    {rng : WordStream}
    (hx : Rearranged (changes first second (drawCutoffs first second paths rng).1) s s' first x)
    (hy : Rearranged (changes second first (drawCutoffs first second paths rng).1) s s' second y) :
    Exchanged s s' first second x y (drawCutoffs first second paths rng).1 := by
  have hmem {own other : Node} {c : ChildPath × Nat}
      (hc : c ∈ (drawCutoffs first second paths rng).1) :
      (c.1, (own.childrenAt c.1).take c.2 ++ (other.childrenAt c.1).drop c.2) ∈
        changes own other (drawCutoffs first second paths rng).1 := List.mem_map_of_mem hc
  refine ⟨fun c hc => ?_, fun q hq => ⟨hx.off q ?_, hy.off q ?_⟩,
    fun c hc q => hx.along _ (hmem hc) q, fun c hc q => hy.along _ (hmem hc) q, ?_⟩
  · obtain ⟨a, a', ha, ha', -⟩ := hx.along _ (hmem hc) c.1 (List.prefix_refl _)
    obtain ⟨b, b', hb, hb', -⟩ := hy.along _ (hmem hc) c.1 (List.prefix_refl _)
    have hle := cutoff_le first second paths rng c hc
    have hkids := hx.at_change _ (hmem hc)
    have hkids' := hy.at_change _ (hmem hc)
    simp only [Node.childrenAt_of_descend ha, Node.childrenAt_of_descend hb,
      Node.childrenAt_of_descend ha', Node.childrenAt_of_descend hb'] at hle hkids hkids'
    exact ⟨a, b, a', b', ha, hb, ha', hb', hle, hkids, hkids'⟩
  · intro d hd
    obtain ⟨c, hc, rfl⟩ := List.mem_map.mp hd
    exact hq c hc
  · intro d hd
    obtain ⟨c, hc, rfl⟩ := List.mem_map.mp hd
    exact hq c hc
  · have hsum := sum_leaves_changes first second (drawCutoffs first second paths rng).1
    refine add_right_cancel (b := ((changes first second (drawCutoffs first second paths rng).1).map
      fun c => Node.allLeaves (first.childrenAt c.1)).sum +
        ((changes second first (drawCutoffs first second paths rng).1).map
          fun c => Node.allLeaves (second.childrenAt c.1)).sum) ?_
    rw [add_add_add_comm, hx.leaves, hy.leaves, add_add_add_comm, hsum]

/-- A crossover does nothing, or it crosses all blocks. -/
theorem cross_spec (hfirst : s.Holds first) (hsecond : s.Holds second) (rng : WordStream) :
    (blocks s first second = [] ∧ cross first second rng s = ((.alike, rng), s)) ∨
      (blocks s first second ≠ [] ∧ ∃ x y s',
        cross first second rng s = ((.offspring x y (blocks s first second).length,
          (drawCutoffs first second (blocks s first second) rng).2), s') ∧
        Crosses first second (blocks s first second) rng ⟨first, second, 0⟩ s
          ⟨x, y, (blocks s first second).length⟩
          (drawCutoffs first second (blocks s first second) rng).2 s') := by
  have hget : (get : StoreM α (Store α)) s = (s, s) := rfl
  by_cases hnone : blocks s first second = []
  · refine Or.inl ⟨hnone, ?_⟩
    unfold cross
    rw [bind_apply, hget, hnone]
    rfl
  · obtain ⟨x, y, s', hblocks, hcrosses⟩ :=
      crosses_crossBlocks rng (awaits_blocks hfirst hsecond)
    rw [Nat.zero_add] at hblocks hcrosses
    refine Or.inr ⟨hnone, x, y, s', ?_, hcrosses⟩
    unfold cross
    rw [bind_apply, hget, bind_apply, hblocks]
    simp only []
    rw [if_neg (List.length_eq_zero_iff.not.mpr hnone)]
    rfl

theorem exchanged_of_cross (hfirst : s.Holds first) (hsecond : s.Holds second) {rng : WordStream}
    {x y : Node} {n : Nat} {rng' : WordStream} {s' : Store α}
    (h : Crosses first second (blocks s first second) rng ⟨first, second, 0⟩ s ⟨x, y, n⟩ rng' s') :
    Exchanged s s' first second x y (drawCutoffs first second (blocks s first second) rng).1 := by
  obtain ⟨-, hx, hy⟩ := h.rearranged (awaits_blocks hfirst hsecond)
  exact exchanged_of_rearranged hx hy

/-- Versions that do not diverge are not crossed, and no word is taken. All others are crossed at
every block, with one cutoff for each, and only there. -/
theorem cross_exact (hfirst : s.Holds first) (hsecond : s.Holds second) (rng : WordStream) :
    (blocks s first second = [] → cross first second rng s = ((.alike, rng), s)) ∧
      (blocks s first second ≠ [] → ∃ x y s' cutoffs rng',
        drawCutoffs first second (blocks s first second) rng = (cutoffs, rng') ∧
        cutoffs.map Prod.fst = blocks s first second ∧
        cross first second rng s =
          ((.offspring x y (blocks s first second).length, rng'), s') ∧
        Exchanged s s' first second x y cutoffs) := by
  obtain ⟨hnone, hcross⟩ | ⟨hsome, x, y, s', hcross, hcrosses⟩ := cross_spec hfirst hsecond rng
  · exact ⟨fun _ => hcross, absurd hnone⟩
  · refine ⟨fun hnone => absurd hnone hsome, fun _ => ⟨x, y, s', _, _, rfl, ?_, hcross, ?_⟩⟩
    · exact map_fst_drawCutoffs first second _ rng
    · exact exchanged_of_cross hfirst hsecond hcrosses

/-! ## Two versions of two methods -/

namespace TwoMethods

def token (id : NodeId) (text : String) (line : Nat) : Node := .leaf id text ⟨line, 1⟩

def opening : Node := .make 1 .atomicStatement [token 0 "open" 1]

def writing : Node := .make 3 .atomicStatement [token 2 "write" 2]

def closing : Node := .make 5 .atomicStatement [token 4 "close" 3]

/-- The statements in two methods, with one of them in both. -/
def program : Node := .make 8 .file [.make 6 .method [opening, writing], .make 7 .method [closing]]

/-- A version without the suspicious statement of the first method, and with one more in the
second. -/
def version : Node := .make 11 .file [.make 9 .method [writing], .make 10 .method [opening, closing]]

def marks : Store Rat :=
  ⟨#[.fresh [], ⟨1, some ∅, []⟩, .fresh [], .fresh [], .fresh [], ⟨1, some ∅, []⟩, .fresh [],
    .fresh [], .fresh [("file-name", "a")], .fresh [], .fresh [], .fresh [("file-name", "a")]]⟩

theorem holds_program : marks.Holds program := by
  unfold Store.Holds
  decide

theorem holds_version : marks.Holds version := by
  unfold Store.Holds
  decide

theorem blocks_program : blocks marks program version = [[0], [1]] := by
  decide +kernel

end TwoMethods

open TwoMethods in
/-- The two methods are the blocks, and words for the cutoffs one and zero are drawn. -/
theorem cross_exact_twoMethods :
    marks.Holds program ∧ marks.Holds version ∧ blocks marks program version = [[0], [1]] ∧
      (blocks marks program version = [] →
        cross program version (.ofList [0x80000000, 0]) marks =
          ((.alike, .ofList [0x80000000, 0]), marks)) ∧
      (blocks marks program version ≠ [] → ∃ x y s' cutoffs rng',
        drawCutoffs program version (blocks marks program version) (.ofList [0x80000000, 0]) =
          (cutoffs, rng') ∧
        cutoffs.map Prod.fst = blocks marks program version ∧
        cross program version (.ofList [0x80000000, 0]) marks =
          ((.offspring x y (blocks marks program version).length, rng'), s') ∧
        Exchanged marks s' program version x y cutoffs) :=
  ⟨holds_program, holds_version, blocks_program,
    cross_exact holds_program holds_version (.ofList [0x80000000, 0])⟩

end Crossover

end GeneticRepair
