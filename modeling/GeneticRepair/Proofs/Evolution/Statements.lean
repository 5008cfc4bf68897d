import GeneticRepair.Proofs.Evolution.Sparing

/-!
# `Proofs/Evolution/Statements.lean` — what becomes of statements

In a program as it is parsed no statement contains another one. Mutation moves statements about as
wholes. Crossover pairs the places of two versions by their indices alone: where one version has a
block and the other one a statement, they exchange children like any two blocks, and the statement
ends up with statements inside. That takes a block at or below a statement of one of the parents.
`Aligned` parents have none, and for them, and for them only, all statements stay what they are.

* `statements_intact_iff`: the versions that such crossings and any mutations lead to.
* `not_statements_intact`: three steps to a statement that contains another one.
-/

set_option autoImplicit false

namespace GeneticRepair

open Store

namespace Node

/-! ## Statements of a program -/

/-- The nodes below a node. -/
def inside (n : Node) : List Node := n.children.flatMap preorder

/-- No statement contains another one. -/
def Flat (root : Node) : Prop := ∀ m ∈ root.statements, ∀ x ∈ m.inside, x.kind ≠ .atomicStatement

/-- Every statement has the content of one of the program. -/
def Intact (root t : Node) : Prop :=
  ∀ m ∈ t.statements, ∃ o ∈ root.statements, m.sameContent o = true

instance (root : Node) : Decidable root.Flat := by unfold Flat; infer_instance

instance (root t : Node) : Decidable (Intact root t) := by unfold Intact; infer_instance

theorem mem_statements {n m : Node} :
    m ∈ n.statements ↔ m ∈ n.preorder ∧ m.kind = .atomicStatement := by
  rw [statements, ofKind, List.mem_filter, decide_eq_true_eq]

theorem mem_inside_of_descend {n x : Node} {i : Nat} {path : ChildPath}
    (h : n.descend (i :: path) = some x) : x ∈ n.inside := by
  obtain ⟨c, hc, hx⟩ := Option.bind_eq_some_iff.mp h
  exact List.mem_flatMap.mpr ⟨c, List.mem_of_getElem? hc, mem_preorder_of_descend hx⟩

/-- A child of a node at or below another one is below it. -/
theorem mem_inside_of_mem_child {n a z : Node} (ha : a ∈ n.preorder) (hz : z ∈ a.children) :
    z ∈ n.inside := by
  obtain rfl | ⟨c, hc, ha⟩ := mem_preorder_iff.mp ha
  · exact List.mem_flatMap.mpr ⟨z, hz, self_mem_preorder z⟩
  · exact List.mem_flatMap.mpr ⟨c, hc, mem_preorder_trans
      (mem_preorder_of_mem_child hz (self_mem_preorder z)) ha⟩

theorem inside_withId (n : Node) (id : NodeId) : (n.withId id).inside = n.inside := by
  rw [inside, children_withId]
  rfl

theorem map_kind_of_sameContentAll {l l' : List Node} (h : sameContentAll l l' = true)
    (hkinds : ∀ c ∈ l, ∀ c' ∈ l', c.sameContent c' = true →
      c.preorder.map kind = c'.preorder.map kind) :
    (l.flatMap preorder).map kind = (l'.flatMap preorder).map kind := by
  induction l generalizing l' with
  | nil =>
    cases l' with
    | nil => rfl
    | cons => cases h
  | cons c l ih =>
    cases l' with
    | nil => cases h
    | cons c' l' =>
      rw [sameContentAll, Bool.and_eq_true] at h
      rw [List.flatMap_cons, List.flatMap_cons, List.map_append, List.map_append,
        hkinds c List.mem_cons_self c' List.mem_cons_self h.1,
        ih h.2 fun d hd d' hd' =>
          hkinds d (List.mem_cons_of_mem c hd) d' (List.mem_cons_of_mem c' hd')]

/-- Programs with the same content have the same kinds in the same order, if an identity stands for
one node. -/
theorem map_kind_of_sameContent {a b : Node} (h : a.sameContent b = true)
    (hid : ∀ m ∈ a.preorder, ∀ m' ∈ b.preorder, m.id = m'.id → m = m') :
    a.preorder.map kind = b.preorder.map kind := by
  induction a generalizing b with
  | leaf id text position =>
    cases b with
    | leaf => rfl
    | inner id' kind' span' children' =>
      rw [sameContent, beq_iff_eq] at h
      cases hid _ (self_mem_preorder _) _ (self_mem_preorder _) h
  | inner id kind span children ih =>
    cases b with
    | leaf id' text position =>
      rw [sameContent, beq_iff_eq] at h
      cases hid _ (self_mem_preorder _) _ (self_mem_preorder _) h
    | inner id' kind' span' children' =>
      rw [sameContent, Bool.or_eq_true, beq_iff_eq, Bool.and_eq_true, beq_iff_eq] at h
      obtain hsame | ⟨rfl, hall⟩ := h
      · rw [hid _ (self_mem_preorder _) _ (self_mem_preorder _) hsame]
      · have hchildren := map_kind_of_sameContentAll hall fun c hc c' hc' hsame =>
          ih c hc hsame fun m hm m' hm' =>
            hid m (mem_preorder_of_mem_child hc hm) m' (mem_preorder_of_mem_child hc' hm')
        rw [preorder_inner, preorder_inner, List.map_cons, List.map_cons, hchildren]
        rfl

/-- A statement that contains a statement has not the content of a statement of a flat program. -/
theorem not_intact_of_nested {root t m x : Node} (hflat : root.Flat)
    (hid : ∀ m ∈ t.preorder, ∀ m' ∈ root.preorder, m.id = m'.id → m = m')
    (hm : m ∈ t.statements) (hx : x ∈ m.inside) (hkind : x.kind = .atomicStatement) :
    ¬ Intact root t := by
  intro hintact
  obtain ⟨o, ho, hsame⟩ := hintact m hm
  have hkinds := map_kind_of_sameContent hsame fun k hk k' hk' =>
    hid k (mem_preorder_trans hk (mem_statements.mp hm).1) k'
      (mem_preorder_trans hk' (mem_statements.mp ho).1)
  rw [preorder_eq, preorder_eq, List.map_cons, List.map_cons] at hkinds
  have hmem : NodeKind.atomicStatement ∈ (m.children.flatMap preorder).map kind :=
    List.mem_map.mpr ⟨x, hx, hkind⟩
  rw [(List.cons.inj hkinds).2] at hmem
  obtain ⟨y, hy, hkind'⟩ := List.mem_map.mp hmem
  exact hflat o ho y hy hkind'

/-! ## Copies of statements -/

/-- Every statement is one of the program, up to its identity. -/
def Copies (root t : Node) : Prop := ∀ m ∈ t.statements, ∃ o ∈ root.statements, ∃ id, m = o.withId id

namespace Copies

variable {root t t' : Node}

theorem self (root : Node) : Copies root root := by
  intro m hm
  refine ⟨m, hm, m.id, ?_⟩
  cases m with
  | _ => rfl

theorem intact (h : Copies root t) : Intact root t := by
  intro m hm
  obtain ⟨o, ho, id, rfl⟩ := h m hm
  exact ⟨o, ho, sameContent_withId o id⟩

theorem flat (h : Copies root t) (hroot : root.Flat) : t.Flat := by
  intro m hm x hx
  obtain ⟨o, ho, id, rfl⟩ := h m hm
  rw [inside_withId] at hx
  exact hroot o ho x hx

/-- The statements of a version are there in one of two others, or have been copied from there. -/
theorem of_subset {u : Node} (ht : Copies root t) (hu : Copies root u)
    (h : ∀ m ∈ t'.statements, m ∈ t.preorder ∨ m ∈ u.preorder) : Copies root t' := by
  intro m hm
  obtain ⟨-, hkind⟩ := mem_statements.mp hm
  obtain hmem | hmem := h m hm
  · exact ht m (mem_statements.mpr ⟨hmem, hkind⟩)
  · exact hu m (mem_statements.mpr ⟨hmem, hkind⟩)

end Copies

/-- What is above a statement of a flat program is not a statement. -/
theorem Flat.kind_above {t was x : Node} (h : t.Flat) {q r : ChildPath} (hr : r ≠ [])
    (hx : t.descend (q ++ r) = some x) (hkind : x.kind = .atomicStatement)
    (hwas : t.descend q = some was) : was.kind ≠ .atomicStatement := by
  intro hstatement
  rw [descend_append, hwas, Option.bind_some] at hx
  cases r with
  | nil => exact hr rfl
  | cons i r =>
    have hmem := mem_statements.mpr ⟨mem_preorder_of_descend hwas, hstatement⟩
    exact h was hmem x (mem_inside_of_descend hx) hkind

end Node

open Node

variable {α : Type} [Scalar α] {base s s' : Store α} {root t t' : Node} {versions : List Node}

/-- An edit below no statement that brings in copies makes a version of copies. -/
theorem EditedAt.copies {path : ChildPath} {script : List Edit}
    {answers : List (Except EditError (Option Node))}
    (he : EditedAt path script s s' t t' answers) (h : Copies root t)
    (habove : ∀ q, q <+: path → ∀ was, t.descend q = some was → was.kind ≠ .atomicStatement)
    (hb : ∀ e ∈ script, ∀ c ∈ e.brought, Copies root c) : Copies root t' := by
  intro m hm
  obtain ⟨hmem, hkind⟩ := mem_statements.mp hm
  obtain hold | ⟨e, hes, c, hc, hbelow⟩ | ⟨q, hq, hnow⟩ := he.only m hmem
  · exact h m (mem_statements.mpr ⟨hold, hkind⟩)
  · exact hb e hes c hc m (mem_statements.mpr ⟨hbelow, hkind⟩)
  · obtain ⟨was, now, hwas, hnow', -, hkind', -⟩ := he.along q hq
    obtain rfl : m = now := Option.some.inj (hnow.symm.trans hnow')
    exact absurd (hkind'.symm.trans hkind) (habove q hq was hwas)

/-! ## Mutation -/

namespace Mutation

omit [Scalar α] in
/-- The slot of a statement is above all statements. -/
theorem above_slot {target : Node} {path : ChildPath} {index : Nat}
    (hforest : s.Forest versions) (ht : t ∈ versions) (hflat : t.Flat)
    (htarget : target ∈ t.statements) (hslot : slotOf t target = .ok (path, index)) :
    ∀ q, q <+: path → ∀ was, t.descend q = some was → was.kind ≠ .atomicStatement := by
  obtain ⟨hmem, hkind⟩ := mem_statements.mp htarget
  obtain ⟨parent, found, hparent, hfound, hid⟩ := slotOf_spec hslot
  have hbelow : t.descend (path ++ [index]) = some found := by
    rw [descend_append, hparent, Option.bind_some, descend_cons hfound, descend]
  -- the identity is that of the target only
  obtain rfl : found = target :=
    hforest.eq ⟨t, ht, mem_preorder_of_descend hbelow⟩ ⟨t, ht, hmem⟩ hid
  rintro q ⟨r, rfl⟩ was hwas
  rw [List.append_assoc] at hbelow
  exact hflat.kind_above (by simp) hbelow hkind hwas

/-- A transplanted statement is a copy like its donor. -/
theorem copies_transplant {donor : Node} (target : Node) (h : Copies root t) (hroot : root.Flat)
    (hdonor : donor ∈ t.statements) : Copies root (transplant donor target s).1 := by
  obtain ⟨hcopy, -⟩ := transplant_spec donor target s
  intro m hm
  obtain ⟨hmem, hkind⟩ := mem_statements.mp hm
  rw [hcopy, preorder_eq, children_withId] at hmem
  obtain rfl | hinside := List.mem_cons.mp hmem
  · obtain ⟨o, ho, id, rfl⟩ := h donor hdonor
    refine ⟨o, ho, s.next, ?_⟩
    cases o with
    | _ => rfl
  · exact absurd hkind (h.flat hroot donor hdonor m hinside)

theorem mem_statements_of_mem_donors {target donor : Node} {scope : DonorScope}
    (h : donor ∈ donors t target scope) : donor ∈ t.statements := by
  refine mem_statements.mpr ⟨mem_of_mem_donors h, ?_⟩
  unfold donors at h
  split at h
  · exact (mem_statements.mp h).2
  · split at h
    · exact (mem_statements.mp h).2
    · exact (mem_statements.mp h).2

/-- Operators at statements move statements about as wholes. -/
theorem copies_apply (operator : Operator) {target : Node} (scope : DonorScope) (rng : WordStream)
    (hforest : s.Forest versions) (ht : t ∈ versions) (h : Copies root t) (hroot : root.Flat)
    (htarget : target ∈ t.statements) :
    ∀ t' ∈ offspring (apply operator t target scope rng s).1.1, Copies root t' := by
  have hs : s.Holds t := hforest.holds t ht
  have happlied := application operator t target scope rng s
  generalize apply operator t target scope rng s = applied at happlied ⊢
  cases happlied with
  | refused _ _ _ => exact nofun
  | removed hslot _ _ hedit =>
    obtain ⟨answers, he⟩ := hedit.edited hs
    exact List.forall_mem_singleton.mpr (he.copies h
      (above_slot hforest ht (h.flat hroot) htarget hslot) (List.forall_mem_singleton.mpr nofun))
  | @inserted _ _ donor _ _ hslot hdonor _ _ hedit =>
    have hgrown := (transplant_spec donor target s).2.1
    obtain ⟨answers, he⟩ := hedit.edited (hs.mono hgrown.next_le)
    have hcopied : Copies root (transplant donor target s).1 :=
      copies_transplant target h hroot (mem_statements_of_mem_donors hdonor)
    exact List.forall_mem_singleton.mpr (he.copies h
      (above_slot hforest ht (h.flat hroot) htarget hslot)
      (List.forall_mem_singleton.mpr (List.forall_mem_singleton.mpr hcopied)))

end Mutation

/-! ## Crossover -/

/-- No word of the stream is anything but zero. -/
def WordStream.Zeros (rng : WordStream) : Prop := ∀ i, rng.word i = 0

theorem WordStream.below_of_zeros {rng : WordStream} (h : rng.Zeros) (n : Nat) :
    (rng.below n).1 = 0 ∧ (rng.below n).2.Zeros := by
  have hword : rng.next32.1.toNat = 0 := by
    rw [next32, h]
    rfl
  unfold below
  simp only [hword]
  simp only [Nat.zero_mul, Nat.zero_div, Nat.zero_mod, Nat.not_lt_zero, if_false]
  exact ⟨trivial, h⟩

namespace Crossover

variable {first second x y : Node} {cutoffs : List (ChildPath × Nat)}

/-- No block lies at or below a statement of one of the two. -/
def Aligned (s : Store α) (first second : Node) : Prop :=
  ∀ path ∈ blocks s first second, ∀ q, q <+: path → ∀ m,
    first.descend q = some m ∨ second.descend q = some m → m.kind ≠ .atomicStatement

theorem cutoff_of_zeros (first second : Node) (paths : List ChildPath) {rng : WordStream}
    (h : rng.Zeros) : ∀ c ∈ (drawCutoffs first second paths rng).1, c.2 = 0 := by
  induction paths generalizing rng with
  | nil => exact nofun
  | cons path paths ih =>
    obtain ⟨hzero, hzeros⟩ := WordStream.below_of_zeros h
      (min (first.childrenAt path).length (second.childrenAt path).length + 1)
    exact List.forall_mem_cons.mpr ⟨hzero, ih hzeros⟩

/-- A node of a child is one of its parents' nodes, or it stands at a block or above one and has the
kind of what stood there. -/
theorem Exchanged.origin (h : Exchanged s s' first second x y cutoffs) {m : Node}
    (hm : m ∈ x.preorder) :
    (m ∈ first.preorder ∨ m ∈ second.preorder) ∨
      ∃ c ∈ cutoffs, ∃ q was, q <+: c.1 ∧ first.descend q = some was ∧ m.kind = was.kind := by
  obtain ⟨q, hq⟩ := exists_descend_of_mem_preorder hm
  by_cases habove : ∃ c ∈ cutoffs, q <+: c.1
  · obtain ⟨c, hc, hqc⟩ := habove
    obtain ⟨was, now, hwas, hnow, hkind, -⟩ := h.along_first c hc q hqc
    obtain rfl : m = now := Option.some.inj (hq.symm.trans hnow)
    exact Or.inr ⟨c, hc, q, was, hqc, hwas, hkind⟩
  · refine Or.inl ?_
    by_cases hbelow : ∃ c ∈ cutoffs, c.1 <+: q
    · -- below a block are children of the two blocks of the parents
      obtain ⟨c, hc, r, rfl⟩ := hbelow
      obtain ⟨a, b, a', -, ha, hb, ha', -, -, hkids, -⟩ := h.at_block c hc
      rw [descend_append, ha', Option.bind_some] at hq
      cases r with
      | nil => exact absurd ⟨c, hc, (List.append_nil c.1).symm ▸ List.prefix_refl c.1⟩ habove
      | cons i r =>
        obtain ⟨k, hk, hr⟩ := Option.bind_eq_some_iff.mp hq
        have hbelow {n : Node} (hn : k ∈ n.children) : m ∈ n.preorder :=
          mem_preorder_of_mem_child hn (mem_preorder_of_descend hr)
        have hmem := List.mem_of_getElem? hk
        rw [hkids] at hmem
        obtain hmem | hmem := List.mem_append.mp hmem
        · exact Or.inl (mem_preorder_trans (hbelow (List.mem_of_mem_take hmem))
            (mem_preorder_of_descend ha))
        · exact Or.inr (mem_preorder_trans (hbelow (List.mem_of_mem_drop hmem))
            (mem_preorder_of_descend hb))
    · have hsame := (h.off q fun c hc => ⟨fun hcq => hbelow ⟨c, hc, hcq⟩,
        fun hqc => habove ⟨c, hc, hqc⟩⟩).1
      exact Or.inl (mem_preorder_of_descend (hsame.symm.trans hq))

theorem Exchanged.copies (h : Exchanged s s' first second x y cutoffs)
    (hfirst : Copies root first) (hsecond : Copies root second)
    (hblocks : ∀ c ∈ cutoffs, ∀ q, q <+: c.1 → ∀ m, first.descend q = some m →
      m.kind ≠ .atomicStatement) : Copies root x := by
  refine hfirst.of_subset hsecond fun m hm => ?_
  obtain ⟨hmem, hkind⟩ := mem_statements.mp hm
  obtain horigin | ⟨c, hc, q, was, hq, hwas, hkind'⟩ := h.origin hmem
  · exact horigin
  · exact absurd (hkind'.symm.trans hkind) (hblocks c hc q hq was hwas)

/-- With the cutoff zero, a block at or below a statement gets the statement to contain the one that
makes it a block. -/
theorem Exchanged.nested (h : Exchanged s s' first second x y cutoffs) {c : ChildPath × Nat}
    (hc : c ∈ cutoffs) (hzero : c.2 = 0) {q : ChildPath} (hq : q <+: c.1) {m a b : Node}
    (hm : first.descend q = some m) (hkind : m.kind = .atomicStatement) (hflat : first.Flat)
    (ha : first.descend c.1 = some a) (hb : second.descend c.1 = some b)
    (hsuspicious : holdsSuspicious s a = true ∨ holdsSuspicious s b = true) :
    ∃ now ∈ x.statements, ∃ z ∈ now.inside, z.kind = .atomicStatement := by
  have hstatement {n : Node} (hn : holdsSuspicious s n = true) :
      ∃ z ∈ n.children, z.kind = .atomicStatement := by
    obtain ⟨z, hz, hsuspect⟩ := List.any_eq_true.mp hn
    rw [isSuspect, Bool.and_eq_true, decide_eq_true_eq] at hsuspect
    exact ⟨z, hz, hsuspect.1⟩
  obtain ⟨a₀, b₀, a', -, ha₀, hb₀, ha', -, -, hkids, -⟩ := h.at_block c hc
  obtain rfl : a = a₀ := Option.some.inj (ha.symm.trans ha₀)
  obtain rfl : b = b₀ := Option.some.inj (hb.symm.trans hb₀)
  obtain ⟨was, now, hwas, hnow, hkind', -⟩ := h.along_first c hc q hq
  obtain rfl : m = was := Option.some.inj (hm.symm.trans hwas)
  obtain ⟨r, hr⟩ := hq
  rw [← hr, descend_append, hm, Option.bind_some] at ha
  rw [← hr, descend_append, hnow, Option.bind_some] at ha'
  obtain hown | hother := hsuspicious
  · -- the block of the statement itself holds no statement
    obtain ⟨z, hz, hzkind⟩ := hstatement hown
    have hinside := mem_inside_of_mem_child (mem_preorder_of_descend ha) hz
    exact absurd hzkind
      (hflat m (mem_statements.mpr ⟨mem_preorder_of_descend hm, hkind⟩) z hinside)
  · obtain ⟨z, hz, hzkind⟩ := hstatement hother
    rw [hzero, List.take_zero, List.drop_zero, List.nil_append] at hkids
    rw [← hkids] at hz
    exact ⟨now, mem_statements.mpr ⟨mem_preorder_of_descend hnow, hkind'.trans hkind⟩, z,
      mem_inside_of_mem_child (mem_preorder_of_descend ha') hz, hzkind⟩

/-- Aligned parents have children whose statements are copies. -/
theorem copies_cross (rng : WordStream) (hs : s.Holds first) (hs' : s.Holds second)
    (hfirst : Copies root first) (hsecond : Copies root second) (haligned : Aligned s first second) :
    ∀ t ∈ offspring (cross first second rng s).1.1, Copies root t := by
  obtain ⟨-, hcross⟩ | ⟨-, x, y, s', hcross, hcrosses⟩ := cross_spec hs hs' rng
  · rw [hcross]
    exact nofun
  · rw [hcross]
    have hexchanged := exchanged_of_cross hs hs' hcrosses
    have hblock : ∀ c ∈ (drawCutoffs first second (blocks s first second) rng).1,
        c.1 ∈ blocks s first second := by
      intro c hc
      rw [← map_fst_drawCutoffs first second (blocks s first second) rng]
      exact List.mem_map_of_mem hc
    have hx := hexchanged.copies hfirst hsecond fun c hc q hq m hm =>
      haligned c.1 (hblock c hc) q hq m (Or.inl hm)
    have hy := hexchanged.swap.copies hsecond hfirst fun c hc q hq m hm =>
      haligned c.1 (hblock c hc) q hq m (Or.inr hm)
    intro t ht
    obtain rfl | ht := List.mem_cons.mp ht
    · exact hx
    · exact List.mem_singleton.mp ht ▸ hy

/-- Parents that are not aligned have a child with a statement in a statement. -/
theorem nested_cross {rng : WordStream} (hrng : rng.Zeros) (hs : s.Holds first)
    (hs' : s.Holds second) (hfirst : first.Flat) (hsecond : second.Flat)
    (hnot : ¬ Aligned s first second) :
    ∃ t ∈ offspring (cross first second rng s).1.1, ∃ m ∈ t.statements, ∃ z ∈ m.inside,
      z.kind = .atomicStatement := by
  unfold Aligned at hnot
  push Not at hnot
  obtain ⟨path, hpath, q, hq, m, hm, hkind⟩ := hnot
  obtain ⟨hnone, -⟩ | ⟨-, x, y, s', hcross, hcrosses⟩ := cross_spec hs hs' rng
  · rw [hnone] at hpath
    cases hpath
  · rw [hcross]
    have hexchanged := exchanged_of_cross hs hs' hcrosses
    obtain ⟨a, b, ha, hb, -, -, -, hsuspicious⟩ := divergeAt_of_mem_blocks hpath
    have hpath' := hpath
    rw [← map_fst_drawCutoffs first second (blocks s first second) rng] at hpath'
    obtain ⟨c, hc, rfl⟩ := List.mem_map.mp hpath'
    have hzero := cutoff_of_zeros first second _ hrng c hc
    obtain hm | hm := hm
    · exact ⟨x, List.mem_cons_self,
        hexchanged.nested hc hzero hq hm hkind hfirst ha hb hsuspicious⟩
    · exact ⟨y, List.mem_cons_of_mem x List.mem_cons_self,
        hexchanged.swap.nested hc hzero hq hm hkind hsecond hb ha hsuspicious.symm⟩

end Crossover

/-! ## Breeding -/

/-- The versions bred from a program: each one is mutated at a statement or crossed from two that
are there, if the crossing is admitted, and is there from then on. In between the marks may change
in any way. -/
inductive Bred (admits : Store α → Node → Node → Prop) (base : Store α) (root : Node) :
    Store α → List Node → Prop where
  | start : Bred admits base root base [root]
  | mark {s s' : Store α} {versions : List Node} (h : Bred admits base root s versions)
      (hnext : s.next ≤ s'.next) : Bred admits base root s' versions
  | mutate {s : Store α} {versions : List Node} {t target : Node} (operator : Operator)
      (scope : DonorScope) (rng : WordStream) (h : Bred admits base root s versions)
      (ht : t ∈ versions) (htarget : target ∈ t.statements) :
      Bred admits base root (Mutation.apply operator t target scope rng s).2
        (Mutation.offspring (Mutation.apply operator t target scope rng s).1.1 ++ versions)
  | cross {s : Store α} {versions : List Node} {first second : Node} (rng : WordStream)
      (h : Bred admits base root s versions) (hfirst : first ∈ versions)
      (hsecond : second ∈ versions) (hadmits : admits s first second) :
      Bred admits base root (Crossover.cross first second rng s).2
        (Crossover.offspring (Crossover.cross first second rng s).1.1 ++ versions)

namespace Bred

variable {admits : Store α → Node → Node → Prop}

theorem forest (h : Bred admits base root s versions) (hforest : base.Forest [root]) :
    s.Forest versions := by
  induction h with
  | start => exact hforest
  | mark _ hnext ih => exact ih.mono hnext
  | mutate operator scope rng _ ht _ ih =>
    exact (Mutation.spares_apply operator _ scope rng ih ht).forest
  | cross rng _ hfirst hsecond _ ih => exact (Crossover.spares_cross rng ih hfirst hsecond).forest

theorem root_mem (h : Bred admits base root s versions) : root ∈ versions := by
  induction h with
  | start => exact List.mem_singleton_self root
  | mark _ _ ih => exact ih
  | mutate _ _ _ _ _ _ ih => exact List.mem_append_right _ ih
  | cross _ _ _ _ _ ih => exact List.mem_append_right _ ih

theorem copies (h : Bred Crossover.Aligned base root s versions) (hforest : base.Forest [root])
    (hflat : root.Flat) : ∀ t ∈ versions, Copies root t := by
  induction h with
  | start => exact fun t ht => List.mem_singleton.mp ht ▸ Copies.self root
  | mark _ _ ih => exact ih
  | mutate operator scope rng h ht htarget ih =>
    have hmade := Mutation.copies_apply operator scope rng (h.forest hforest) ht (ih _ ht) hflat
      htarget
    exact fun t' ht' => (List.mem_append.mp ht').elim (hmade t') (ih t')
  | cross rng h hfirst hsecond haligned ih =>
    have hs := (h.forest hforest).holds
    have hmade := Crossover.copies_cross rng (hs _ hfirst) (hs _ hsecond) (ih _ hfirst)
      (ih _ hsecond) haligned
    exact fun t' ht' => (List.mem_append.mp ht').elim (hmade t') (ih t')

end Bred

/-- As long as all parents are aligned, every statement of every version has the content of one of
the program. The next crossing keeps that up for all words if, and only if, its parents are. -/
theorem statements_intact_iff (hforest : base.Forest [root]) (hflat : root.Flat)
    (h : Bred Crossover.Aligned base root s versions) :
    (∀ t ∈ versions, Intact root t) ∧
      ∀ first ∈ versions, ∀ second ∈ versions,
        (∀ rng, ∀ t ∈ Crossover.offspring (Crossover.cross first second rng s).1.1,
          Intact root t) ↔ Crossover.Aligned s first second := by
  have hcopies := h.copies hforest hflat
  have hs := h.forest hforest
  refine ⟨fun t ht => (hcopies t ht).intact, fun first hfirst second hsecond =>
    ⟨fun hintact => ?_, fun haligned rng t ht => ?_⟩⟩
  · by_contra hnot
    have hzeros : (WordStream.ofList []).Zeros := fun _ => rfl
    obtain ⟨t, ht, m, hm, z, hz, hkind⟩ := Crossover.nested_cross hzeros (hs.holds _ hfirst)
      (hs.holds _ hsecond) ((hcopies _ hfirst).flat hflat) ((hcopies _ hsecond).flat hflat) hnot
    -- the child and the program are a forest, so an identity tells their nodes apart
    have hgrown := (Crossover.spares_cross (.ofList []) hs hfirst hsecond).forest
    refine not_intact_of_nested hflat (fun k hk k' hk' hid => ?_) hm hz hkind (hintact _ t ht)
    exact hgrown.eq_of_id_eq t (List.mem_append_left _ ht) root
      (List.mem_append_right _ h.root_mem) k hk k' hk' hid
  · exact (Crossover.copies_cross rng (hs.holds _ hfirst) (hs.holds _ hsecond)
      (hcopies _ hfirst) (hcopies _ hsecond) haligned t ht).intact

/-! ## A branch beside a statement -/

namespace Branching

open Crossover.TwoMethods (token)

def checking : Node := .make 1 .atomicStatement [token 0 "check" 1]

def logging : Node := .make 3 .atomicStatement [token 2 "log" 2]

def branch : Node := .make 4 .compositeStatement [logging]

def leaving : Node := .make 6 .atomicStatement [token 5 "return" 3]

def program : Node := .make 8 .file [.make 7 .method [checking, branch, leaving]]

/-- What is checked and what is logged are suspicious. -/
def marks : Store Rat :=
  ⟨#[.fresh [], ⟨1, some ∅, []⟩, .fresh [], ⟨1, some ∅, []⟩, .fresh [], .fresh [], .fresh [],
    .fresh [], .fresh [("file-name", "a")]]⟩

/-- Without the check. -/
def unchecked : Node := .make 9 .file [.make 10 .method [branch, leaving]]

/-- With the branch twice. -/
def repeated : Node := .make 13 .file [.make 14 .method [branch, branch, leaving]]

/-- With a statement in a statement. -/
def nested : Node :=
  .make 18 .file [.make 19 .method [branch, .make 20 .atomicStatement [logging]]]

/-- With the token of a statement in a branch. -/
def emptied : Node :=
  .make 15 .file
    [.make 16 .method [branch, .make 17 .compositeStatement [token 5 "return" 3], leaving]]

/-- The program up to its check, and the other one behind its branch. -/
def shortened : Node := .make 11 .file [.make 12 .method [checking, leaving]]

abbrev deletion := Mutation.apply .delete program checking .program (.ofList []) marks

abbrev crossing := Crossover.cross program unchecked (.ofList [0x60000000]) deletion.2

abbrev recrossing := Crossover.cross repeated unchecked (.ofList []) crossing.2

theorem forest_program : marks.Forest [program] := by
  refine .of_nodup ?_ (by decide)
  unfold Store.Holds
  decide

theorem flat_program : program.Flat := by
  decide

/-- The methods are the only block. -/
theorem aligned_unchecked : Crossover.Aligned deletion.2 program unchecked := by
  have hblocks : Crossover.blocks deletion.2 program unchecked = [[0]] := by decide +kernel
  intro path hpath q hq m hm
  rw [hblocks] at hpath
  obtain rfl := List.mem_singleton.mp hpath
  obtain rfl | ⟨r, rfl, hr⟩ := List.prefix_cons_iff.mp hq
  · obtain hm | hm := hm <;> cases hm <;> decide
  · obtain rfl := List.prefix_nil.mp hr
    obtain hm | hm := hm <;> cases hm <;> decide

/-- The check is deleted, and the program crossed with what is left. -/
theorem bred_crossing {admits : Store Rat → Node → Node → Prop}
    (hadmits : admits deletion.2 program unchecked) :
    Bred admits marks program crossing.2 [shortened, repeated, unchecked, program] := by
  have hmem : checking ∈ program.statements := List.mem_cons_self
  have hdeleted : Bred admits marks program deletion.2 [unchecked, program] :=
    Bred.start.mutate .delete .program (.ofList []) List.mem_cons_self hmem
  exact hdeleted.cross (.ofList [0x60000000]) (List.mem_cons_of_mem _ List.mem_cons_self)
    List.mem_cons_self hadmits

end Branching

open Branching in
/-- The deletion and the first crossing leave all statements intact. -/
theorem statements_intact_iff_branching :
    marks.Forest [program] ∧ program.Flat ∧
      Bred Crossover.Aligned marks program crossing.2 [shortened, repeated, unchecked, program] ∧
      (∀ t ∈ [shortened, repeated, unchecked, program], Intact program t) ∧
      ∀ first ∈ [shortened, repeated, unchecked, program],
        ∀ second ∈ [shortened, repeated, unchecked, program],
          (∀ rng, ∀ t ∈ Crossover.offspring (Crossover.cross first second rng crossing.2).1.1,
            Intact program t) ↔ Crossover.Aligned crossing.2 first second :=
  ⟨forest_program, flat_program, bred_crossing aligned_unchecked,
    statements_intact_iff forest_program flat_program (bred_crossing aligned_unchecked)⟩

open Branching in
/-- The second branch and the statement in its place are a block of the next crossing. -/
theorem not_statements_intact :
    ¬ ∀ (base s : Store Rat) (root : Node) (versions : List Node), base.Forest [root] →
      root.Flat → Bred (fun _ _ _ => True) base root s versions →
        ∀ t ∈ versions, Intact root t := by
  intro hclaim
  have hbred : Bred (fun _ _ _ => True) marks program recrossing.2
      [emptied, nested, shortened, repeated, unchecked, program] :=
    (bred_crossing trivial).cross (.ofList []) (by simp) (by simp) trivial
  have hnested := hclaim _ _ _ _ forest_program flat_program hbred nested (by simp)
  have hbroken : ¬ Intact program nested := by decide
  exact hbroken hnested

end GeneticRepair
