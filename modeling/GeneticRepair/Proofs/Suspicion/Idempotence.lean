import GeneticRepair.Proofs.Suspicion.Pruning

/-!
# `Proofs/Suspicion/Idempotence.lean` — a pass once more

A second pass with the same tests meets a store in which some statements have been cleared, and
gives them scores again, but maybe not all they had before: what earlier passes had found is gone.
So its candidates are fewer or lower, except that what the first pass left is as it was
(`Regains`). The cut at the limit then takes the same statements, ties included
(`Regains.mem_within_iff`), the same marks are left (`Regains.suspicion_clearLow`), and the whole
second pass repeats the first one (`localize_idempotent`), as long as no statement stands at two
places.
-/

set_option autoImplicit false

namespace GeneticRepair

namespace Localization

variable {α : Type} [OrderedScalar α] {policy : SuspicionPolicy α} {root : Node}
  {store store' : Store α}

/-- What clearing the first store leaves is as it was, and what it clears is back with a part of its
suspicion at most. -/
structure Regains (policy : SuspicionPolicy α) (root : Node) (store store' : Store α) : Prop where
  left : ∀ id, ¬ Cleared policy root store id →
    (store'.mark id).suspicion = (store.mark id).suspicion
  regained : ∀ id, Cleared policy root store id →
    0 ≤ (store'.mark id).suspicion ∧ (store'.mark id).suspicion ≤ (store.mark id).suspicion

namespace Regains

variable (h : Regains policy root store store')

include h

theorem suspicion_le (id : NodeId) : (store'.mark id).suspicion ≤ (store.mark id).suspicion := by
  by_cases hid : Cleared policy root store id
  · exact (h.regained id hid).2
  · exact le_of_eq (h.left id hid)

theorem sublist_high : (high policy root store').Sublist (high policy root store) := by
  simp only [high, Store.suspects_eq, List.filter_filter]
  refine List.monotone_filter_right _ fun n hn => ?_
  simp only [Bool.and_eq_true, Bool.not_eq_true', decide_eq_false_iff_not, not_lt,
    decide_eq_true_eq] at hn ⊢
  exact ⟨hn.1.trans (h.suspicion_le n.id), hn.2.trans_le (h.suspicion_le n.id)⟩

section Nodup

variable (hn : (root.statements.map Node.id).Nodup)

include hn

omit h in
theorem not_cleared_of_within {n : Node} (hmem : n ∈ within policy root store) :
    ¬ Cleared policy root store n.id := by
  rw [cleared_iff_of_within hmem]
  exact fun ⟨m, hm, hid⟩ => not_split_of_nodup hn ⟨n, hmem, m, hm, hid.symm⟩

omit h in
theorem nodup_high : (high policy root store).Nodup := by
  rw [high, Store.suspects_eq]
  exact (hn.of_map _).sublist (List.filter_sublist.trans List.filter_sublist)

theorem suspicion_of_within {n : Node} (hmem : n ∈ within policy root store) :
    store'.suspicion n = store.suspicion n :=
  h.left n.id (not_cleared_of_within hn hmem)

theorem mem_high_of_within {n : Node} (hmem : n ∈ within policy root store) :
    n ∈ high policy root store' := by
  obtain ⟨hsuspect, hle⟩ := mem_high.mp (mem_high_iff.mpr (.inl hmem))
  rw [← h.suspicion_of_within hn hmem] at hle
  rw [Store.mem_suspects, ← h.suspicion_of_within hn hmem] at hsuspect
  exact mem_high.mpr ⟨Store.mem_suspects.mpr hsuspect, hle⟩

/-- The cut takes the same statements. -/
theorem mem_within_iff {n : Node} :
    n ∈ within policy root store' ↔ n ∈ within policy root store := by
  have hhigh {n : Node} (hmem : n ∈ within policy root store) := h.mem_high_of_within hn hmem
  have hsame {n : Node} (hmem : n ∈ within policy root store) := h.suspicion_of_within hn hmem
  unfold within at hhigh hsame ⊢
  cases hlimit : policy.limit with
  | none =>
    simp only [hlimit] at hhigh ⊢
    exact ⟨fun hmem => h.sublist_high.subset hmem, hhigh⟩
  | some limit =>
    simp only [hlimit] at hhigh hsame ⊢
    exact mem_take_ranked_iff (nodup_high hn) h.sublist_high (fun x hx => ⟨hhigh hx, hsame hx⟩)
      fun x _ => h.suspicion_le x.id

theorem length_within :
    (within policy root store').length = (within policy root store).length := by
  have hnodup {s : Store α} : (within policy root s).Nodup :=
    (List.nodup_append.mp ((perm_within_beyond policy root s).nodup_iff.mpr (nodup_high hn))).1
  exact ((List.perm_ext_iff_of_nodup hnodup hnodup).mpr fun n => h.mem_within_iff hn).length_eq

/-- What was cleared the first time is cleared again, if it has any suspicion. -/
theorem cleared_again {id : NodeId} (hid : Cleared policy root store id)
    (hpos : 0 < (store'.mark id).suspicion) : Cleared policy root store' id := by
  by_contra hnot
  obtain ⟨n, hn', rfl⟩ := hid.statement
  have hwithin := mem_within_of_not_cleared (Store.mem_suspects.mpr ⟨hn', hpos⟩) hnot
  exact not_cleared_of_within hn ((h.mem_within_iff hn).mp hwithin) hid

/-- Nothing else is cleared. -/
theorem cleared_before {id : NodeId} (hid : Cleared policy root store' id) :
    Cleared policy root store id := by
  obtain ⟨n, hmem, rfl⟩ := hid
  by_contra hnot
  obtain hlow | hbeyond := List.mem_append.mp hmem
  · obtain ⟨hsuspect, hlt⟩ := mem_low.mp hlow
    have hsame : store'.suspicion n = store.suspicion n := h.left n.id hnot
    rw [Store.mem_suspects, hsame] at hsuspect
    rw [hsame] at hlt
    exact hnot (cleared_of_low (mem_low.mpr ⟨Store.mem_suspects.mpr hsuspect, hlt⟩))
  · have hhigh := h.sublist_high.subset (mem_high_iff.mpr (.inr hbeyond))
    have hwithin := (mem_high_iff.mp hhigh).resolve_right fun hold => hnot (cleared_of_beyond hold)
    exact not_cleared_of_within hn ((h.mem_within_iff hn).mpr hwithin) ⟨n, hmem, rfl⟩

theorem suspicion_clearLow (id : NodeId) :
    ((clearLow policy root store').2.mark id).suspicion =
      ((clearLow policy root store).2.mark id).suspicion := by
  rw [Localization.suspicion_clearLow, Localization.suspicion_clearLow]
  by_cases hid : Cleared policy root store id
  · rw [if_pos hid]
    refine ite_eq_left_iff.mpr fun hnot => ?_
    exact le_antisymm (le_of_not_gt fun hpos => hnot (h.cleared_again hn hid hpos))
      (h.regained id hid).1
  · rw [if_neg hid, if_neg fun hagain => hid (h.cleared_before hn hagain), h.left id hid]

end Nodup

end Regains

/-! ## The second pass -/

variable [Root α] {results : List TestResult} {coverage : Coverage}

/-- Before anything is cleared for the second time, what was left is as it was. -/
theorem regains_annotate (policy : SuspicionPolicy α) (root : Node) (results : List TestResult)
    (coverage : Coverage) (store : Store α) :
    Regains policy root (annotate root results coverage store)
      (annotate root results coverage (localize policy root results coverage store).2) := by
  let before := annotate root results coverage store
  let after := (localize policy root results coverage store).2
  let again := annotate root results coverage after
  have hafter : store.Annotates after :=
    (writes_annotates root).localize policy results coverage store
  have hcleared (id : NodeId) : (after.mark id).suspicion =
      if Cleared policy root before id then 0 else (before.mark id).suspicion :=
    suspicion_clearLow policy root before id
  -- both times the same scores are awarded
  let scores (id : NodeId) : Set α := {x | Awards root store results coverage id x}
  have hfirst {id : NodeId} (hid : id < store.next) : IsGreatest
      (insert (store.mark id).suspicion (scores id)) (before.mark id).suspicion :=
    isGreatest_annotate hid
  have hsecond {id : NodeId} (hid : id < store.next) : IsGreatest
      (insert (after.mark id).suspicion (scores id)) (again.mark id).suspicion := by
    simp only [scores, ← awards_iff_of_annotates hafter]
    exact isGreatest_annotate (hafter.next_eq ▸ hid)
  have hbelow {id : NodeId} (hid : id < store.next) : ∀ x ∈ scores id,
      x ≤ (before.mark id).suspicion := fun x hx => (hfirst hid).2 (.inr hx)
  have hunknown {s : Store α} (hs : store.Annotates s) {id : NodeId} (hid : ¬ id < store.next) :
      s.mark id = .fresh [] :=
    Store.mark_of_next_le (hs.next_eq ▸ Nat.le_of_not_lt hid)
  have hbefore : store.Annotates before := annotates_annotate root results coverage store
  have hagain : store.Annotates again :=
    hafter.trans (annotates_annotate root results coverage after)
  refine ⟨fun id hnot => ?_, fun id hid => ?_⟩
  · by_cases hknown : id < store.next
    · have hleft := hsecond hknown
      rw [hcleared, if_neg hnot] at hleft
      refine le_antisymm ?_ (hleft.2 (.inl rfl))
      exact hleft.1.elim (fun heq => heq.le) fun hx => hbelow hknown _ hx
    · exact congrArg Mark.suspicion ((hunknown hagain hknown).trans (hunknown hbefore hknown).symm)
  · have hknown : id < store.next := by
      by_contra hnot
      have hpos := hid.pos
      rw [hunknown hbefore hnot] at hpos
      exact lt_irrefl _ hpos
    have hback := hsecond hknown
    rw [hcleared, if_pos hid] at hback
    refine ⟨hback.2 (.inl rfl), ?_⟩
    exact hback.1.elim (fun heq => heq.trans_le hid.pos.le) fun hx => hbelow hknown _ hx

/-- A second pass with the same arguments reports the same, and every mark is as the first one left
it. -/
theorem localize_idempotent (hn : (root.statements.map Node.id).Nodup)
    (policy : SuspicionPolicy α) (results : List TestResult) (coverage : Coverage)
    (store : Store α) :
    localize policy root results coverage (localize policy root results coverage store).2 =
      localize policy root results coverage store := by
  let after := (localize policy root results coverage store).2
  let again := localize policy root results coverage after
  have hafter : store.Annotates after :=
    (writes_annotates root).localize policy results coverage store
  have hagain : store.Annotates again.2 :=
    hafter.trans ((writes_annotates root).localize policy results coverage after)
  have hregains := regains_annotate policy root results coverage store
  have hkept : again.1.kept = (localize policy root results coverage store).1.kept := by
    have hlength (s : Store α) : (localize policy root results coverage s).1.kept =
        (within policy root (annotate root results coverage s)).length :=
      congrArg Prod.fst (clearLow_eq policy root _)
    rw [hlength, hlength]
    exact hregains.length_within hn
  refine Prod.ext ?_ (hagain.eq_of_marks hafter (fun id _ => ?_) fun id hid => ?_)
  · rw [report_of_annotates hafter, hkept]
  · exact hregains.suspicion_clearLow hn id
  · by_cases hunit : ∃ u ∈ root.units, u.id = id
    · obtain ⟨u, hu, rfl⟩ := hunit
      obtain ⟨classes, hclasses, hmem⟩ := coveredBy_localize_unit policy results coverage hu hid
      obtain ⟨classes', hclasses', hmem'⟩ :=
        coveredBy_localize_unit policy results coverage hu (hafter.next_eq ▸ hid)
      -- the second time each class is there already
      have hsame : classes' = classes := by
        refine SortedSet.ext fun c => ?_
        rw [hmem', reaches_iff_of_annotates hafter, hclasses, Option.getD_some, hmem]
        simp only [or_assoc, or_self]
      exact (hclasses'.trans (congrArg some hsame)).trans hclasses.symm
    · exact coveredBy_localize_of_ne policy results coverage fun u hu hid => hunit ⟨u, hu, hid⟩

end Localization

/-! ## A limit between equals -/

namespace Contest

def statement (id line : Nat) : Node := .make (id + 1) .atomicStatement [.leaf id "x" ⟨line, 1⟩]

def program : Node :=
  .make 7 .file [.make 6 .typeDeclaration [statement 0 1, statement 2 2, statement 4 3]]

/-- An earlier pass has found the third statement suspicious. -/
def marks : Store Rat :=
  ⟨#[.fresh [], .fresh [], .fresh [], .fresh [], .fresh [], ⟨3 / 4, none, []⟩,
    .fresh [(Attributes.className, "A")], .fresh []]⟩

def results : List TestResult := [.fail ⟨"Test", "breaks"⟩ "broken"]

/-- The first two lines get the same score. -/
def coverage : Coverage := [(⟨"Test", "breaks"⟩, .ofList [⟨"A", 1⟩, ⟨"A", 2⟩])]

def onlyOne : SuspicionPolicy Rat := ⟨1 / 2, some 1⟩

end Contest

open GeneticRepair.Localization Contest in
/-- Of three candidates the first is left; the second pass meets two of them and leaves the same. -/
theorem localize_idempotent_contest : ∃ _ : Root Rat,
    (program.statements.map Node.id).Nodup ∧
      localize onlyOne program results coverage
          (localize onlyOne program results coverage marks).2 =
        localize onlyOne program results coverage marks ∧
      ((annotate program results coverage marks).suspects program).map Node.id = [1, 3, 5] ∧
      ((localize onlyOne program results coverage marks).2.suspects program).map Node.id = [1] ∧
      ((annotate program results coverage
        (localize onlyOne program results coverage marks).2).suspects program).map Node.id =
          [1, 3] := by
  let _ := quotientRoot
  have hn : (program.statements.map Node.id).Nodup := by decide +kernel
  exact ⟨quotientRoot, hn, localize_idempotent hn onlyOne results coverage marks, by decide +kernel,
    by decide +kernel, by decide +kernel⟩

end GeneticRepair
