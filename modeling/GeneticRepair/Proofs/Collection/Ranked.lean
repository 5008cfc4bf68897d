import Mathlib.Data.List.Perm.Subperm
import GeneticRepair.Proofs.Numeric.Exact
import GeneticRepair.Collection.Ranking

/-!
# `Proofs/Collection/Ranked.lean` — what a ranking puts first

In a ranking each entry is ahead of all later ones: it scores higher, or it scores the same and came
first (`pairwise_ranked`). So what is cut off after some entries scores no higher than what is left
(`score_le_of_cut`), and the same entries are left when all others lose score or drop out
(`mem_take_ranked_iff`).
-/

set_option autoImplicit false

namespace GeneticRepair

variable {α β : Type} [OrderedScalar α] {score score' : β → α} {R : β → β → Prop} {l l' : List β}
  {x y : β}

/-- An entry that a ranking puts before another one; `R` says which of two equals came first. -/
def Ahead (score : β → α) (R : β → β → Prop) (x y : β) : Prop :=
  score y < score x ∨ score y = score x ∧ R x y

theorem Ahead.score_le (h : Ahead score R x y) : score y ≤ score x :=
  h.elim le_of_lt fun h => le_of_eq h.1

theorem pairwise_rankInto (hx : ∀ y ∈ l, R x y) (hl : l.Pairwise (Ahead score R)) :
    (rankInto score x l).Pairwise (Ahead score R) := by
  induction l with
  | nil => exact List.pairwise_singleton _ _
  | cons y l ih =>
    obtain ⟨hy, hl'⟩ := List.pairwise_cons.mp hl
    unfold rankInto
    split
    · next hle =>
      refine List.pairwise_cons.mpr ⟨fun z hz => ?_, hl⟩
      have hzx : score z ≤ score x := by
        obtain rfl | hz := List.mem_cons.mp hz
        · exact hle
        · exact (hy z hz).score_le.trans hle
      exact hzx.lt_or_eq.imp_right fun heq => ⟨heq, hx z hz⟩
    · next hnot =>
      refine List.pairwise_cons.mpr ⟨fun z hz => ?_, ih (fun z hz => hx z (.tail _ hz)) hl'⟩
      obtain rfl | hz := List.mem_cons.mp ((perm_rankInto score x l).mem_iff.mp hz)
      · exact .inl (lt_of_not_ge hnot)
      · exact hy z hz

/-- The entries of a ranking descend, and equal ones stay in order. -/
theorem pairwise_ranked (hl : l.Pairwise R) : (ranked score l).Pairwise (Ahead score R) := by
  induction l with
  | nil => exact .nil
  | cons x l ih =>
    obtain ⟨hx, hl⟩ := List.pairwise_cons.mp hl
    exact pairwise_rankInto (fun y hy => hx y (mem_ranked.mp hy)) (ih hl)

theorem ahead_of_cut (hl : l.Pairwise R) {k : Nat} (hx : x ∈ (ranked score l).take k)
    (hy : y ∈ (ranked score l).drop k) : Ahead score R x y := by
  have hsplit : ((ranked score l).take k ++ (ranked score l).drop k).Pairwise (Ahead score R) := by
    rw [List.take_append_drop]
    exact pairwise_ranked hl
  exact (List.pairwise_append.mp hsplit).2.2 x hx y hy

/-- What is cut off scores no higher than what is left. -/
theorem score_le_of_cut {k : Nat} (hx : x ∈ (ranked score l).take k)
    (hy : y ∈ (ranked score l).drop k) : score y ≤ score x :=
  (ahead_of_cut (List.pairwise_of_forall (R := fun _ _ => True) fun _ _ => trivial) hx hy).score_le

theorem nodup_ranked (score : β → α) (hn : l.Nodup) : (ranked score l).Nodup :=
  (perm_ranked score l).nodup_iff.mpr hn

theorem ranked_congr (h : ∀ x ∈ l, score' x = score x) : ranked score' l = ranked score l := by
  have hinto : ∀ (x : β) (m : List β), score' x = score x → (∀ y ∈ m, score' y = score y) →
      rankInto score' x m = rankInto score x m := by
    intro x m hx hm
    induction m with
    | nil => rfl
    | cons y m ih =>
      rw [rankInto, rankInto, hx, hm y List.mem_cons_self, ih fun z hz => hm z (.tail _ hz)]
  induction l with
  | nil => rfl
  | cons x l ih =>
    have hl : ∀ y ∈ l, score' y = score y := fun y hy => h y (.tail _ hy)
    have hcons : ∀ f : β → α, ranked f (x :: l) = rankInto f x (ranked f l) := fun _ => rfl
    rw [hcons, hcons, ih hl]
    exact hinto x _ (h x List.mem_cons_self) fun y hy => hl y (mem_ranked.mp hy)

/-- In a list without repetitions one of two entries comes first. -/
theorem not_sublist_swap (hn : l.Nodup) (h : [x, y].Sublist l) : ¬ [y, x].Sublist l := by
  induction l with
  | nil => cases h
  | cons z l ih =>
    obtain ⟨hz, hl⟩ := List.nodup_cons.mp hn
    intro h'
    cases h with
    | cons _ h =>
      cases h' with
      | cons _ h' => exact ih hl h h'
      | cons_cons _ h' => exact hz (h.subset (.tail _ List.mem_cons_self))
    | cons_cons _ h =>
      cases h' with
      | cons _ h' => exact hz (h'.subset (.tail _ List.mem_cons_self))
      | cons_cons _ h' => exact hz (List.singleton_sublist.mp h)

/-- If the first `k` entries keep their scores, and of the others some lose score and some drop out,
the first `k` entries stay the same. -/
theorem mem_take_ranked_iff (hn : l.Nodup) (hsub : l'.Sublist l) {k : Nat}
    (hkept : ∀ x ∈ (ranked score l).take k, x ∈ l' ∧ score' x = score x)
    (hlow : ∀ x ∈ l', score' x ≤ score x) :
    x ∈ (ranked score' l').take k ↔ x ∈ (ranked score l).take k := by
  have hl : l.Pairwise fun x y => [x, y].Sublist l := List.pairwise_iff_forall_sublist.mpr id
  have hl' := hl.sublist hsub
  have hkeptNodup := (nodup_ranked score hn).sublist (List.take_sublist k _)
  have hkeptNodup' := (nodup_ranked score' (hn.sublist hsub)).sublist (List.take_sublist k _)
  -- what the new ranking puts ahead of an old winner is an old winner itself
  have hwinner : ∀ x ∈ (ranked score l).take k, ∀ y ∈ l', Ahead score' (fun x y => [x, y].Sublist l) y x →
      y ∈ (ranked score l).take k := by
    intro x hx y hy hahead
    have hmem : y ∈ (ranked score l).take k ++ (ranked score l).drop k := by
      rw [List.take_append_drop]
      exact mem_ranked.mpr (hsub.subset hy)
    refine (List.mem_append.mp hmem).resolve_right fun hcut => ?_
    have hbehind := ahead_of_cut hl hx hcut
    obtain hlt | ⟨heq, hyx⟩ := hahead
    · rw [(hkept x hx).2] at hlt
      exact absurd (hbehind.score_le.trans_lt hlt) (not_lt_of_ge (hlow y hy))
    · rw [(hkept x hx).2] at heq
      obtain hlt | ⟨-, hxy⟩ := hbehind
      · exact absurd (hlt.trans_eq heq) (not_lt_of_ge (hlow y hy))
      · exact not_sublist_swap hn hyx hxy
  have hold : ∀ x ∈ (ranked score l).take k, x ∈ (ranked score' l').take k := by
    intro x hx
    by_contra hnot
    have hmem : x ∈ (ranked score' l').take k ++ (ranked score' l').drop k := by
      rw [List.take_append_drop]
      exact mem_ranked.mpr (hkept x hx).1
    have hcut := (List.mem_append.mp hmem).resolve_left hnot
    have hsubset : (ranked score' l').take k ⊆ (ranked score l).take k := fun y hy =>
      hwinner x hx y (mem_ranked.mp (List.mem_of_mem_take hy)) (ahead_of_cut hl' hy hcut)
    have hfull : ((ranked score' l').take k).length = k := by
      have hpos := List.length_pos_of_mem hcut
      rw [List.length_drop] at hpos
      rw [List.length_take]
      omega
    have hperm := (List.subperm_of_subset hkeptNodup' hsubset).perm_of_length_le
      (by rw [hfull]; exact List.length_take_le _ _)
    exact hnot (hperm.mem_iff.mpr hx)
  refine ⟨fun hx => ?_, hold x⟩
  by_cases hlong : k ≤ (ranked score l).length
  · have hperm := (List.subperm_of_subset hkeptNodup hold).perm_of_length_le
      (by rw [List.length_take, List.length_take, Nat.min_eq_left hlong]; exact Nat.min_le_left _ _)
    exact hperm.mem_iff.mpr hx
  · rw [List.take_of_length_le (Nat.le_of_not_le hlong)]
    exact mem_ranked.mpr (hsub.subset (mem_ranked.mp (List.mem_of_mem_take hx)))

end GeneticRepair
