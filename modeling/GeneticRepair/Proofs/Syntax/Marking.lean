import Mathlib.Order.Bounds.Basic
import GeneticRepair.Proofs.Numeric.Exact
import GeneticRepair.Syntax.Store

/-!
# `Proofs/Syntax/Marking.lean` — many writes to marks

Analyses raise, clear and cover many nodes one after the other. A mark is touched by the writes to
its node only (`mark_updateAll`), so what they come to is said mark by mark: the suspicion is the
greatest of what it was and the scores that went to the node (`isGreatest_raiseAll`), it is zero if
the node was cleared (`suspicion_clearAll`), and the covering classes are the earlier ones and all
that were added (`coveredBy_coverAll`).
-/

set_option autoImplicit false

namespace GeneticRepair

namespace Mark

section Scalar

variable {α β γ : Type} [Scalar α]

theorem suspicion_foldl_clear (l : List β) (m : Mark α) :
    (l.foldl (fun m _ => m.clear) m).suspicion = if l = [] then m.suspicion else 0 := by
  induction l generalizing m with
  | nil => rfl
  | cons x l ih =>
    rw [List.foldl_cons, ih, if_neg (List.cons_ne_nil x l)]
    split
    · rfl
    · rfl

omit [Scalar α] in
/-- Once a set is there, more classes are added to it. -/
theorem coveredBy_foldl_cover (f : β → List String) (l : List β) {m : Mark α}
    {classes : SortedSet String} (hm : m.coveredBy = some classes) :
    ∃ more, (l.foldl (fun m x => m.cover (f x)) m).coveredBy = some more ∧
      ∀ c, c ∈ more ↔ c ∈ classes ∨ ∃ x ∈ l, c ∈ f x := by
  induction l generalizing m classes with
  | nil => exact ⟨classes, hm, fun c => by simp⟩
  | cons x l ih =>
    have hfirst : (m.cover (f x)).coveredBy = some (classes.insertAll (f x)) := by
      rw [cover, hm]
      rfl
    obtain ⟨more, hmore, hmem⟩ := ih hfirst
    refine ⟨more, hmore, fun c => ?_⟩
    simp only [hmem, SortedSet.mem_insertAll, List.mem_cons, exists_eq_or_imp]
    rw [or_comm (a := c ∈ f x), or_assoc]

omit [Scalar α] in
theorem foldl_part {part : Mark α → γ} {f : β → Mark α → Mark α}
    (h : ∀ x m, part (f x m) = part m) (l : List β) (m : Mark α) :
    part (l.foldl (fun m x => f x m) m) = part m :=
  List.foldlRecOn (motive := fun m' => part m' = part m) l (fun m x => f x m) rfl
    fun m' hm' x _ => (h x m').trans hm'

end Scalar

variable {α : Type} [OrderedScalar α]

theorem suspicion_raise (m : Mark α) (score : α) :
    (m.raise score).suspicion = max m.suspicion score := by
  unfold raise
  split
  · next h => exact (max_eq_right (le_of_lt h)).symm
  · next h => exact (max_eq_left (le_of_not_gt h)).symm

theorem isGreatest_foldl_raise {β : Type} (f : β → α) (l : List β) (m : Mark α) :
    IsGreatest (insert m.suspicion {x | ∃ w ∈ l, f w = x})
      (l.foldl (fun m w => m.raise (f w)) m).suspicion := by
  induction l generalizing m with
  | nil => simp
  | cons w l ih =>
    have hrest := ih (m.raise (f w))
    rw [suspicion_raise] at hrest
    constructor
    · obtain hmax | ⟨w', hw', hx⟩ := hrest.1
      · rw [List.foldl_cons, hmax]
        exact (max_choice m.suspicion (f w)).elim .inl
          fun h => .inr ⟨w, List.mem_cons_self, h.symm⟩
      · exact .inr ⟨w', .tail _ hw', hx⟩
    · have hbound := hrest.2 (Set.mem_insert _ _)
      rintro x (rfl | ⟨w', hw', rfl⟩)
      · exact (le_max_left _ _).trans hbound
      · obtain rfl | hw' := List.mem_cons.mp hw'
        · exact (le_max_right _ _).trans hbound
        · exact hrest.2 (.inr ⟨w', hw', rfl⟩)

end Mark

namespace Store

section Scalar

variable {α β γ : Type} [Scalar α] {s s' : Store α} {id : NodeId}

/-- Stores with the same marks are the same. -/
theorem ext_mark (hnext : s.next = s'.next) (h : ∀ id < s.next, s.mark id = s'.mark id) :
    s = s' := by
  obtain ⟨marks⟩ := s
  obtain ⟨marks'⟩ := s'
  refine congrArg mk (Array.ext hnext fun i hi hi' => ?_)
  have hmark := h i hi
  simp only [mark, Array.getD_eq_getD_getElem?, Array.getElem?_eq_getElem hi,
    Array.getElem?_eq_getElem hi', Option.getD_some] at hmark
  exact hmark

theorem mark_of_next_le (h : s.next ≤ id) : s.mark id = .fresh [] := by
  rw [mark, Array.getD_eq_getD_getElem?, Array.getElem?_eq_none h]
  rfl

/-- Changes one mark after the other. -/
def updateAll (s : Store α) (key : β → NodeId) (f : β → Mark α → Mark α) (l : List β) : Store α :=
  l.foldl (fun s w => s.update (key w) (f w)) s

variable {key : β → NodeId} {f : β → Mark α → Mark α} {l : List β}

omit [Scalar α] in
theorem updateAll_cons (w : β) :
    s.updateAll key f (w :: l) = (s.update (key w) (f w)).updateAll key f l := rfl

omit [Scalar α] in
@[simp] theorem next_updateAll (s : Store α) (key : β → NodeId) (f : β → Mark α → Mark α)
    (l : List β) : (s.updateAll key f l).next = s.next := by
  induction l generalizing s with
  | nil => rfl
  | cons w l ih => rw [updateAll_cons, ih, next_update]

/-- A mark goes through the changes at its node, in order. -/
theorem mark_updateAll (hid : id < s.next) :
    (s.updateAll key f l).mark id =
      (l.filter (key · = id)).foldl (fun m w => f w m) (s.mark id) := by
  induction l generalizing s with
  | nil => rfl
  | cons w l ih =>
    rw [updateAll_cons, ih ((next_update ..).symm ▸ hid), mark_update]
    by_cases hw : key w = id
    · rw [if_pos ⟨hw.symm, hw ▸ hid⟩, List.filter_cons, if_pos (decide_eq_true hw), List.foldl_cons]
    · rw [if_neg fun h => hw h.1.symm, List.filter_cons, if_neg (by simpa using hw)]

theorem mark_updateAll_part {part : Mark α → γ} (h : ∀ x m, part (f x m) = part m) :
    part ((s.updateAll key f l).mark id) = part (s.mark id) := by
  by_cases hid : id < s.next
  · rw [mark_updateAll hid, Mark.foldl_part h]
  · have hle := Nat.le_of_not_lt hid
    rw [mark_of_next_le hle, mark_of_next_le ((next_updateAll ..).symm ▸ hle)]

theorem mark_updateAll_of_not_mem (h : ∀ w ∈ l, key w ≠ id) :
    (s.updateAll key f l).mark id = s.mark id := by
  by_cases hid : id < s.next
  · rw [mark_updateAll hid, List.filter_eq_nil_iff.mpr fun w hw => by simpa using h w hw]
    rfl
  · have hle := Nat.le_of_not_lt hid
    rw [mark_of_next_le hle, mark_of_next_le ((next_updateAll ..).symm ▸ hle)]

/-! ## Clearing, covering and raising -/

def clearAll (s : Store α) (l : List Node) : Store α := s.updateAll Node.id (fun _ => .clear) l

theorem suspicion_clearAll (s : Store α) (l : List Node) (id : NodeId) :
    ((s.clearAll l).mark id).suspicion =
      if ∃ n ∈ l, n.id = id then 0 else (s.mark id).suspicion := by
  by_cases h : ∃ n ∈ l, n.id = id
  · obtain ⟨n, hn, rfl⟩ := h
    rw [if_pos ⟨n, hn, rfl⟩]
    by_cases hid : n.id < s.next
    · have hne : l.filter (·.id = n.id) ≠ [] :=
        List.ne_nil_of_mem (List.mem_filter.mpr ⟨hn, decide_eq_true rfl⟩)
      rw [clearAll, mark_updateAll hid, Mark.suspicion_foldl_clear, if_neg hne]
    · rw [mark_of_next_le ((next_updateAll ..).symm ▸ Nat.le_of_not_lt hid)]
      rfl
  · rw [if_neg h, clearAll, mark_updateAll_of_not_mem fun n hn heq => h ⟨n, hn, heq⟩]

@[simp] theorem coveredBy_clearAll (s : Store α) (l : List Node) (id : NodeId) :
    ((s.clearAll l).mark id).coveredBy = (s.mark id).coveredBy :=
  mark_updateAll_part fun _ _ => rfl

def coverAll (s : Store α) (l : List (Node × List String)) : Store α :=
  s.updateAll (·.1.id) (fun w m => m.cover w.2) l

@[simp] theorem suspicion_coverAll (s : Store α) (l : List (Node × List String)) (id : NodeId) :
    ((s.coverAll l).mark id).suspicion = (s.mark id).suspicion :=
  mark_updateAll_part fun _ _ => rfl

/-- A node that is covered at all has a set afterwards: the earlier one and everything added. -/
theorem coveredBy_coverAll (hid : id < s.next) {l : List (Node × List String)}
    (h : ∃ w ∈ l, w.1.id = id) :
    ∃ classes, ((s.coverAll l).mark id).coveredBy = some classes ∧
      ∀ c, c ∈ classes ↔ c ∈ (s.mark id).coveredBy.getD ∅ ∨ ∃ w ∈ l, w.1.id = id ∧ c ∈ w.2 := by
  obtain ⟨w, hw, rfl⟩ := h
  have hmem : w ∈ l.filter (·.1.id = w.1.id) := List.mem_filter.mpr ⟨hw, decide_eq_true rfl⟩
  have hwrites (c : String) : (∃ w' ∈ l.filter (·.1.id = w.1.id), c ∈ w'.2) ↔
      ∃ w' ∈ l, w'.1.id = w.1.id ∧ c ∈ w'.2 := by
    simp only [List.mem_filter, decide_eq_true_eq, and_assoc]
  rw [coverAll, mark_updateAll hid]
  -- the first write to the node makes the set, and the others add to it
  obtain ⟨first, rest, hsplit⟩ := List.exists_cons_of_ne_nil (List.ne_nil_of_mem hmem)
  obtain ⟨classes, hclasses, hall⟩ := Mark.coveredBy_foldl_cover (·.2) rest
    (m := (s.mark w.1.id).cover first.2) rfl
  rw [hsplit]
  refine ⟨classes, hclasses, fun c => ?_⟩
  rw [hall, ← hwrites, hsplit]
  simp only [SortedSet.mem_insertAll, List.mem_cons, exists_eq_or_imp]
  rw [or_comm (a := c ∈ first.2), or_assoc]

def raiseAll (s : Store α) (l : List (Node × α)) : Store α :=
  s.updateAll (·.1.id) (fun w m => m.raise w.2) l

@[simp] theorem coveredBy_raiseAll (s : Store α) (l : List (Node × α)) (id : NodeId) :
    ((s.raiseAll l).mark id).coveredBy = (s.mark id).coveredBy :=
  mark_updateAll_part fun w m => m.coveredBy_raise w.2

end Scalar

variable {α : Type} [OrderedScalar α]

/-- In the end the suspicion of a node is the greatest of what it was and the scores it got. -/
theorem isGreatest_raiseAll {s : Store α} {id : NodeId} (hid : id < s.next)
    (l : List (Node × α)) :
    IsGreatest (insert (s.mark id).suspicion {x | ∃ w ∈ l, w.1.id = id ∧ w.2 = x})
      ((s.raiseAll l).mark id).suspicion := by
  have hwrites : {x | ∃ w ∈ l, w.1.id = id ∧ w.2 = x} =
      {x | ∃ w ∈ l.filter (·.1.id = id), w.2 = x} := by
    simp only [List.mem_filter, decide_eq_true_eq, and_assoc]
  rw [raiseAll, mark_updateAll hid, hwrites]
  exact Mark.isGreatest_foldl_raise _ _ _

end Store

end GeneticRepair
