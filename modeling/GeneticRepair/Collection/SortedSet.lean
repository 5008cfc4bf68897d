/-!
# `Collection/SortedSet.lean` — sorted sets

A finite set kept as its strictly ascending list of members. Two sets with the same members are
equal, so a set can stand in a result that is compared, and the order in which answers list the
members is the order of the type.

* `mem_insert`, `mem_ofList`, `mem_union`, `mem_filter`: what each operation does to membership.
* `ext`: members decide equality; `nodup_toList`: none is listed twice.
-/

set_option autoImplicit false

namespace GeneticRepair

/-- Strictly ascending in the order of the type. -/
abbrev Ascending {κ : Type} [Ord κ] (l : List κ) : Prop :=
  l.Pairwise fun a b => compare a b = .lt

/-- A finite set, as the ascending list of its members. -/
structure SortedSet (κ : Type) [Ord κ] where
  /-- The members in ascending order. -/
  toList : List κ
  /-- No member is repeated and none is out of place. -/
  ascending : Ascending toList

namespace SortedSet

variable {κ : Type} [Ord κ]

/-- Puts a member where it belongs; one that is there already stays. -/
def insertSorted (a : κ) : List κ → List κ
  | [] => [a]
  | b :: l =>
    match compare a b with
    | .lt => a :: b :: l
    | .eq => b :: l
    | .gt => b :: insertSorted a l

theorem mem_insertSorted [Std.LawfulEqOrd κ] {a x : κ} {l : List κ} :
    x ∈ insertSorted a l ↔ x = a ∨ x ∈ l := by
  induction l with
  | nil => simp [insertSorted]
  | cons b l ih =>
    cases h : compare a b with
    | lt => simp [insertSorted, h]
    | eq =>
      have hab : a = b := Std.LawfulEqOrd.eq_of_compare h
      simp [insertSorted, hab]
    | gt => simp only [insertSorted, h, List.mem_cons, ih]; grind

theorem ascending_insertSorted [Std.TransOrd κ] [Std.LawfulEqOrd κ] (a : κ) {l : List κ}
    (hl : Ascending l) : Ascending (insertSorted a l) := by
  induction l with
  | nil => simp [insertSorted]
  | cons b l ih =>
    have hb := List.pairwise_cons.1 hl
    cases h : compare a b with
    | lt =>
      simp only [insertSorted, h]
      refine List.pairwise_cons.2 ⟨fun x hx => ?_, hl⟩
      rcases List.mem_cons.1 hx with rfl | hx
      · exact h
      · exact Std.TransCmp.lt_trans h (hb.1 x hx)
    | eq => simpa [insertSorted, h] using hl
    | gt =>
      simp only [insertSorted, h]
      refine List.pairwise_cons.2 ⟨fun x hx => ?_, ih hb.2⟩
      rcases mem_insertSorted.1 hx with rfl | hx
      · exact Std.OrientedCmp.lt_of_gt h
      · exact hb.1 x hx

instance : Membership κ (SortedSet κ) := ⟨fun s a => a ∈ s.toList⟩

theorem mem_iff {a : κ} {s : SortedSet κ} : a ∈ s ↔ a ∈ s.toList := Iff.rfl

instance [DecidableEq κ] (a : κ) (s : SortedSet κ) : Decidable (a ∈ s) :=
  inferInstanceAs (Decidable (a ∈ s.toList))

instance : EmptyCollection (SortedSet κ) := ⟨⟨[], List.Pairwise.nil⟩⟩

instance : Inhabited (SortedSet κ) := ⟨∅⟩

def size (s : SortedSet κ) : Nat := s.toList.length

def filter (p : κ → Bool) (s : SortedSet κ) : SortedSet κ :=
  ⟨s.toList.filter p, s.ascending.filter p⟩

@[simp] theorem not_mem_empty (a : κ) : a ∉ (∅ : SortedSet κ) := List.not_mem_nil

@[simp] theorem mem_filter {p : κ → Bool} {s : SortedSet κ} {x : κ} :
    x ∈ s.filter p ↔ x ∈ s ∧ p x = true :=
  List.mem_filter

variable [Std.TransOrd κ] [Std.LawfulEqOrd κ]

def insert (s : SortedSet κ) (a : κ) : SortedSet κ :=
  ⟨insertSorted a s.toList, ascending_insertSorted a s.ascending⟩

def insertAll (s : SortedSet κ) (l : List κ) : SortedSet κ := l.foldl insert s

def ofList (l : List κ) : SortedSet κ := insertAll ∅ l

def union (s t : SortedSet κ) : SortedSet κ := s.insertAll t.toList

/-! ## Membership -/

@[simp] theorem mem_insert {s : SortedSet κ} {a x : κ} : x ∈ s.insert a ↔ x = a ∨ x ∈ s :=
  mem_insertSorted

@[simp] theorem mem_insertAll {s : SortedSet κ} {l : List κ} {x : κ} :
    x ∈ s.insertAll l ↔ x ∈ l ∨ x ∈ s := by
  induction l generalizing s with
  | nil => simp [insertAll]
  | cons a l ih =>
    have : s.insertAll (a :: l) = (s.insert a).insertAll l := rfl
    rw [this, ih, mem_insert, List.mem_cons]
    grind

@[simp] theorem mem_ofList {l : List κ} {x : κ} : x ∈ ofList l ↔ x ∈ l := by
  simp [ofList]

@[simp] theorem mem_union {s t : SortedSet κ} {x : κ} : x ∈ s.union t ↔ x ∈ t ∨ x ∈ s :=
  mem_insertAll

/-! ## Equality -/

omit [Std.LawfulEqOrd κ] in
/-- An ascending list has no member that is below itself. -/
theorem ne_of_compare_lt {a b : κ} (h : compare a b = .lt) : a ≠ b := by
  rintro rfl
  simp [Std.ReflCmp.compare_self] at h

omit [Std.LawfulEqOrd κ] in
/-- Two ascending lists with the same members are the same list. -/
theorem toList_eq_of_mem_iff : ∀ {l m : List κ}, Ascending l → Ascending m →
    (∀ x, x ∈ l ↔ x ∈ m) → l = m
  | [], [], _, _, _ => rfl
  | [], b :: m, _, _, h => by simpa using (h b).2 (List.mem_cons_self ..)
  | a :: l, [], _, _, h => by simpa using (h a).1 (List.mem_cons_self ..)
  | a :: l, b :: m, hl, hm, h => by
    have ⟨ha, hl'⟩ := List.pairwise_cons.1 hl
    have ⟨hb, hm'⟩ := List.pairwise_cons.1 hm
    have hab : a = b := by
      rcases List.mem_cons.1 ((h a).1 (List.mem_cons_self ..)) with e | hmem
      · exact e
      · rcases List.mem_cons.1 ((h b).2 (List.mem_cons_self ..)) with e | hmem'
        · exact e.symm
        · have h1 := ha b hmem'
          have h2 := hb a hmem
          exact absurd rfl (ne_of_compare_lt (Std.TransCmp.lt_trans h1 h2))
    subst hab
    congr 1
    refine toList_eq_of_mem_iff hl' hm' fun x => ?_
    constructor
    · intro hx
      rcases List.mem_cons.1 ((h x).1 (List.mem_cons_of_mem _ hx)) with e | hx'
      · exact absurd e.symm (ne_of_compare_lt (ha x hx))
      · exact hx'
    · intro hx
      rcases List.mem_cons.1 ((h x).2 (List.mem_cons_of_mem _ hx)) with e | hx'
      · exact absurd e.symm (ne_of_compare_lt (hb x hx))
      · exact hx'

omit [Std.LawfulEqOrd κ] in
/-- Sets with the same members are equal. -/
theorem ext {s t : SortedSet κ} (h : ∀ x, x ∈ s ↔ x ∈ t) : s = t := by
  cases s; cases t
  congr 1
  exact toList_eq_of_mem_iff ‹_› ‹_› h

omit [Std.LawfulEqOrd κ] in
theorem nodup_toList (s : SortedSet κ) : s.toList.Nodup :=
  s.ascending.imp ne_of_compare_lt

instance [DecidableEq κ] : DecidableEq (SortedSet κ) := fun s t =>
  if h : s.toList = t.toList then
    isTrue (by cases s; cases t; cases h; rfl)
  else isFalse fun e => h (congrArg toList e)

end SortedSet

end GeneticRepair
