import GeneticRepair.Numeric.Scalar

/-!
# `Collection/Ranking.lean` — rankings

Lists in descending order of a score, where entries with the same score keep their order.
-/

set_option autoImplicit false

namespace GeneticRepair

variable {α β : Type} [Scalar α]

/-- Puts an entry before the first one that does not score higher. -/
def rankInto (score : β → α) (x : β) : List β → List β
  | [] => [x]
  | y :: l => if score y ≤ score x then x :: y :: l else y :: rankInto score x l

/-- The entries in descending order of score; the earlier of two equals stays first. -/
def ranked (score : β → α) (l : List β) : List β := l.foldr (rankInto score) []

theorem perm_rankInto (score : β → α) (x : β) (l : List β) :
    (rankInto score x l).Perm (x :: l) := by
  induction l with
  | nil => exact .refl _
  | cons y l ih =>
    unfold rankInto
    split
    · exact .refl _
    · exact (List.Perm.cons y ih).trans (.swap x y l)

/-- A ranking neither loses nor repeats an entry. -/
theorem perm_ranked (score : β → α) (l : List β) : (ranked score l).Perm l := by
  induction l with
  | nil => exact .refl _
  | cons x l ih => exact (perm_rankInto score x _).trans (.cons x ih)

@[simp] theorem length_ranked (score : β → α) (l : List β) : (ranked score l).length = l.length :=
  (perm_ranked score l).length_eq

@[simp] theorem mem_ranked {score : β → α} {l : List β} {x : β} : x ∈ ranked score l ↔ x ∈ l :=
  (perm_ranked score l).mem_iff

end GeneticRepair
