import Mathlib.Data.List.Forall2

/-!
# `Proofs/Collection/Related.lean` — lists, options and answers of related entries

Two computations on related entries keep to one another as long as they handle the entries alike.
For lists that is `List.Forall₂`, for options `Option.Rel`, and for computations that may fail it is
`Concur`: both fail for the same reason, or both succeed with related results.
-/

set_option autoImplicit false

namespace GeneticRepair

open List (Forall₂)

variable {α β γ δ ε : Type} {R : α → β → Prop} {S : γ → δ → Prop}

/-! ## Options -/

theorem rel_bind {a : Option α} {b : Option β} {f : α → Option γ} {g : β → Option δ}
    (h : Option.Rel R a b) (hfg : ∀ x y, R x y → Option.Rel S (f x) (g y)) :
    Option.Rel S (a.bind f) (b.bind g) := by
  cases h with
  | none => exact .none
  | some hxy => exact hfg _ _ hxy

theorem rel_map {a : Option α} {b : Option β} {f : α → γ} {g : β → δ}
    (h : Option.Rel R a b) (hfg : ∀ x y, R x y → S (f x) (g y)) :
    Option.Rel S (a.map f) (b.map g) := by
  cases h with
  | none => exact .none
  | some hxy => exact .some (hfg _ _ hxy)

theorem rel_or {a a' : Option α} {b b' : Option β} (h : Option.Rel R a b)
    (h' : Option.Rel R a' b') : Option.Rel R (a.or a') (b.or b') := by
  cases h with
  | none => exact h'
  | some hxy => exact .some hxy

theorem rel_imp {a : Option α} {b : Option β} {T : α → β → Prop} (h : Option.Rel R a b)
    (himp : ∀ x y, R x y → T x y) : Option.Rel T a b := by
  cases h with
  | none => exact .none
  | some hxy => exact .some (himp _ _ hxy)

/-- What is read off related options alike is the same. -/
theorem map_eq_of_rel {a : Option α} {b : Option β} {f : α → γ} {g : β → γ}
    (h : Option.Rel R a b) (hfg : ∀ x y, R x y → g y = f x) : b.map g = a.map f := by
  cases h with
  | none => rfl
  | some hxy => exact congrArg some (hfg _ _ hxy)

/-! ## Lists -/

variable {l : List α} {m : List β}

theorem forall₂_map_eq {f : α → γ} {g : β → γ} (h : Forall₂ R l m)
    (hfg : ∀ x y, R x y → g y = f x) : m.map g = l.map f := by
  induction h with
  | nil => rfl
  | cons hxy _ ih => rw [List.map_cons, List.map_cons, hfg _ _ hxy, ih]

theorem forall₂_flatMap {f : α → List γ} {g : β → List δ} (h : Forall₂ R l m)
    (hfg : ∀ x y, R x y → Forall₂ S (f x) (g y)) : Forall₂ S (l.flatMap f) (m.flatMap g) :=
  List.rel_flatten (List.rel_map (fun x y => hfg x y) h)

theorem forall₂_filter {keep : α → Bool} {keep' : β → Bool} (h : Forall₂ R l m)
    (hkeep : ∀ x y, R x y → keep' y = keep x) : Forall₂ R (l.filter keep) (m.filter keep') := by
  refine List.rel_filter (fun x y hxy => ?_) h
  show keep x = true ↔ keep' y = true
  rw [hkeep x y hxy]

/-- What is looked up under the same keys, as far as there is something. -/
theorem forall₂_filterMap {ι : Type} {f : ι → Option γ} {g : ι → Option δ}
    (h : ∀ i, Option.Rel S (f i) (g i)) (keys : List ι) :
    Forall₂ S (keys.filterMap f) (keys.filterMap g) := by
  refine List.rel_filterMap (R := Eq) (fun i j hij => ?_) (List.forall₂_eq_eq_eq ▸ rfl)
  subst hij
  exact h i

theorem find?_rel {keep : α → Bool} {keep' : β → Bool} (h : Forall₂ R l m)
    (hkeep : ∀ x y, R x y → keep' y = keep x) :
    Option.Rel R (l.find? keep) (m.find? keep') := by
  induction h with
  | nil => exact .none
  | cons hxy _ ih =>
    rw [List.find?_cons, List.find?_cons, hkeep _ _ hxy]
    split
    · exact .some hxy
    · exact ih

theorem any_eq_of_forall₂ {test : α → Bool} {test' : β → Bool} (h : Forall₂ R l m)
    (htest : ∀ x y, R x y → test' y = test x) : m.any test' = l.any test := by
  induction h with
  | nil => rfl
  | cons hxy _ ih => rw [List.any_cons, List.any_cons, htest _ _ hxy, ih]

theorem getElem?_rel (h : Forall₂ R l m) (i : Nat) : Option.Rel R l[i]? m[i]? := by
  induction h generalizing i with
  | nil => exact .none
  | cons hxy _ ih =>
    cases i with
    | zero => exact .some hxy
    | succ i => exact ih i

/-- Looking up a key in lists that have the same keys. -/
theorem lookup_rel {κ : Type} [BEq κ] {entries : List (κ × α)} {entries' : List (κ × β)}
    (h : Forall₂ (fun x y => y.1 = x.1 ∧ R x.2 y.2) entries entries') (key : κ) :
    Option.Rel R (entries.lookup key) (entries'.lookup key) := by
  induction h with
  | nil => exact .none
  | @cons x y _ _ hxy _ ih =>
    obtain ⟨k, a⟩ := x
    obtain ⟨k', b⟩ := y
    obtain ⟨rfl, hab⟩ := hxy
    rw [List.lookup_cons, List.lookup_cons]
    cases key == k' with
    | true => exact .some hab
    | false => exact ih

theorem forall₂_set {x : α} {y : β} (h : Forall₂ R l m) (hxy : R x y) (i : Nat) :
    Forall₂ R (l.set i x) (m.set i y) := by
  induction h generalizing i with
  | nil => exact .nil
  | cons hhead htail ih =>
    cases i with
    | zero => exact .cons hxy htail
    | succ i => exact .cons hhead (ih i)

theorem forall₂_eraseIdx (h : Forall₂ R l m) (i : Nat) :
    Forall₂ R (l.eraseIdx i) (m.eraseIdx i) := by
  induction h generalizing i with
  | nil => exact .nil
  | cons hhead htail ih =>
    cases i with
    | zero => exact htail
    | succ i => exact .cons hhead (ih i)

/-! ## Answers -/

/-- Both fail for the same reason, or both succeed with related results. -/
inductive Concur (S : γ → δ → Prop) : Except ε γ → Except ε δ → Prop where
  | error (e : ε) : Concur S (.error e) (.error e)
  | ok {x : γ} {y : δ} (related : S x y) : Concur S (.ok x) (.ok y)

namespace Concur

variable {a : Except ε α} {b : Except ε β}

theorem map {f : α → γ} {g : β → δ} (h : Concur R a b) (hfg : ∀ x y, R x y → S (f x) (g y)) :
    Concur S (a.map f) (b.map g) := by
  cases h with
  | error e => exact .error e
  | ok hxy => exact .ok (hfg _ _ hxy)

theorem imp {T : α → β → Prop} (h : Concur R a b) (himp : ∀ x y, R x y → T x y) :
    Concur T a b := by
  cases h with
  | error e => exact .error e
  | ok hxy => exact .ok (himp _ _ hxy)

end Concur

end GeneticRepair
