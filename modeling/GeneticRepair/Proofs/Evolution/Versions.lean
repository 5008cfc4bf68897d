import GeneticRepair.Evolution.Crossover
import GeneticRepair.Evolution.Mutation
import GeneticRepair.Proofs.Syntax.Editing

/-!
# `Proofs/Evolution/Versions.lean` — how the search makes a version

Mutation and crossover make a version in two ways, by one edit at a place (`Mutation.editAt`) and by
giving a place other children (`Crossover.graft`). Both come down to `EditedAt`. How an operator
comes to its answer is read here once and for all: `Mutation.Application` lists three ways, and
`application` says that there is no fourth.
-/

set_option autoImplicit false

namespace GeneticRepair

variable {α : Type} [Scalar α] {s s' : Store α} {t t' : Node} {path : ChildPath}

/-- One edit of a copied spine is a script of one. -/
theorem Node.editedAt_of_attempt {spine spine' : Spine} {e : Edit} {out : Option Node}
    (hs : s.Holds t) (hcopy : t.copySpine path s = (some spine, s'))
    (he : e.attempt spine = .ok (out, spine')) :
    EditedAt path [e] s s' t spine'.close [.ok out] := by
  have hedited := (edited_exact hs path [e]).2 spine s' hcopy
  unfold Edit.attemptAll at hedited
  rw [he] at hedited
  exact hedited

/-- The new version, if there is one. -/
def MutationResult.offspring : MutationResult → List Node
  | .changed root _ _ => [root]
  | _ => []

/-! ## One edit at a place -/

namespace Mutation

/-- A removal makes what the script makes, which also hands out the removed child. -/
theorem attempt_removeAt (index : Nat) (spine : Spine) :
    ((Edit.remove index).attempt spine).map (·.2) = (spine.removeAt index).map (·.2) := by
  rw [Edit.attempt]
  cases spine.removeAt index with
  | error cause => rfl
  | ok removed => rfl

theorem attempt_insertAt (index : Nat) (child : Node) (spine : Spine) :
    ((Edit.insert index child).attempt spine).map (·.2) = spine.insertAt index child := by
  rw [Edit.attempt]
  cases spine.insertAt index child with
  | error cause => rfl
  | ok inserted => rfl

/-- A version that one edit at a place makes of a program. -/
structure OneEdit (path : ChildPath) (e : Edit) (s s' : Store α) (t t' : Node) : Prop where
  grown : s.Extends s'
  edited : s.Holds t → ∃ answers, EditedAt path [e] s s' t t' answers

/-- An edit at a place is refused, or makes a version. -/
theorem editAt_spec (t : Node) (path : ChildPath) {edit : Spine → Except EditError Spine} {e : Edit}
    (s : Store α) (hedit : ∀ spine, (e.attempt spine).map (·.2) = edit spine) :
    (∃ error s', editAt t path edit s = (.error error, s') ∧ s.Extends s') ∨
      ∃ t' s', editAt t path edit s = (.ok t', s') ∧ OneEdit path e s s' t t' := by
  have hgrown := Node.copySpine_extends t path s
  unfold editAt
  rw [bind_apply]
  rcases hcopy : t.copySpine path s with ⟨_ | spine, s'⟩
  · rw [hcopy] at hgrown
    exact Or.inl ⟨_, _, rfl, hgrown⟩
  · rw [hcopy] at hgrown
    simp only []
    rw [← hedit spine]
    cases he : e.attempt spine with
    | error cause => exact Or.inl ⟨_, _, rfl, hgrown⟩
    | ok made =>
      exact Or.inr ⟨_, _, rfl, hgrown, fun hs => ⟨_, Node.editedAt_of_attempt hs hcopy he⟩⟩

/-- A transplant writes to the node that it makes and to no other one. -/
theorem transplant_spec (donor target : Node) (s : Store α) :
    (transplant donor target s).1 = donor.withId s.next ∧
      s.Extends (transplant donor target s).2 ∧
      (transplant donor target s).2.next = s.next + 1 ∧
      ((transplant donor target s).2.mark s.next).attributes = (s.mark donor.id).attributes ∧
      ((transplant donor target s).2.mark s.next).coveredBy = (s.mark donor.id).coveredBy := by
  have heq : transplant donor target s =
      (donor.withId s.next, ((s.allocate (s.mark donor.id)).2.clear (donor.withId s.next)).raise
        (donor.withId s.next) ((s.allocate (s.mark donor.id)).2.suspicion target)) := rfl
  rw [heq]
  unfold Store.clear Store.raise
  rw [Node.id_withId]
  have hgrown : s.Extends (s.allocate (s.mark donor.id)).2 := .allocate s _
  refine ⟨rfl, (hgrown.update (Nat.le_refl _) _).update (Nat.le_refl _) _, by simp, ?_, ?_⟩
  · simp [Store.mark_update, Store.mark_allocate, Mark.clear]
  · simp [Store.mark_update, Store.mark_allocate, Mark.clear]

/-- The copy is as suspicious as its place, if that is suspicious at all. -/
theorem suspicion_transplant (donor : Node) {target : Node} {s : Store α}
    (htarget : target.id < s.next) :
    ((transplant donor target s).2.mark s.next).suspicion =
      if 0 < s.suspicion target then s.suspicion target else 0 := by
  have heq : (transplant donor target s).2 =
      ((s.allocate (s.mark donor.id)).2.clear (donor.withId s.next)).raise (donor.withId s.next)
        ((s.allocate (s.mark donor.id)).2.suspicion target) := rfl
  have hplace : (s.allocate (s.mark donor.id)).2.suspicion target = s.suspicion target :=
    congrArg Mark.suspicion ((Store.Extends.allocate s _).mark_eq target.id htarget)
  rw [heq, hplace]
  unfold Store.clear Store.raise
  rw [Node.id_withId]
  simp only [Store.mark_update, Store.mark_allocate, Store.next_update, Store.next_allocate,
    Nat.lt_succ_self, and_self, if_true, Mark.clear, Mark.raise]
  split <;> rfl

omit [Scalar α] in
/-- At the slot of a target stands an inner node, and below it one with the identity of the
target. -/
theorem slotOf_spec {target : Node} {index : Nat} (h : slotOf t target = .ok (path, index)) :
    ∃ parent found, t.descend path = some parent ∧ parent.children[index]? = some found ∧
      found.id = target.id := by
  unfold slotOf at h
  split at h
  · cases h
  · next place hplace =>
    split at h
    · cases h
    · next last hlast =>
      obtain ⟨rfl, rfl⟩ := Prod.mk.inj (Except.ok.inj h)
      obtain ⟨above, rfl⟩ := List.getLast?_eq_some_iff.mp hlast
      obtain ⟨found, hfound, hid⟩ := Node.descend_of_pathTo hplace
      rw [List.dropLast_concat]
      rw [Node.descend_append] at hfound
      obtain ⟨parent, hparent, hfound⟩ := Option.bind_eq_some_iff.mp hfound
      obtain ⟨child, hchild, hfound⟩ := Option.bind_eq_some_iff.mp hfound
      obtain rfl := Option.some.inj hfound
      exact ⟨parent, child, hparent, hchild, hid⟩

/-- How an operator comes to its answer: it gives up, or it edits at the slot of its target, and
before that it may have transplanted a donor. -/
inductive Application (t target : Node) (scope : DonorScope) (s : Store α) :
    (Except MutationError (Node × String) × WordStream) × Store α → Prop where
  | refused {s' : Store α} (error : MutationError) (rng : WordStream) (grown : s.Extends s') :
    Application t target scope s ((.error error, rng), s')
  | removed {path : ChildPath} {index : Nat} {t' : Node} {s' : Store α}
    (slot : slotOf t target = .ok (path, index)) (description : String) (rng : WordStream)
    (edit : OneEdit path (.remove index) s s' t t') :
    Application t target scope s ((.ok (t', description), rng), s')
  | inserted {path : ChildPath} {index : Nat} {donor t' : Node} {s' : Store α}
    (slot : slotOf t target = .ok (path, index)) (mem : donor ∈ donors t target scope)
    (description : String) (rng : WordStream)
    (edit : OneEdit path (.insert index (transplant donor target s).1)
      (transplant donor target s).2 s' t t') :
    Application t target scope s ((.ok (t', description), rng), s')

theorem application (operator : Operator) (t target : Node) (scope : DonorScope)
    (rng : WordStream) (s : Store α) :
    Application t target scope s (apply operator t target scope rng s) := by
  cases operator with
  | swap => exact .refused _ _ (Store.Extends.refl s)
  | delete =>
    unfold apply delete
    simp only []
    rw [bind_apply]
    rcases hslot : slotOf t target with error | ⟨path, index⟩
    · exact .refused _ _ (Store.Extends.refl s)
    · simp only []
      rw [bind_apply]
      obtain ⟨error, s', hmade, hgrown⟩ | ⟨t', s', hmade, hedit⟩ :=
        editAt_spec t path s (attempt_removeAt index)
      · rw [hmade]
        exact .refused _ _ hgrown
      · rw [hmade]
        exact .removed hslot _ _ hedit
  | insertBefore =>
    unfold apply insertBefore
    rcases hslot : slotOf t target with error | ⟨path, index⟩
    · exact .refused _ _ (Store.Extends.refl s)
    · simp only []
      rcases rng.below (donors t target scope).length with ⟨choice, rest⟩
      simp only []
      cases hdonor : (donors t target scope)[choice]? with
      | none => exact .refused _ _ (Store.Extends.refl s)
      | some donor =>
        have hgrown := (transplant_spec donor target s).2.1
        simp only []
        rw [bind_apply, bind_apply]
        obtain ⟨error, s', hmade, hgrown'⟩ | ⟨t', s', hmade, hedit⟩ :=
          editAt_spec t path (transplant donor target s).2
            (attempt_insertAt index (transplant donor target s).1)
        · rw [hmade]
          exact .refused _ _ (hgrown.trans hgrown')
        · rw [hmade]
          exact .inserted hslot (List.mem_of_getElem? hdonor) _ _ hedit

/-- An operator writes no mark that was there. -/
theorem apply_extends (operator : Operator) (t target : Node) (scope : DonorScope)
    (rng : WordStream) (s : Store α) : s.Extends (apply operator t target scope rng s).2 := by
  have happlied := application operator t target scope rng s
  generalize apply operator t target scope rng s = applied at happlied ⊢
  cases happlied with
  | refused _ _ hgrown => exact hgrown
  | removed _ _ _ hedit => exact hedit.grown
  | inserted _ _ _ _ hedit => exact (transplant_spec _ target s).2.1.trans hedit.grown

/-- What a mutation draws: a suspicious statement by its index in pre-order, and an operator. -/
structure Draws (s : Store α) (t : Node) (operators : List Operator) (rng : WordStream)
    (index : Nat) (target : Node) (operator : Operator) (rest : WordStream) : Prop where
  target_at : (s.suspects t)[index]? = some target
  drawn : ∃ mid choice, Roulette.draw ((s.suspects t).map s.suspicion) rng = (some index, mid) ∧
    mid.below operators.length = (choice, rest) ∧ operators[choice]? = some operator

/-- What comes of an operator's answer. -/
def resultOf (operator : Operator) : Except MutationError (Node × String) → MutationResult
  | .error e => .refused operator e
  | .ok (t', description) => .changed t' operator description

theorem eq_ok_of_resultOf {operator operator' : Operator}
    {answer : Except MutationError (Node × String)} {description : String}
    (h : resultOf operator answer = .changed t' operator' description) :
    operator = operator' ∧ answer = .ok (t', description) := by
  cases answer with
  | error e => cases h
  | ok made =>
    cases h
    exact ⟨rfl, rfl⟩

theorem eq_error_of_resultOf {operator operator' : Operator}
    {answer : Except MutationError (Node × String)} {e : MutationError}
    (h : resultOf operator answer = .refused operator' e) :
    operator = operator' ∧ answer = .error e := by
  cases answer with
  | error e =>
    cases h
    exact ⟨rfl, rfl⟩
  | ok made => cases h

theorem mutate_of_draws {operators : List Operator} {rng rest : WordStream} {index : Nat}
    {target : Node} {operator : Operator}
    (h : Draws s t operators rng index target operator rest) (scope : DonorScope) :
    mutate t operators scope rng s =
      ((resultOf operator (apply operator t target scope rest s).1.1,
        (apply operator t target scope rest s).1.2), (apply operator t target scope rest s).2) := by
  have hget : (get : StoreM α (Store α)) s = (s, s) := rfl
  obtain ⟨mid, choice, hdraw, hchoice, hoperator⟩ := h.drawn
  unfold mutate
  rw [bind_apply, hget]
  simp only []
  rw [hdraw]
  simp only [Option.bind_some, h.target_at]
  rw [hchoice]
  simp only [hoperator]
  rw [bind_apply]
  generalize apply operator t target scope rest s = applied
  rcases applied with ⟨⟨e | ⟨t', description⟩, rng'⟩, s'⟩
  · rfl
  · rfl

/-- A mutation draws a statement and an operator, or there is nothing to draw. -/
theorem mutate_unchanged_or_draws (t : Node) (operators : List Operator) (scope : DonorScope)
    (rng : WordStream) (s : Store α) :
    (∃ rest, mutate t operators scope rng s = ((.unchanged, rest), s)) ∨
      ∃ index target operator rest, Draws s t operators rng index target operator rest := by
  have hget : (get : StoreM α (Store α)) s = (s, s) := rfl
  unfold mutate
  rw [bind_apply, hget]
  simp only []
  rcases hdraw : Roulette.draw ((s.suspects t).map s.suspicion) rng with ⟨index, mid⟩
  simp only []
  cases htarget : index.bind ((s.suspects t)[·]?) with
  | none => exact .inl ⟨mid, rfl⟩
  | some target =>
    obtain ⟨i, rfl, hi⟩ := Option.bind_eq_some_iff.mp htarget
    rcases hchoice : mid.below operators.length with ⟨choice, rest⟩
    simp only []
    cases hoperator : operators[choice]? with
    | none => exact .inl ⟨mid, rfl⟩
    | some operator =>
      exact .inr ⟨i, target, operator, rest, hi, mid, choice, hdraw, hchoice, hoperator⟩

/-- What a mutation does, an operator does, and a version that comes out comes out of it. -/
theorem mutate_cases (t : Node) (operators : List Operator) (scope : DonorScope)
    (rng : WordStream) (s : Store α) :
    ((mutate t operators scope rng s).2 = s ∧
        (mutate t operators scope rng s).1.1 = .unchanged) ∨
      ∃ operator target rng', target ∈ s.suspects t ∧
        (mutate t operators scope rng s).2 = (apply operator t target scope rng' s).2 ∧
        (mutate t operators scope rng s).1.1 =
          resultOf operator (apply operator t target scope rng' s).1.1 := by
  obtain ⟨rest, hsame⟩ | ⟨index, target, operator, rest, hdraws⟩ :=
    mutate_unchanged_or_draws t operators scope rng s
  · rw [hsame]
    exact .inl ⟨rfl, rfl⟩
  · refine .inr ⟨operator, target, rest, List.mem_of_getElem? hdraws.target_at, ?_⟩
    rw [mutate_of_draws hdraws scope]
    exact ⟨rfl, rfl⟩

theorem mutate_extends (t : Node) (operators : List Operator) (scope : DonorScope)
    (rng : WordStream) (s : Store α) : s.Extends (mutate t operators scope rng s).2 := by
  obtain ⟨hsame, -⟩ | ⟨operator, target, rng', -, heq, -⟩ := mutate_cases t operators scope rng s
  · rw [hsame]
    exact Store.Extends.refl s
  · rw [heq]
    exact apply_extends operator t target scope rng' s

end Mutation

/-! ## Other children at a place -/

namespace Crossover

theorem graft_extends (t : Node) (path : ChildPath) (children : List Node) (s : Store α) :
    s.Extends (graft t path children s).2 := by
  have hgrown := Node.copySpine_extends t path s
  unfold graft
  rw [bind_apply]
  rcases hcopy : t.copySpine path s with ⟨_ | spine, s'⟩
  · rw [hcopy] at hgrown
    exact hgrown
  · rw [hcopy] at hgrown
    exact hgrown

theorem attempt_replace {children : List Node} {spine spine' : Spine}
    (h : (spine.setChildren children).toOption = some spine') :
    (Edit.replace children).attempt spine = .ok (none, spine') := by
  rw [Edit.attempt]
  cases hset : spine.setChildren children with
  | error cause =>
    rw [hset] at h
    cases h
  | ok set =>
    rw [hset] at h
    obtain rfl := Option.some.inj h
    rfl

/-- A version with other children at a place is the edited one. -/
theorem graft_spec {children : List Node} (hs : s.Holds t)
    (h : graft t path children s = (some t', s')) :
    EditedAt path [.replace children] s s' t t' [.ok none] := by
  unfold graft at h
  rw [bind_apply] at h
  rcases hcopy : t.copySpine path s with ⟨_ | spine, s'⟩
  · rw [hcopy] at h
    cases h
  · rw [hcopy] at h
    obtain ⟨hmade, rfl⟩ := Prod.mk.inj h
    obtain ⟨spine', hspine, rfl⟩ := Option.map_eq_some_iff.mp hmade
    exact Node.editedAt_of_attempt hs hcopy (attempt_replace hspine)

theorem crossBlock_extends (first second : Node) (path : ChildPath) (p : Progress)
    (rng : WordStream) (s : Store α) : s.Extends (crossBlock first second path p rng s).2 := by
  unfold crossBlock
  cases first.descend path with
  | none => exact Store.Extends.refl s
  | some a =>
    cases second.descend path with
    | none => exact Store.Extends.refl s
    | some b =>
      simp only []
      rcases rng.below (min a.children.length b.children.length + 1) with ⟨cutoff, rest⟩
      simp only []
      rcases splice a.children b.children cutoff with ⟨kids, kids'⟩
      have hfirst := graft_extends p.first path kids s
      rw [bind_apply]
      generalize graft p.first path kids s = grafted at hfirst
      have hsecond := graft_extends p.second path kids' grafted.2
      rw [bind_apply]
      generalize graft p.second path kids' grafted.2 = grafted' at hsecond
      obtain ⟨x, s₁⟩ := grafted
      obtain ⟨y, s₂⟩ := grafted'
      cases x with
      | none => exact hfirst.trans hsecond
      | some x =>
        cases y with
        | none => exact hfirst.trans hsecond
        | some y => exact hfirst.trans hsecond

theorem crossBlocks_extends (first second : Node) (paths : List ChildPath) (p : Progress)
    (rng : WordStream) (s : Store α) : s.Extends (crossBlocks first second paths p rng s).2 := by
  induction paths generalizing p rng s with
  | nil => exact Store.Extends.refl s
  | cons path paths ih =>
    have hblock := crossBlock_extends first second path p rng s
    unfold crossBlocks
    rw [bind_apply]
    exact hblock.trans (ih _ _ _)

/-- A crossover writes no mark that was there. -/
theorem cross_extends (first second : Node) (rng : WordStream) (s : Store α) :
    s.Extends (cross first second rng s).2 := by
  have hget : (get : StoreM α (Store α)) s = (s, s) := rfl
  have hblocks := crossBlocks_extends first second (blocks s first second) ⟨first, second, 0⟩ rng s
  unfold cross
  rw [bind_apply, hget, bind_apply]
  generalize crossBlocks first second (blocks s first second) ⟨first, second, 0⟩ rng s = crossed
    at hblocks
  obtain ⟨⟨p, rest⟩, s'⟩ := crossed
  simp only []
  split
  · exact hblocks
  · exact hblocks

end Crossover

end GeneticRepair
