import GeneticRepair.Evolution.Crossover
import GeneticRepair.Evolution.Mutation
import GeneticRepair.Proofs.Syntax.Mirroring

/-!
# `Proofs/Evolution/Mirrored.lean` — mutation and crossover side by side

Mutation and crossover choose by random words, by marks and by the shape of programs. Applied to
programs that are alike under aligned stores, with the same words, they draw alike, make the same
choices and leave programs that are alike.
-/

set_option autoImplicit false

namespace GeneticRepair

open List (Forall₂)
open Node (Alike)

variable {α : Type} [Scalar α] {p : Pairing} {root root' target target' : Node}

/-- A new version with the same description on both sides. -/
def Edited (p : Pairing) (r r' : Node × String) : Prop := Alike p r.1 r'.1 ∧ r'.2 = r.2

/-- Results that correspond, with the same words left. -/
def WithWords {β : Type} (S : Pairing → β → β → Prop) (p : Pairing) (r r' : β × WordStream) :
    Prop :=
  S p r.1 r'.1 ∧ r'.2 = r.2

namespace Mutation

theorem slotOf_eq (h : Alike p root root') (ht : Alike p target target') :
    slotOf root' target' = slotOf root target := by
  rw [slotOf, slotOf, h.pathTo_eq ht.id]

theorem describe_eq (h : Alike p target target') : describe target' = describe target := by
  rw [describe, describe, h.source_eq, h.lineSpan_eq]

theorem mirrors_editAt (h : Alike p root root') (path : ChildPath)
    {edit edit' : Spine → Except EditError Spine}
    (hedit : ∀ q, p ≤ q → ∀ s s', Spine.Alike q s s' →
      Concur (Spine.Alike q) (edit s) (edit' s')) :
    MirrorsStore (α := α) (fun q => Concur (Alike q)) p (editAt root path edit)
      (editAt root' path edit') := by
  refine (mirrors_copySpine h path).bind fun q hpq spine spine' hspine => ?_
  cases hspine with
  | none => exact .pure (.error _)
  | @some s s' hs =>
    have hdone := hedit q hpq _ _ hs
    simp only []
    generalize edit s = done at hdone
    generalize edit' s' = done' at hdone
    cases hdone with
    | error e => exact .pure (.error _)
    | ok hclosed => exact .pure (.ok hclosed.close)

theorem mirrors_delete (h : Alike p root root') (ht : Alike p target target') :
    MirrorsStore (α := α) (fun q => Concur (Edited q)) p (delete root target)
      (delete root' target') := by
  unfold delete
  rw [slotOf_eq h ht, describe_eq ht]
  rcases slotOf root target with e | ⟨path, index⟩
  · exact .pure (.error e)
  · refine (mirrors_editAt h path fun q _ s s' hs => ?_).bind fun q _ edited edited' hedited => ?_
    · exact (hs.removeAt index).map fun _ _ hr => hr.2
    · exact .pure (hedited.map fun r r' hr => ⟨hr, rfl⟩)

theorem forall₂_donors (h : Alike p root root') (ht : Alike p target target') (scope : DonorScope) :
    Forall₂ (Alike p) (donors root target scope) (donors root' target' scope) := by
  cases scope with
  | program => exact h.statements
  | sameUnit =>
    have hunit := h.unitAround ht
    unfold donors
    generalize root.unitAround target = unit at hunit
    generalize root'.unitAround target' = unit' at hunit
    cases hunit with
    | none => exact h.statements
    | some hu => exact hu.statements

/-- The copy on either side is made as suspicious as its target. -/
theorem mirrors_transplant {donor donor' : Node} (hd : Alike p donor donor')
    (ht : Alike p target target') :
    MirrorsStore (α := α) Alike p (transplant donor target) (transplant donor' target') := by
  refine (mirrors_copy hd).bind fun q hpq copied copied' hcopied => ?_
  refine Mirrors.bind (S := fun _ _ _ => True) (fun s s' hs => ?_) fun r hqr _ _ _ =>
    .pure (hcopied.mono hqr)
  refine ⟨q, le_refl q, ?_, trivial⟩
  show q.Aligns ((s.clear copied).raise copied (s.suspicion target))
    ((s'.clear copied').raise copied' (s'.suspicion target'))
  rw [hs.suspicion_eq (ht.mono hpq)]
  exact (hs.update hcopied.id _).update hcopied.id _

theorem mirrors_insertBefore (h : Alike p root root') (ht : Alike p target target')
    (scope : DonorScope) (rng : WordStream) :
    MirrorsStore (α := α) (WithWords fun q => Concur (Edited q)) p
      (insertBefore root target scope rng) (insertBefore root' target' scope rng) := by
  unfold insertBefore
  rw [slotOf_eq h ht, describe_eq ht]
  rcases slotOf root target with e | ⟨path, index⟩
  · exact .pure ⟨.error e, rfl⟩
  · have hpool := forall₂_donors h ht scope
    simp only []
    rw [← hpool.length_eq]
    generalize rng.below (donors root target scope).length = choice
    have hdonor := getElem?_rel hpool choice.1
    generalize (donors root target scope)[choice.1]? = donor at hdonor
    generalize (donors root' target' scope)[choice.1]? = donor' at hdonor
    cases hdonor with
    | none => exact .pure ⟨.error _, rfl⟩
    | some hd =>
      simp only []
      refine (mirrors_transplant hd ht).bind fun q hpq copied copied' hcopied => ?_
      refine (mirrors_editAt (h.mono hpq) path fun r hqr s s' hs => ?_).bind
        fun r _ edited edited' hedited => ?_
      · exact hs.insertAt index (hcopied.mono hqr)
      · refine .pure ⟨hedited.map fun x x' hx => ⟨hx, ?_⟩, rfl⟩
        rw [describe_eq hd]

theorem mirrors_apply (operator : Operator) (h : Alike p root root') (ht : Alike p target target')
    (scope : DonorScope) (rng : WordStream) :
    MirrorsStore (α := α) (WithWords fun q => Concur (Edited q)) p
      (apply operator root target scope rng) (apply operator root' target' scope rng) := by
  cases operator with
  | delete => exact (mirrors_delete h ht).bind fun q _ result result' hr => .pure ⟨hr, rfl⟩
  | insertBefore => exact mirrors_insertBefore h ht scope rng
  | swap => exact .pure ⟨.error _, rfl⟩

end Mutation

/-- Mutations that have come to the same. -/
inductive MutationResult.Alike (p : Pairing) : MutationResult → MutationResult → Prop where
  | changed {root root' : Node} (alike : Node.Alike p root root') (operator : Operator)
    (description : String) :
    Alike p (.changed root operator description) (.changed root' operator description)
  | unchanged : Alike p .unchanged .unchanged
  | refused (operator : Operator) (error : MutationError) :
    Alike p (.refused operator error) (.refused operator error)

open Mutation in
theorem mirrors_mutate (h : Alike p root root') (operators : List Operator) (scope : DonorScope)
    (rng : WordStream) :
    MirrorsStore (α := α) (WithWords MutationResult.Alike) p (mutate root operators scope rng)
      (mutate root' operators scope rng) := by
  refine Mirrors.read.bind fun q hpq s s' hs => ?_
  have hsuspects := hs.suspects (h.mono hpq)
  have hweights : (s'.suspects root').map s'.suspicion = (s.suspects root).map s.suspicion :=
    forall₂_map_eq hsuspects fun _ _ hm => hs.suspicion_eq hm
  simp only []
  rw [hweights]
  generalize Roulette.draw ((s.suspects root).map s.suspicion) rng = drawn
  obtain ⟨index, rng⟩ := drawn
  have htarget : Option.Rel (Alike q) (index.bind ((s.suspects root)[·]?))
      (index.bind ((s'.suspects root')[·]?)) := by
    cases index with
    | none => exact .none
    | some i => exact getElem?_rel hsuspects i
  simp only []
  generalize index.bind ((s.suspects root)[·]?) = target at htarget
  generalize index.bind ((s'.suspects root')[·]?) = target' at htarget
  cases htarget with
  | none => exact .pure ⟨.unchanged, rfl⟩
  | some ht =>
    simp only []
    cases operators[(rng.below operators.length).1]? with
    | none => exact .pure ⟨.unchanged, rfl⟩
    | some operator =>
      refine (mirrors_apply operator (h.mono hpq) ht scope _).bind fun r _ result result' hr => ?_
      obtain ⟨answer, rest⟩ := result
      obtain ⟨answer', rest'⟩ := result'
      obtain ⟨hanswer, rfl⟩ := hr
      cases hanswer with
      | error e => exact .pure ⟨.refused operator e, rfl⟩
      | @ok edited edited' hedited =>
        obtain ⟨version, description⟩ := edited
        obtain ⟨version', description'⟩ := edited'
        obtain ⟨halike, rfl⟩ := hedited
        exact .pure ⟨.changed halike operator description', rfl⟩

/-! ## Crossover -/

/-- Crossings that have come to the same. -/
inductive Crossing.Alike (p : Pairing) : Crossing → Crossing → Prop where
  | offspring {a a' b b' : Node} (first : Node.Alike p a a') (second : Node.Alike p b b')
    (blocks : Nat) : Alike p (.offspring a b blocks) (.offspring a' b' blocks)
  | alike : Alike p .alike .alike

namespace Crossover

variable {first first' second second' : Node}

theorem holdsSuspicious_eq {s s' : Store α} (hs : p.Aligns s s') (h : Alike p root root') :
    holdsSuspicious s' root' = holdsSuspicious s root :=
  any_eq_of_forall₂ h.children fun _ _ hc => hs.isSuspect_eq hc

/-- Programs that are alike in pairs diverge at the same places. -/
theorem blocks_eq {s s' : Store α} (hs : p.Aligns s s') (h : Alike p first first')
    (h' : Alike p second second') : blocks s' first' second' = blocks s first second := by
  refine h.induction (motive := fun n n' => ∀ {m m'}, Alike p n n' → Alike p m m' →
    blocks s' n' m' = blocks s n m) ?_ ?_ h h'
  · intro a b paired text position m m' _ _
    rfl
  · intro a b paired kind span cs ds below ih m m' hn hm
    have hin (index : Nat) (ms ms' : List Node) (hms : Forall₂ (Alike p) ms ms') :
        blocksIn s' index ds ms' = blocksIn s index cs ms := by
      clear hn
      induction ih generalizing index ms ms' with
      | nil => cases hms with | _ => rfl
      | cons hc _ ihcs =>
        cases below with
        | cons hcd below =>
          cases hms with
          | nil => rfl
          | cons hd hds => rw [blocksIn, blocksIn, hc hcd hd, ihcs below _ _ _ hds]
    rw [blocks, blocks, hn.sameContent_eq hm, hm.isLeaf_eq, holdsSuspicious_eq hs hn,
      holdsSuspicious_eq hs hm, hin 0 _ _ hm.children]

theorem forall₂_splice {as as' bs bs' : List Node} (ha : Forall₂ (Alike p) as as')
    (hb : Forall₂ (Alike p) bs bs') (cutoff : Nat) :
    Forall₂ (Alike p) (splice as bs cutoff).1 (splice as' bs' cutoff).1 ∧
      Forall₂ (Alike p) (splice as bs cutoff).2 (splice as' bs' cutoff).2 := by
  unfold splice
  rw [← ha.length_eq, ← hb.length_eq]
  exact ⟨List.rel_append (List.forall₂_take _ ha) (List.forall₂_drop _ hb),
    List.rel_append (List.forall₂_take _ hb) (List.forall₂_drop _ ha)⟩

theorem mirrors_graft (h : Alike p root root') (path : ChildPath) {cs ds : List Node}
    (hcs : Forall₂ (Alike p) cs ds) :
    MirrorsStore (α := α) (fun q => Option.Rel (Alike q)) p (graft root path cs)
      (graft root' path ds) := by
  refine (mirrors_copySpine h path).bind fun q hpq spine spine' hspine => ?_
  cases hspine with
  | none => exact .pure .none
  | @some s s' hs =>
    have hset := hs.setChildren (Node.Alike.mono_all hpq hcs)
    simp only []
    generalize s.setChildren cs = edited at hset
    generalize s'.setChildren ds = edited' at hset
    cases hset with
    | error e => exact .pure .none
    | ok hclosed => exact .pure (.some hclosed.close)

/-- Crossings under way that have come to the same. -/
structure Progress.Alike (p : Pairing) (r r' : Progress) : Prop where
  first : Node.Alike p r.first r'.first
  second : Node.Alike p r.second r'.second
  crossed_eq : r'.crossed = r.crossed

theorem Progress.Alike.mono {q : Pairing} {r r' : Progress} (hpq : p ≤ q)
    (h : Progress.Alike p r r') : Progress.Alike q r r' :=
  ⟨h.first.mono hpq, h.second.mono hpq, h.crossed_eq⟩

theorem mirrors_crossBlock (h : Alike p first first') (h' : Alike p second second')
    (path : ChildPath) {r r' : Progress} (hr : Progress.Alike p r r') (rng : WordStream) :
    MirrorsStore (α := α) (WithWords Progress.Alike) p (crossBlock first second path r rng)
      (crossBlock first' second' path r' rng) := by
  unfold crossBlock
  have ha := h.descend path
  have hb := h'.descend path
  generalize first.descend path = a at ha
  generalize first'.descend path = a' at ha
  generalize second.descend path = b at hb
  generalize second'.descend path = b' at hb
  cases ha with
  | none => exact .pure ⟨hr, rfl⟩
  | some ha =>
    cases hb with
    | none => exact .pure ⟨hr, rfl⟩
    | some hb =>
      simp only []
      rw [← ha.children.length_eq, ← hb.children.length_eq]
      generalize rng.below _ = drawn
      obtain ⟨hkidsA, hkidsB⟩ := forall₂_splice ha.children hb.children drawn.1
      -- the second graft starts from what the first one has paired
      refine (mirrors_graft hr.first path hkidsA).bind fun q hpq x x' hx => ?_
      refine (mirrors_graft (hr.second.mono hpq) path (Node.Alike.mono_all hpq hkidsB)).bind
        fun t hqt y y' hy => ?_
      have hkept := hr.mono (hpq.trans hqt)
      cases hx with
      | none => exact .pure ⟨hkept, rfl⟩
      | some hx =>
        cases hy with
        | none => exact .pure ⟨hkept, rfl⟩
        | some hy => exact .pure ⟨⟨hx.mono hqt, hy, congrArg (· + 1) hr.crossed_eq⟩, rfl⟩

theorem mirrors_crossBlocks (h : Alike p first first') (h' : Alike p second second')
    (paths : List ChildPath) {r r' : Progress} (hr : Progress.Alike p r r') (rng : WordStream) :
    MirrorsStore (α := α) (WithWords Progress.Alike) p (crossBlocks first second paths r rng)
      (crossBlocks first' second' paths r' rng) := by
  induction paths generalizing p r r' rng with
  | nil => exact .pure ⟨hr, rfl⟩
  | cons path paths ih =>
    refine (mirrors_crossBlock h h' path hr rng).bind fun q hpq x x' hx => ?_
    obtain ⟨x, rest⟩ := x
    obtain ⟨x', rest'⟩ := x'
    obtain ⟨hx, rfl⟩ := hx
    exact ih (h.mono hpq) (h'.mono hpq) hx rest'

theorem mirrors_cross (h : Alike p first first') (h' : Alike p second second')
    (rng : WordStream) :
    MirrorsStore (α := α) (WithWords Crossing.Alike) p (cross first second rng)
      (cross first' second' rng) := by
  refine Mirrors.read.bind fun q hpq s s' hs => ?_
  rw [blocks_eq hs (h.mono hpq) (h'.mono hpq)]
  have hstart : Progress.Alike q ⟨first, second, 0⟩ ⟨first', second', 0⟩ :=
    ⟨h.mono hpq, h'.mono hpq, rfl⟩
  refine (mirrors_crossBlocks (h.mono hpq) (h'.mono hpq) _ hstart rng).bind fun r _ x x' hx => ?_
  obtain ⟨x, rest⟩ := x
  obtain ⟨x', rest'⟩ := x'
  obtain ⟨hx, rfl⟩ := hx
  obtain ⟨hfirst, hsecond, hcrossed⟩ := hx
  show Mirrors Pairing.Aligns _ r (if x.crossed = 0 then _ else _) (if x'.crossed = 0 then _ else _)
  rw [hcrossed]
  split
  · exact .pure ⟨.alike, rfl⟩
  · exact .pure ⟨.offspring hfirst hsecond _, rfl⟩

end Crossover

end GeneticRepair
