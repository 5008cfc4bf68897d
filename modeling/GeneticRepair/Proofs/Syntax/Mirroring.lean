import GeneticRepair.Proofs.Syntax.Pairing
import GeneticRepair.Syntax.Spine

/-!
# `Proofs/Syntax/Mirroring.lean` — edits side by side

Two computations that start from corresponding states *mirror* each other if they end in
corresponding states with corresponding results, where more may correspond than before: `Mirrors`
says so for any way in which states and results can correspond under a pairing. It is closed under
sequencing (`Mirrors.bind`), so a computation is mirrored step by step.

For computations on marks, states correspond if a pairing aligns the stores. Making a node on both
sides adds a pair, and writing to the marks of paired nodes keeps the stores aligned. Copying a
spine and editing it is made of these.
-/

set_option autoImplicit false

namespace GeneticRepair

open List (Forall₂)
open Node (Alike)

/-! ## Computations side by side -/

section

variable {σ σ' β β' γ γ' : Type}

/-- From states that correspond, both computations lead to states and results that correspond under
a pairing with more pairs. -/
def Mirrors (K : Pairing → σ → σ' → Prop) (S : Pairing → β → β' → Prop) (p : Pairing)
    (x : StateM σ β) (x' : StateM σ' β') : Prop :=
  ∀ s s', K p s s' → ∃ q, p ≤ q ∧ K q (x s).2 (x' s').2 ∧ S q (x s).1 (x' s').1

namespace Mirrors

variable {K : Pairing → σ → σ' → Prop} {S : Pairing → β → β' → Prop}
  {T : Pairing → γ → γ' → Prop} {p : Pairing}

theorem pure {a : β} {a' : β'} (h : S p a a') : Mirrors K S p (pure a) (pure a') :=
  fun _ _ hs => ⟨p, le_refl p, hs, h⟩

/-- Looking at the states shows states that correspond. -/
theorem read : Mirrors K K p get get := fun _ _ hs => ⟨p, le_refl p, hs, hs⟩

theorem bind {x : StateM σ β} {x' : StateM σ' β'} {f : β → StateM σ γ} {f' : β' → StateM σ' γ'}
    (hx : Mirrors K S p x x')
    (hf : ∀ q, p ≤ q → ∀ a a', S q a a' → Mirrors K T q (f a) (f' a')) :
    Mirrors K T p (x >>= f) (x' >>= f') := by
  intro s s' hs
  obtain ⟨q, hpq, hq, ha⟩ := hx s s' hs
  obtain ⟨r, hqr, hr, hb⟩ := hf q hpq _ _ ha _ _ hq
  exact ⟨r, hpq.trans hqr, hr, hb⟩

end Mirrors

end

variable {α : Type} [Scalar α]

/-! ## Aligned stores -/

/-- Paired nodes are known to the stores and carry the same mark. -/
structure Pairing.Aligns (p : Pairing) (s s' : Store α) : Prop where
  left_lt : ∀ {a b}, p.pairs a b → a < s.next
  right_lt : ∀ {a b}, p.pairs a b → b < s'.next
  mark_eq : ∀ {a b}, p.pairs a b → s'.mark b = s.mark a

namespace Pairing.Aligns

variable {p : Pairing} {s s' : Store α}

theorem next_not_left (h : p.Aligns s s') (b : NodeId) : ¬ p.pairs s.next b :=
  fun hab => Nat.lt_irrefl _ (h.left_lt hab)

theorem next_not_right (h : p.Aligns s s') (a : NodeId) : ¬ p.pairs a s'.next :=
  fun hab => Nat.lt_irrefl _ (h.right_lt hab)

/-- Two new nodes with the same mark are paired. -/
theorem allocate (h : p.Aligns s s') (m : Mark α) :
    ∃ q, p ≤ q ∧ q.pairs s.next s'.next ∧ q.Aligns (s.allocate m).2 (s'.allocate m).2 := by
  refine ⟨p.insert s.next s'.next h.next_not_left h.next_not_right, fun _ _ => .inl,
    .inr ⟨rfl, rfl⟩, ⟨?_, ?_, ?_⟩⟩
  · rintro a b (hab | ⟨rfl, rfl⟩)
    · rw [Store.next_allocate]
      exact Nat.lt_succ_of_lt (h.left_lt hab)
    · rw [Store.next_allocate]
      exact Nat.lt_succ_self _
  · rintro a b (hab | ⟨rfl, rfl⟩)
    · rw [Store.next_allocate]
      exact Nat.lt_succ_of_lt (h.right_lt hab)
    · rw [Store.next_allocate]
      exact Nat.lt_succ_self _
  · rintro a b (hab | ⟨rfl, rfl⟩)
    · rw [Store.mark_allocate, Store.mark_allocate, if_neg (Nat.ne_of_lt (h.right_lt hab)),
        if_neg (Nat.ne_of_lt (h.left_lt hab)), h.mark_eq hab]
    · rw [Store.mark_allocate, Store.mark_allocate, if_pos rfl, if_pos rfl]

/-- Paired nodes are written to alike. -/
theorem update (h : p.Aligns s s') {i j : NodeId} (hij : p.pairs i j) (f : Mark α → Mark α) :
    p.Aligns (s.update i f) (s'.update j f) := by
  refine ⟨fun hab => ?_, fun hab => ?_, fun {a b} hab => ?_⟩
  · rw [Store.next_update]
    exact h.left_lt hab
  · rw [Store.next_update]
    exact h.right_lt hab
  · rw [Store.mark_update, Store.mark_update, h.mark_eq hab]
    simp only [Pairing.eq_iff_eq hab hij, h.left_lt hij, h.right_lt hij, and_true]

variable {n n' : Node}

theorem suspicion_eq (h : p.Aligns s s') (hn : Alike p n n') : s'.suspicion n' = s.suspicion n :=
  congrArg Mark.suspicion (h.mark_eq hn.id)

theorem coveredBy_eq (h : p.Aligns s s') (hn : Alike p n n') : s'.coveredBy n' = s.coveredBy n :=
  congrArg Mark.coveredBy (h.mark_eq hn.id)

theorem attribute_eq (h : p.Aligns s s') (hn : Alike p n n') (key : String) :
    s'.attribute? n' key = s.attribute? n key :=
  congrArg (fun mark => mark.attributes.get? key) (h.mark_eq hn.id)

theorem isSuspect_eq (h : p.Aligns s s') (hn : Alike p n n') : s'.isSuspect n' = s.isSuspect n := by
  rw [Store.isSuspect, Store.isSuspect, hn.kind_eq, h.suspicion_eq hn]

theorem suspects (h : p.Aligns s s') (hn : Alike p n n') :
    Forall₂ (Alike p) (s.suspects n) (s'.suspects n') :=
  forall₂_filter hn.preorder fun _ _ hm => h.isSuspect_eq hm

end Pairing.Aligns

/-! ## Copies -/

/-- Computations on marks side by side. -/
abbrev MirrorsStore {β β' : Type} (S : Pairing → β → β' → Prop) (p : Pairing) (x : StoreM α β)
    (x' : StoreM α β') : Prop := Mirrors Pairing.Aligns S p x x'

variable {p q : Pairing} {n n' : Node}

/-- Copies of nodes that are alike are alike, and new on both sides. -/
theorem mirrors_copy (h : Alike p n n') :
    MirrorsStore (α := α) Alike p (StoreM.copy n) (StoreM.copy n') := by
  intro s s' hs
  obtain ⟨q, hpq, hnew, hq⟩ := hs.allocate (s.mark n.id)
  refine ⟨q, hpq, ?_, h.withId hpq hnew⟩
  show q.Aligns (s.allocate (s.mark n.id)).2 (s'.allocate (s'.mark n'.id)).2
  rwa [hs.mark_eq h.id]

/-- Copied ancestors that correspond. -/
structure Ancestor.Alike (p : Pairing) (a a' : Ancestor) : Prop where
  paired : p.pairs a.id a'.id
  kind_eq : a'.kind = a.kind
  children : Forall₂ (Node.Alike p) a.children a'.children
  index_eq : a'.index = a.index

theorem Ancestor.Alike.link {a a' : Ancestor} (h : Ancestor.Alike p a a')
    (hn : Node.Alike p n n') : Node.Alike p (a.link n) (a'.link n') := by
  have hset := forall₂_set h.children hn a.index
  show Node.Alike p (.make a.id a.kind _) (.make a'.id a'.kind _)
  rw [h.kind_eq]
  exact .make h.paired _ (h.index_eq ▸ hset)

/-- Copied spines that correspond. -/
structure Spine.Alike (p : Pairing) (s s' : Spine) : Prop where
  ancestors : Forall₂ (Ancestor.Alike p) s.ancestors s'.ancestors
  target : Node.Alike p s.target s'.target

theorem mirrors_copySpine (h : Alike p n n') (path : ChildPath) :
    MirrorsStore (α := α) (fun q => Option.Rel (Spine.Alike q)) p (n.copySpine path)
      (n'.copySpine path) := by
  induction path generalizing n n' p with
  | nil => exact (mirrors_copy h).bind fun q _ t t' ht => .pure (.some ⟨.nil, ht⟩)
  | cons i path ih =>
    unfold Node.copySpine
    have hchild := getElem?_rel h.children i
    generalize n.children[i]? = c at hchild
    generalize n'.children[i]? = d at hchild
    cases hchild with
    | none => exact .pure .none
    | some hcd =>
      refine (mirrors_copy h).bind fun q hpq t t' ht => ?_
      refine (ih (hcd.mono hpq)).bind fun r hqr below below' hbelow => .pure ?_
      -- the copy on top was made before the rest, but it has been paired ever since
      refine rel_map hbelow fun s s' hs => ⟨.cons ⟨?_, h.kind_eq, ?_, rfl⟩ hs.ancestors, hs.target⟩
      · exact Pairing.mono hqr ht.id
      · exact Node.Alike.mono_all (hpq.trans hqr) h.children

namespace Spine.Alike

variable {s s' : Spine} (h : Spine.Alike p s s')

include h

theorem close : Node.Alike p s.close s'.close := by
  obtain ⟨hancestors, htarget⟩ := h
  have hlink : Relator.LiftFun (Ancestor.Alike p)
      (Relator.LiftFun (Node.Alike p) (Node.Alike p)) Ancestor.link Ancestor.link :=
    fun _ _ ha _ _ hn => ha.link hn
  exact List.rel_foldr hlink htarget hancestors

/-- Edits of the children that do the same on both sides. -/
theorem editChildren {β : Type} {S : β → β → Prop}
    {f f' : List Node → Except EditError (β × List Node)}
    (hf : ∀ cs ds, Forall₂ (Node.Alike p) cs ds →
      Concur (fun r r' => S r.1 r'.1 ∧ Forall₂ (Node.Alike p) r.2 r'.2) (f cs) (f' ds)) :
    Concur (fun r r' => S r.1 r'.1 ∧ Spine.Alike p r.2 r'.2) (s.editChildren f)
      (s'.editChildren f') := by
  obtain ⟨ancestors, target⟩ := s
  obtain ⟨ancestors', target'⟩ := s'
  obtain ⟨hancestors, htarget⟩ := h
  unfold Spine.editChildren
  cases htarget with
  | leaf => exact .error _
  | inner paired kind span below =>
    have hedited := hf _ _ below
    simp only []
    generalize f _ = edited at hedited
    generalize f' _ = edited' at hedited
    cases hedited with
    | error e => exact .error e
    | ok hr => exact .ok ⟨hr.1, hancestors, .make paired kind hr.2⟩

theorem removeAt (index : Nat) :
    Concur (fun r r' => Node.Alike p r.1 r'.1 ∧ Spine.Alike p r.2 r'.2) (s.removeAt index)
      (s'.removeAt index) := by
  refine h.editChildren fun cs ds hcs => ?_
  have hchild := getElem?_rel hcs index
  generalize cs[index]? = c at hchild
  generalize ds[index]? = d at hchild
  cases hchild with
  | none => rw [hcs.length_eq]; exact .error _
  | some hcd => exact .ok ⟨hcd, forall₂_eraseIdx hcs index⟩

theorem insertAt (index : Nat) (hn : Node.Alike p n n') :
    Concur (Spine.Alike p) (s.insertAt index n) (s'.insertAt index n') := by
  refine (h.editChildren (S := Eq) fun cs ds hcs => ?_).map fun r r' hr => hr.2
  rw [← hcs.length_eq]
  split
  · exact .ok ⟨rfl, List.rel_append (List.forall₂_take index hcs)
      (.cons hn (List.forall₂_drop index hcs))⟩
  · exact .error _

theorem setChildren {cs ds : List Node} (hcs : Forall₂ (Node.Alike p) cs ds) :
    Concur (Spine.Alike p) (s.setChildren cs) (s'.setChildren ds) := by
  refine (h.editChildren (S := Eq) fun _ _ _ => ?_).map fun r r' hr => hr.2
  exact .ok ⟨rfl, hcs⟩

end Spine.Alike

end GeneticRepair
