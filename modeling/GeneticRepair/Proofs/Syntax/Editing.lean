import GeneticRepair.Numeric.Rational
import GeneticRepair.Proofs.Syntax.Copying
import Mathlib.Data.List.InsertIdx

/-!
# `Proofs/Syntax/Editing.lean` — a version and the next one

`Edit.fault?` and `Edit.change` say what an edit is to do with the token or the children of a node.
`Node.edited_exact` says that a script of edits on a copied spine does that at the place of its
target, and nothing anywhere else.
-/

set_option autoImplicit false

namespace GeneticRepair

/-- What an edit can change of a node. -/
inductive Payload where
  /-- The token of a leaf. -/
  | token (text : String)
  /-- The children of an inner node. -/
  | children (nodes : List Node)

namespace Node

/-- The token or the children of a node. -/
def payload : Node → Payload
  | .leaf _ text _ => .token text
  | .inner _ _ _ children => .children children

end Node

/-- An edit of the target of a spine. -/
inductive Edit where
  | insert (index : Nat) (child : Node)
  | remove (index : Nat)
  | replace (children : List Node)
  | retext (text : String)

namespace Edit

/-- Performs the edit; a removed child is handed out. -/
def attempt : Edit → Spine → Except EditError (Option Node × Spine)
  | .insert index child, s => (s.insertAt index child).map (none, ·)
  | .remove index, s => (s.removeAt index).map fun r => (some r.1, r.2)
  | .replace children, s => (s.setChildren children).map (none, ·)
  | .retext text, s => (s.setToken text).map (none, ·)

/-- Performs edits in order; a refused one is passed over. -/
def attemptAll : List Edit → Spine → List (Except EditError (Option Node)) × Spine
  | [], s => ([], s)
  | e :: es, s =>
    match e.attempt s with
    | .error fault => (.error fault :: (attemptAll es s).1, (attemptAll es s).2)
    | .ok (out, s) => (.ok out :: (attemptAll es s).1, (attemptAll es s).2)

/-- The nodes that the edit brings in. -/
def brought : Edit → List Node
  | .insert _ child => [child]
  | .replace children => children
  | _ => []

/-! ## What is to become of a node -/

/-- Why the edit is to be refused. -/
def fault? : Edit → Payload → Option EditError
  | .retext _, .token _ => none
  | .retext _, .children _ => some .targetIsInner
  | _, .token _ => some .targetIsLeaf
  | .insert index _, .children nodes =>
    if index ≤ nodes.length then none else some (.noSuchChild index nodes.length)
  | .remove index, .children nodes =>
    if index < nodes.length then none else some (.noSuchChild index nodes.length)
  | .replace _, .children _ => none

/-- What the edit is to make of a payload that it fits. -/
def change : Edit → Payload → Payload
  | .retext text, .token _ => .token text
  | .insert index child, .children nodes => .children (nodes.insertIdx index child)
  | .remove index, .children nodes => .children (nodes.eraseIdx index)
  | .replace children, .children _ => .children children
  | _, p => p

/-- The child that the edit is to hand out. -/
def out : Edit → Payload → Option Node
  | .remove index, .children nodes => nodes[index]?
  | _, _ => none

/-- What edits in order are to answer, and what they are to make of a payload. -/
def effect : List Edit → Payload → List (Except EditError (Option Node)) × Payload
  | [], p => ([], p)
  | e :: es, p =>
    match e.fault? p with
    | some fault => (.error fault :: (effect es p).1, (effect es p).2)
    | none => (.ok (e.out p) :: (effect es (e.change p)).1, (effect es (e.change p)).2)

/-! ## One edit -/

/-- Every copy is as before, and the target is the same node with another payload. -/
structure Retargets (s s' : Spine) (p : Payload) : Prop where
  ancestors_eq : s'.ancestors = s.ancestors
  id_eq : s'.target.id = s.target.id
  kind_eq : s'.target.kind = s.target.kind
  position_eq : s'.target.position? = s.target.position?
  payload_eq : s'.target.payload = p

theorem Retargets.refl (s : Spine) : Retargets s s s.target.payload := ⟨rfl, rfl, rfl, rfl, rfl⟩

theorem Retargets.trans {s s' s'' : Spine} {p p' : Payload} (h : Retargets s s' p)
    (h' : Retargets s' s'' p') : Retargets s s'' p' :=
  ⟨h'.ancestors_eq.trans h.ancestors_eq, h'.id_eq.trans h.id_eq, h'.kind_eq.trans h.kind_eq,
    h'.position_eq.trans h.position_eq, h'.payload_eq⟩

theorem insertIdx_eq_append {β : Type} {l : List β} {i : Nat} (h : i ≤ l.length) (a : β) :
    l.insertIdx i a = l.take i ++ a :: l.drop i := by
  induction l generalizing i with
  | nil =>
    obtain rfl := Nat.le_zero.mp h
    rfl
  | cons b l ih =>
    cases i with
    | zero => rfl
    | succ i =>
      rw [List.insertIdx_succ_cons, ih (Nat.le_of_succ_le_succ h)]
      rfl

theorem attempt_of_fault {e : Edit} {s : Spine} {fault : EditError}
    (h : e.fault? s.target.payload = some fault) : e.attempt s = .error fault := by
  obtain ⟨ancestors, target⟩ := s
  cases target with
  | leaf id text position =>
    -- a leaf refuses every edit of its children
    cases e with
    | retext text => simp [fault?, Node.payload] at h
    | _ =>
      obtain rfl := Option.some.inj h
      rfl
  | inner id kind span children =>
    cases e with
    | retext text =>
      obtain rfl := Option.some.inj h
      rfl
    | replace nodes => simp [fault?, Node.payload] at h
    | insert index child =>
      simp only [fault?, Node.payload] at h
      split at h
      · contradiction
      · next hindex =>
        obtain rfl := Option.some.inj h
        simp only [attempt, Spine.insertAt, Spine.editChildren, if_neg hindex, Except.map]
    | remove index =>
      simp only [fault?, Node.payload] at h
      split at h
      · contradiction
      · next hindex =>
        obtain rfl := Option.some.inj h
        have hnone : children[index]? = none := List.getElem?_eq_none (Nat.le_of_not_lt hindex)
        simp only [attempt, Spine.removeAt, Spine.editChildren, hnone, Except.map]

theorem attempt_of_fits {e : Edit} {s : Spine} (h : e.fault? s.target.payload = none) :
    ∃ s', e.attempt s = .ok (e.out s.target.payload, s') ∧
      Retargets s s' (e.change s.target.payload) := by
  obtain ⟨ancestors, target⟩ := s
  cases target with
  | leaf id text position =>
    cases e with
    | retext text => exact ⟨_, rfl, ⟨rfl, rfl, rfl, rfl, rfl⟩⟩
    | _ => cases h
  | inner id kind span children =>
    cases e with
    | retext text => cases h
    | replace nodes => exact ⟨_, rfl, ⟨rfl, rfl, rfl, rfl, rfl⟩⟩
    | insert index child =>
      have hindex : index ≤ children.length := by
        simpa [fault?, Node.payload] using h
      refine ⟨⟨ancestors, .make id kind (children.insertIdx index child)⟩, ?_,
        ⟨rfl, rfl, rfl, rfl, rfl⟩⟩
      simp only [attempt, Spine.insertAt, Spine.editChildren, if_pos hindex, Except.map, out]
      rw [insertIdx_eq_append hindex]
    | remove index =>
      have hindex : index < children.length := by
        simpa [fault?, Node.payload] using h
      refine ⟨⟨ancestors, .make id kind (children.eraseIdx index)⟩, ?_, ⟨rfl, rfl, rfl, rfl, rfl⟩⟩
      have hsome : children[index]? = some children[index] := List.getElem?_eq_getElem hindex
      simp only [attempt, Spine.removeAt, Spine.editChildren, hsome, Except.map, out, Node.payload]

/-- A script answers and makes of the target what it is to answer and to make. -/
theorem attemptAll_spec (es : List Edit) (s : Spine) :
    (attemptAll es s).1 = (effect es s.target.payload).1 ∧
      Retargets s (attemptAll es s).2 (effect es s.target.payload).2 := by
  induction es generalizing s with
  | nil => exact ⟨rfl, Retargets.refl s⟩
  | cons e es ih =>
    unfold attemptAll effect
    cases hfault : e.fault? s.target.payload with
    | some fault =>
      rw [attempt_of_fault hfault]
      exact ⟨congrArg _ (ih s).1, (ih s).2⟩
    | none =>
      obtain ⟨s', hs', hfits⟩ := attempt_of_fits hfault
      rw [hs', ← hfits.payload_eq]
      exact ⟨congrArg _ (ih s').1, hfits.trans (ih s').2⟩

/-- A child after an edit was there before or came with it. -/
theorem mem_change {e : Edit} {p : Payload} {nodes : List Node} {c : Node}
    (h : e.change p = .children nodes) (hc : c ∈ nodes) :
    (∃ old, p = .children old ∧ c ∈ old) ∨ c ∈ e.brought := by
  cases p with
  | token text => cases e <;> cases h
  | children old =>
    cases e with
    | retext text =>
      cases h
      exact Or.inl ⟨nodes, rfl, hc⟩
    | replace children =>
      cases h
      exact Or.inr hc
    | remove index =>
      cases h
      exact Or.inl ⟨old, rfl, List.mem_of_mem_eraseIdx hc⟩
    | insert index child =>
      cases h
      obtain rfl | hc := List.eq_or_mem_of_mem_insertIdx hc
      · exact Or.inr List.mem_cons_self
      · exact Or.inl ⟨old, rfl, hc⟩

theorem mem_effect {es : List Edit} {p : Payload} {nodes : List Node} {c : Node}
    (h : (effect es p).2 = .children nodes) (hc : c ∈ nodes) :
    (∃ old, p = .children old ∧ c ∈ old) ∨ ∃ e ∈ es, c ∈ e.brought := by
  induction es generalizing p with
  | nil => exact Or.inl ⟨nodes, h, hc⟩
  | cons e es ih =>
    have later (p : Payload) (h : (effect es p).2 = .children nodes) :
        (∃ old, p = .children old ∧ c ∈ old) ∨ ∃ e' ∈ e :: es, c ∈ e'.brought :=
      (ih h).imp_right fun ⟨e', he', hb⟩ => ⟨e', List.mem_cons_of_mem _ he', hb⟩
    unfold effect at h
    split at h
    · exact later p h
    · obtain ⟨mid, hmid, hc⟩ | hb := later (e.change p) h
      · exact (mem_change hmid hc).imp_right fun hb => ⟨e, List.mem_cons_self, hb⟩
      · exact Or.inr hb

end Edit

/-! ## A version and the next one -/

open Edit in
/-- The version that a script of edits at a place makes of another one: the nodes off the way to the
place are the same, those on it are new copies, the copy at the place has what the script makes of
the old payload, and nothing that existed has changed. -/
structure EditedAt {α : Type} [Scalar α] (path : ChildPath) (script : List Edit) (s s' : Store α)
    (n n' : Node) (answers : List (Except EditError (Option Node))) : Prop where
  off : ∀ q, ¬ q <+: path → ¬ path <+: q → n'.descend q = n.descend q
  along : ∀ q, q <+: path → ∃ was now, n.descend q = some was ∧ n'.descend q = some now ∧
    now.id = s.next + q.length ∧ now.kind = was.kind ∧ s'.mark now.id = s.mark was.id ∧
    (q ≠ path → now.children.length = was.children.length) ∧
    (q = path → (answers, now.payload) = effect script was.payload)
  only : ∀ m ∈ n'.preorder, m ∈ n.preorder ∨ (∃ e ∈ script, ∃ c ∈ e.brought, m ∈ c.preorder) ∨
    ∃ q, q <+: path ∧ n'.descend q = some m
  next_eq : s'.next = s.next + path.length + 1
  grown : s.Extends s'

namespace Node

variable {α : Type} [Scalar α]

theorem children_eq_of_payload {n : Node} {nodes : List Node} (h : n.payload = .children nodes) :
    n.children = nodes := by
  cases n with
  | leaf => cases h
  | inner id kind span children =>
    cases h
    rfl

theorem payload_of_mem_children {n c : Node} (hc : c ∈ n.children) :
    n.payload = .children n.children := by
  cases n with
  | leaf => exact absurd hc List.not_mem_nil
  | inner => rfl

theorem payload_withId (n : Node) (k : NodeId) : (n.withId k).payload = n.payload := by
  cases n <;> rfl

/-- A node below the edited target is the target, was below the old one or came with an edit. -/
theorem mem_preorder_of_effect {old x m : Node} {script : List Edit}
    (hx : x.payload = (Edit.effect script old.payload).2) (hm : m ∈ x.preorder) :
    m = x ∨ m ∈ old.preorder ∨ ∃ e ∈ script, ∃ c ∈ e.brought, m ∈ c.preorder := by
  obtain rfl | ⟨c, hc, hm⟩ := mem_preorder_iff.mp hm
  · exact Or.inl rfl
  · have hchildren := hx.symm.trans (payload_of_mem_children hc)
    obtain ⟨nodes, hnodes, hold⟩ | ⟨e, he, hb⟩ := Edit.mem_effect hchildren hc
    · rw [← children_eq_of_payload hnodes] at hold
      exact Or.inr (Or.inl (mem_preorder_of_mem_child hold hm))
    · exact Or.inr (Or.inr ⟨e, he, c, hb, hm⟩)

theorem editedAt_of_copied {s s' : Store α} {n old : Node} {path : ChildPath} {spine : Spine}
    (h : Copied s s' n path spine old) (hgrown : s.Extends s') (script : List Edit) :
    EditedAt path script s s' n (Edit.attemptAll script spine).2.close
      (Edit.attemptAll script spine).1 := by
  obtain ⟨hanswers, hsame⟩ := Edit.attemptAll_spec script spine
  have hclose : (Edit.attemptAll script spine).2.close =
      Spine.close ⟨spine.ancestors, (Edit.attemptAll script spine).2.target⟩ := by
    rw [← hsame.ancestors_eq]
  have htarget : (Edit.attemptAll script spine).2.close.descend path =
      some (Edit.attemptAll script spine).2.target := by
    rw [hclose]
    exact h.copies.descend_close _
  have hpayload : spine.target.payload = old.payload := by
    rw [h.target_eq, payload_withId]
  refine ⟨fun q hq hpath => ?_, fun q hq => ?_, fun m hm => ?_, h.next_eq, hgrown⟩
  · rw [hclose]
    exact h.copies.descend_close_off _ hq hpath
  · by_cases hne : q = path
    · subst hne
      refine ⟨old, _, h.copies.descend_eq, htarget, ?_, ?_, ?_, absurd rfl, fun _ => ?_⟩
      · rw [hsame.id_eq, h.target_eq, id_withId]
      · rw [hsame.kind_eq, h.target_eq, kind_withId]
      · rw [hsame.id_eq, h.target_eq, id_withId]
        exact h.mark_eq q old hq h.copies.descend_eq
      · rw [hanswers, hsame.payload_eq, hpayload]
    · obtain ⟨was, now, hwas, hnow, hid, hkind, hlen⟩ := h.copies.descend_close_above
        (Edit.attemptAll script spine).2.target hq hne
      refine ⟨was, now, hwas, by rw [hclose, hnow], hid, hkind, ?_, fun _ => hlen, (absurd · hne)⟩
      rw [hid]
      exact h.mark_eq q was hq hwas
  · rw [hclose] at hm
    obtain hm | hm | ⟨q, -, hq, -, hnow, -⟩ := h.copies.mem_preorder_close _ hm
    · exact Or.inl hm
    · rw [hpayload] at hsame
      obtain rfl | hm | hm := mem_preorder_of_effect hsame.payload_eq hm
      · exact Or.inr (Or.inr ⟨path, List.prefix_refl path, htarget⟩)
      · exact Or.inl (mem_preorder_trans hm (mem_preorder_of_descend h.copies.descend_eq))
      · exact Or.inr (Or.inl hm)
    · exact Or.inr (Or.inr ⟨q, hq, by rw [hclose, hnow]⟩)

/-- Editing a copied spine makes the next version exactly, and a spine can be copied to exactly the
places that are there. -/
theorem edited_exact {s : Store α} {n : Node} (hs : s.Holds n) (path : ChildPath)
    (script : List Edit) :
    ((n.copySpine path s).1.isSome ↔ (n.descend path).isSome) ∧
      ∀ spine s', n.copySpine path s = (some spine, s') →
        EditedAt path script s s' n (Edit.attemptAll script spine).2.close
          (Edit.attemptAll script spine).1 := by
  refine ⟨by rw [isSome_copySpine], fun spine s' h => ?_⟩
  obtain ⟨old, hcopied⟩ := copied_of_copySpine hs h
  have hgrown := copySpine_extends n path s
  rw [h] at hgrown
  exact editedAt_of_copied hcopied hgrown script

/-- A program in which one statement stands twice. -/
def twice : Node :=
  .make 2 .file [.make 1 .atomicStatement [.leaf 0 "x" ⟨1, 1⟩],
    .make 1 .atomicStatement [.leaf 0 "x" ⟨1, 1⟩]]

/-- The store in which it was made. -/
def twiceStore : Store Rat := ⟨#[.fresh [], ⟨1, some ∅, []⟩, .fresh [("file-name", "a")]]⟩

theorem holds_twice : twiceStore.Holds twice := by
  unfold Store.Holds
  decide

/-- The first of two places of a statement is edited, with two refusals, and the second is not. -/
theorem edited_exact_twice :
    twiceStore.Holds twice ∧
      ((twice.copySpine [0] twiceStore).1.isSome ↔ (twice.descend [0]).isSome) ∧
      ∀ spine s', twice.copySpine [0] twiceStore = (some spine, s') →
        EditedAt [0] [.insert 1 (.leaf 9 "y" ⟨3, 1⟩), .remove 2, .retext "z", .remove 0] twiceStore
          s' twice
          (Edit.attemptAll
            [.insert 1 (.leaf 9 "y" ⟨3, 1⟩), .remove 2, .retext "z", .remove 0] spine).2.close
          (Edit.attemptAll
            [.insert 1 (.leaf 9 "y" ⟨3, 1⟩), .remove 2, .retext "z", .remove 0] spine).1 :=
  ⟨holds_twice, edited_exact holds_twice [0]
    [.insert 1 (.leaf 9 "y" ⟨3, 1⟩), .remove 2, .retext "z", .remove 0]⟩

end Node

end GeneticRepair
