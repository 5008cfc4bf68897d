import GeneticRepair.Proofs.Syntax.Editing
import GeneticRepair.Proofs.Syntax.Spans

/-!
# `Proofs/Syntax/Spines.lean` — what an open spine holds

An open spine consists of copies under identities of their own (`Spine.copies`) and of the nodes
that the copies have for children (`Spine.Carries`); closing it links the copies (`Spine.linked`)
and adds nothing else. Said here is what becomes of all that, and of the spans that are remembered,
when a spine is copied, edited and closed.
-/

set_option autoImplicit false

namespace GeneticRepair

open LineSpan (IsHull)

variable {n m : Node}

namespace Spine

/-- The identities of the copies, the root first. -/
def copies (s : Spine) : List NodeId := s.ancestors.map (·.id) ++ [s.target.id]

/-- The nodes that the copies have for children. -/
def Carries (s : Spine) (c : Node) : Prop :=
  c ∈ s.target.children ∨ ∃ a ∈ s.ancestors, c ∈ a.children

/-- What closing the spine makes of the copies, the root first. -/
def linked : List Ancestor → Node → List Node
  | [], x => [x]
  | a :: above, x => close ⟨a :: above, x⟩ :: linked above x

theorem map_id_linked (above : List Ancestor) (x : Node) :
    (linked above x).map Node.id = copies ⟨above, x⟩ := by
  induction above with
  | nil => rfl
  | cons a above ih =>
    rw [linked, List.map_cons, ih]
    rfl

/-- A node of the version that closing makes was below a copy or is one of the linked copies. -/
theorem mem_preorder_close {above : List Ancestor} {x : Node}
    (hm : m ∈ (close ⟨above, x⟩).preorder) :
    (∃ c, Carries ⟨above, x⟩ c ∧ m ∈ c.preorder) ∨ m ∈ linked above x := by
  induction above with
  | nil =>
    obtain rfl | ⟨c, hc, hm⟩ := Node.mem_preorder_iff.mp hm
    · exact .inr (List.mem_singleton_self _)
    · exact .inl ⟨c, .inl hc, hm⟩
  | cons a above ih =>
    rw [close_cons] at hm
    obtain rfl | ⟨c, hc, hm⟩ := Node.mem_preorder_iff.mp hm
    · exact .inr List.mem_cons_self
    · rw [children_link] at hc
      obtain hc | rfl := List.mem_or_eq_of_mem_set hc
      · exact .inl ⟨c, .inr ⟨a, List.mem_cons_self, hc⟩, hm⟩
      · obtain ⟨c, hc, hm⟩ | hm := ih hm
        · refine .inl ⟨c, hc.imp_right ?_, hm⟩
          exact fun ⟨b, hb, hc⟩ => ⟨b, List.mem_cons_of_mem _ hb, hc⟩
        · exact .inr (List.mem_cons_of_mem _ hm)

theorem mem_linked {above : List Ancestor} {x : Node} (hm : m ∈ linked above x) :
    m = x ∨ m.id ∈ above.map (·.id) := by
  induction above with
  | nil => exact .inl (List.mem_singleton.mp hm)
  | cons a above ih =>
    obtain rfl | hm := List.mem_cons.mp hm
    · exact .inr List.mem_cons_self
    · exact (ih hm).imp_right (List.mem_cons_of_mem _)

theorem spanned_linked {above : List Ancestor} {x : Node} (hx : x.Spanned)
    (hcarried : ∀ c, Carries ⟨above, x⟩ c → c.Spanned) : ∀ m ∈ linked above x, m.Spanned := by
  induction above with
  | nil =>
    intro m hm
    rw [List.mem_singleton.mp hm]
    exact hx
  | cons a above ih =>
    have hrest : ∀ m ∈ linked above x, m.Spanned := ih fun c hc => hcarried c (hc.imp_right
      fun ⟨b, hb, hc⟩ => ⟨b, List.mem_cons_of_mem _ hb, hc⟩)
    have hbelow : (close ⟨above, x⟩).Spanned := by
      cases above with
      | nil => exact hx
      | cons b above => exact hrest _ List.mem_cons_self
    intro m hm
    obtain rfl | hm := List.mem_cons.mp hm
    · refine Node.spanned_make (fun c hc => ?_) a.id a.kind
      obtain hc | rfl := List.mem_or_eq_of_mem_set hc
      · exact hcarried c (.inr ⟨a, List.mem_cons_self, hc⟩)
      · exact hbelow
    · exact hrest m hm

/-! ### Copying -/

section Copying

variable {old : Node} {k : NodeId} {path : ChildPath} {above : List Ancestor}

theorem Copies.map_id (h : Copies n k path above old) :
    above.map (·.id) = List.range' k path.length := by
  induction h with
  | here => rfl
  | under _ _ ih => rw [List.map_cons, ih, List.length_cons, List.range'_succ]

theorem Copies.children_mem (h : Copies n k path above old) {a : Ancestor} (ha : a ∈ above)
    {c : Node} (hc : c ∈ a.children) : c ∈ n.preorder := by
  induction h with
  | here => exact absurd ha List.not_mem_nil
  | @under n child old k i path above hchild _ ih =>
    obtain rfl | ha := List.mem_cons.mp ha
    · exact Node.mem_preorder_of_mem_child hc (Node.self_mem_preorder c)
    · exact Node.mem_preorder_of_mem_child (List.mem_of_getElem? hchild) (ih ha)

/-- The copy at the place takes over what is known of the node there. -/
theorem Copies.lookup_target (h : Copies n k path above old) (hold : old.id < k) (c : SpanCache) :
    (n.shareAlong path k c).lookup (k + path.length) = c.lookup old.id := by
  induction h generalizing c with
  | here =>
    simp [Node.shareAlong, SpanCache.share]
  | @under n child old k i path above hchild _ ih =>
    have hshare : n.shareAlong (i :: path) k c =
        child.shareAlong path (k + 1) (c.share n.id k) := by
      rw [Node.shareAlong, hchild]
    rw [hshare, List.length_cons, Nat.add_comm path.length, ← Nat.add_assoc,
      ih (Nat.lt_succ_of_lt hold)]
    exact if_neg (Nat.ne_of_lt hold)

end Copying

end Spine

/-- Copying tells nothing of nodes that are no copies. -/
theorem Node.lookup_shareAlong {id k : Nat} {path : ChildPath}
    (hid : id < k ∨ k + path.length < id) (n : Node) (c : SpanCache) :
    (n.shareAlong path k c).lookup id = c.lookup id := by
  induction path generalizing n k c with
  | nil =>
    have hne : id ≠ k := by
      rw [List.length_nil] at hid
      omega
    exact if_neg hne
  | cons i path ih =>
    rw [List.length_cons] at hid
    have hne : id ≠ k := by omega
    have hhere : (c.share n.id k).lookup id = c.lookup id := if_neg hne
    cases hchild : n.children[i]? with
    | none =>
      rw [shareAlong, hchild]
      exact hhere
    | some child =>
      rw [shareAlong, hchild]
      exact (ih (by omega) child _).trans hhere

/-- What is remembered of the target is forgotten with the first edit of its children. -/
theorem Spine.lookup_touch (s : Spine) (c : SpanCache) :
    (s.touch c).lookup s.target.id = none := if_pos rfl

theorem Spine.lookup_release {above : List Ancestor} {x : Node} {c : SpanCache} {id : NodeId}
    {span : Option LineSpan} (h : (release ⟨above, x⟩ c).lookup id = some span) :
    c.lookup id = some span ∧ id ∉ above.map (·.id) := by
  induction above generalizing c with
  | nil => exact ⟨h, List.not_mem_nil⟩
  | cons a above ih =>
    obtain ⟨hlookup, hnot⟩ := ih h
    simp only [SpanCache.forget] at hlookup
    split at hlookup
    · cases hlookup
    · next hne => exact ⟨hlookup, List.not_mem_cons_of_ne_of_not_mem hne hnot⟩

/-! ### Editing -/

/-- What an attempted edit leaves of what is known: only a change of the token keeps the span. -/
def Edit.remember : Edit → Spine → SpanCache → SpanCache
  | .retext _, _, c => c
  | _, s, c => s.touch c

namespace Edit

variable {e : Edit} {s s' : Spine} {answer : Option Node}

theorem attemptAll_singleton (e : Edit) (s : Spine) :
    (attemptAll [e] s).2 = s ∨ ∃ answer s', e.attempt s = .ok (answer, s') ∧
      (attemptAll [e] s).2 = s' := by
  unfold attemptAll
  cases hattempt : e.attempt s with
  | error fault => exact .inl rfl
  | ok result => exact .inr ⟨result.1, result.2, rfl, rfl⟩

/-- An edit that is not refused writes a token, or makes the target anew from other children. -/
theorem target_of_attempt (h : e.attempt s = .ok (answer, s')) :
    (∃ text id token position, e = .retext text ∧ s.target = .leaf id token position ∧
      s'.target = .leaf id text position) ∨
    (∃ kind children, (∀ c, e.remember s c = s.touch c) ∧
      s'.target = .make s.target.id kind children) := by
  obtain ⟨above, target⟩ := s
  cases target with
  | leaf id token position =>
    cases e with
    | retext text =>
      cases h
      exact .inl ⟨text, id, token, position, rfl, rfl, rfl⟩
    | _ => cases h
  | inner id kind span children =>
    right
    cases e with
    | retext text => cases h
    | replace nodes =>
      cases h
      exact ⟨kind, _, fun _ => rfl, rfl⟩
    | insert index child =>
      simp only [attempt, Spine.insertAt, Spine.editChildren] at h
      split at h
      · cases h
      · cases h
        exact ⟨kind, _, fun _ => rfl, rfl⟩
    | remove index =>
      simp only [attempt, Spine.removeAt, Spine.editChildren] at h
      split at h
      · cases h
      · cases h
        exact ⟨kind, _, fun _ => rfl, rfl⟩

/-- An attempted edit leaves the copies and their identities as they are. -/
theorem copies_attemptAll (es : List Edit) (s : Spine) : (attemptAll es s).2.copies = s.copies := by
  obtain ⟨-, hsame⟩ := attemptAll_spec es s
  rw [Spine.copies, hsame.ancestors_eq, hsame.id_eq, Spine.copies]

theorem carries_attemptAll {es : List Edit} {c : Node} (hc : (attemptAll es s).2.Carries c) :
    s.Carries c ∨ ∃ e ∈ es, c ∈ e.brought := by
  obtain ⟨-, hsame⟩ := attemptAll_spec es s
  obtain hc | ⟨a, ha, hc⟩ := hc
  · have hpayload := hsame.payload_eq.symm.trans (Node.payload_of_mem_children hc)
    obtain ⟨old, hold, hc⟩ | hb := mem_effect hpayload hc
    · rw [← Node.children_eq_of_payload hold] at hc
      exact .inl (.inl hc)
    · exact .inr hb
  · rw [hsame.ancestors_eq] at ha
    exact .inl (.inr ⟨a, ha, hc⟩)

theorem lookup_remember {c : SpanCache} {id : NodeId} {span : Option LineSpan}
    (h : (e.remember s c).lookup id = some span) : c.lookup id = some span := by
  have htouch (h : (s.touch c).lookup id = some span) : c.lookup id = some span := by
    simp only [Spine.touch, SpanCache.forget] at h
    split at h
    · cases h
    · exact h
  cases e with
  | retext => exact h
  | _ => exact htouch h

/-- If all spans were right before an edit, that of the target is right after it. -/
theorem exact_attemptAll {c : SpanCache} (hspanned : s.target.Spanned)
    (hright : ∀ span, c.lookup s.target.id = some span → IsHull s.target.lines span)
    (hcarried : ∀ m, (attemptAll [e] s).2.Carries m → m.Spanned) :
    (attemptAll [e] s).2.target.Spanned ∧
      ∀ span, (e.remember s c).lookup (attemptAll [e] s).2.target.id = some span →
        IsHull (attemptAll [e] s).2.target.lines span := by
  obtain hsame | ⟨answer, s', hattempt, hafter⟩ := attemptAll_singleton e s
  · rw [hsame]
    exact ⟨hspanned, fun span hlookup => hright span (lookup_remember hlookup)⟩
  · rw [hafter] at hcarried ⊢
    obtain ⟨text, id, token, position, rfl, hwas, hnow⟩ | ⟨kind, children, hforget, hnow⟩ :=
      target_of_attempt hattempt
    · -- the token is another one, but it stands on the same line
      rw [hwas, Node.lines_leaf] at hright
      rw [hnow, Node.lines_leaf]
      exact ⟨Node.spanned_leaf id text position, fun span hlookup => hright span hlookup⟩
    · have hchildren (m : Node) (hm : m ∈ children) : m.Spanned := by
        refine hcarried m (.inl ?_)
        rw [hnow]
        exact hm
      rw [hforget, hnow]
      refine ⟨Node.spanned_make hchildren _ kind, fun span hlookup => ?_⟩
      rw [Node.id_make, Spine.lookup_touch] at hlookup
      cases hlookup

end Edit

end GeneticRepair
