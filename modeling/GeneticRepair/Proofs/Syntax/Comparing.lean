import GeneticRepair.Numeric.Rational
import GeneticRepair.Proofs.Syntax.Contents
import GeneticRepair.Proofs.Syntax.Forest

/-!
# `Proofs/Syntax/Comparing.lean` — comparing versions that share nodes

A comparison of two versions looks into no node that both share, so it says what the contents say
only because an identity stands for one node. All nodes of one store are compared rightly for that
reason, the copies that an edit makes included: `comparison_exact` says that the comparison decides
whether contents are equal, that it is an equivalence therefore, and that a copy on which every edit
has been refused cannot be told from what was copied.
-/

set_option autoImplicit false

namespace GeneticRepair

namespace Edit

/-- A script of which every edit is refused leaves the spine as it is. -/
theorem attemptAll_of_refused {script : List Edit} {spine : Spine}
    (h : ∀ a ∈ (attemptAll script spine).1, ∃ fault, a = .error fault) :
    (attemptAll script spine).2 = spine := by
  induction script with
  | nil => rfl
  | cons e script ih =>
    unfold attemptAll at h ⊢
    cases hattempt : e.attempt spine with
    | error fault =>
      rw [hattempt] at h
      exact ih fun a ha => h a (List.mem_cons_of_mem _ ha)
    | ok result =>
      rw [hattempt] at h
      obtain ⟨fault, hfault⟩ := h _ List.mem_cons_self
      cases hfault

end Edit

namespace Node

theorem content_eq_of_payload {n m : Node} (hkind : n.kind = m.kind)
    (hpayload : n.payload = m.payload) : n.content = m.content := by
  cases n with
  | leaf id text position =>
    cases m with
    | leaf id' text' position' =>
      obtain rfl := Payload.token.inj hpayload
      rfl
    | inner => cases hpayload
  | inner id kind span children =>
    cases m with
    | leaf => cases hpayload
    | inner id' kind' span' children' =>
      obtain rfl := Payload.children.inj hpayload
      obtain rfl : kind = kind' := hkind
      rfl

end Node

variable {α : Type} [Scalar α] {s s' : Store α} {programs : List Node} {t t' : Node}

/-- A copy of the way to a place, with nothing edited there, has the content of what was copied. -/
theorem EditedAt.content_eq_of_unedited {path : ChildPath} (h : EditedAt path [] s s' t t' []) :
    t'.content = t.content := by
  obtain ⟨was, now, hwas, hnow, -, hkind, -, -, hpayload⟩ := h.along path (List.prefix_refl path)
  have hsame : Node.AgreeAround path t t := ⟨fun _ _ => rfl, fun _ _ => rfl⟩
  refine Node.content_eq_of_agree rfl h.agreeAround hsame hnow hwas ?_
  exact Node.content_eq_of_payload hkind (Prod.mk.inj (hpayload rfl)).2

namespace Store

omit [Scalar α] in
/-- Nodes of one store are compared by content. -/
theorem Forest.sameContent_iff (h : s.Forest programs) {x y : Node} (hx : HasNode programs x)
    (hy : HasNode programs y) : x.sameContent y = true ↔ x.content = y.content :=
  Node.sameContent_iff fun _ hm _ hm' hid => h.eq (hx.below hm) (hy.below hm') hid

/-- The comparison of nodes of one store decides whether their contents are equal, which makes it an
equivalence. A copy on which every edit was refused is, once it is closed, a program of the store
with the content of what was copied, and is found to be like it. -/
theorem comparison_exact (h : s.Forest programs) :
    (∀ x y, HasNode programs x → HasNode programs y →
      (x.sameContent y = true ↔ x.content = y.content)) ∧
    (Equivalence fun x y : {n // HasNode programs n} => x.1.sameContent y.1 = true) ∧
    ∀ t path script spine s', HasNode programs t → t.copySpine path s = (some spine, s') →
      (∀ a ∈ (Edit.attemptAll script spine).1, ∃ fault, a = .error fault) →
      s'.Forest ((Edit.attemptAll script spine).2.close :: programs) ∧
        (Edit.attemptAll script spine).2.close.content = t.content ∧
        (Edit.attemptAll script spine).2.close.sameContent t = true := by
  have hiff (x y : {n // HasNode programs n}) :
      x.1.sameContent y.1 = true ↔ x.1.content = y.1.content := h.sameContent_iff x.2 y.2
  refine ⟨fun x y hx hy => h.sameContent_iff hx hy, ⟨fun x => ?_, ?_, ?_⟩, ?_⟩
  · exact Node.sameContent_self x.1
  · intro x y hxy
    exact (hiff y x).mpr ((hiff x y).mp hxy).symm
  · intro x y z hxy hyz
    exact (hiff x z).mpr (((hiff x y).mp hxy).trans ((hiff y z).mp hyz))
  · intro t path script spine s' ht hcopy hrefused
    rw [Edit.attemptAll_of_refused hrefused]
    have hall : s.Forest (t :: programs) := by
      refine h.of_hasNode fun p hp m hm => ?_
      obtain rfl | hp := List.mem_cons.mp hp
      · exact ht.below hm
      · exact ⟨p, hp, hm⟩
    have hedited := (Node.edited_exact (hall.holds t List.mem_cons_self) path []).2 spine s' hcopy
    have hcontent := hedited.content_eq_of_unedited
    have hspares := hall.edited List.mem_cons_self (fun _ he => absurd he List.not_mem_nil) hedited
    refine ⟨hspares.forest.subset fun p hp => ?_, hcontent, ?_⟩
    · obtain rfl | hp := List.mem_cons.mp hp
      · exact List.mem_append_left _ (List.mem_singleton_self _)
      · exact List.mem_append_right _ (List.mem_cons_of_mem _ hp)
    · exact Node.sameContent_of_content_eq hcontent

namespace Rebuilt

def step : Node := .make 1 .atomicStatement [.leaf 0 "step" ⟨1, 1⟩]

def plain : Node := .make 2 .method [step]

/-- The same method, read once more from elsewhere. -/
def again : Node := .make 5 .method [.make 4 .atomicStatement [.leaf 3 "step" ⟨7, 2⟩]]

def made : Store Rat := ⟨Array.replicate 6 (.fresh [])⟩

theorem forest_methods : made.Forest [plain, again] := by
  refine .of_nodes (plain.preorder ++ again.preorder) (by decide) (by decide) ?_
  intro t ht
  simp only [List.mem_cons, List.not_mem_nil, or_false] at ht
  obtain rfl | rfl := ht
  · exact List.subset_append_left _ _
  · exact List.subset_append_right _ _

/-- A copy of the way to the statement of the plain method. -/
def copied : Spine := ⟨[⟨6, .method, [step], 0⟩], step.withId 7⟩

/-- A child that is not there, and a token where there are children. -/
def misfits : List Edit := [.remove 3, .retext "stop"]

end Rebuilt

open Rebuilt in
theorem comparison_exact_rebuilt : made.Forest [plain, again] ∧
    (plain.sameContent again = true ↔ plain.content = again.content) ∧
    plain.sameContent again = true ∧
    plain.copySpine [0] made = (some copied, (plain.copySpine [0] made).2) ∧
    (Edit.attemptAll misfits copied).1 = [.error (.noSuchChild 3 1), .error .targetIsInner] ∧
    (Edit.attemptAll misfits copied).2.close.sameContent plain = true := by
  have hplain : HasNode [plain, again] plain := .of_mem (by simp)
  have hagain : HasNode [plain, again] again := .of_mem (by simp)
  have hanswers : (Edit.attemptAll misfits copied).1 =
      [.error (.noSuchChild 3 1), .error .targetIsInner] := rfl
  have hcopy : plain.copySpine [0] made = (some copied, (plain.copySpine [0] made).2) := rfl
  obtain ⟨hiff, -, hunedited⟩ := comparison_exact forest_methods
  refine ⟨forest_methods, hiff plain again hplain hagain, by decide, hcopy, hanswers, ?_⟩
  have hrefused : ∀ a ∈ (Edit.attemptAll misfits copied).1, ∃ fault, a = .error fault := by
    rw [hanswers]
    simp
  exact (hunedited plain [0] misfits copied _ hplain hcopy hrefused).2.2

end Store

end GeneticRepair
