import GeneticRepair.Proofs.Syntax.Editing
import Mathlib.Algebra.Order.Group.Multiset
import Mathlib.Tactic.Abel

/-!
# `Proofs/Syntax/Rearranging.lean` — a version with other children at several places

Edits at places that do not lie below each other do not get in each other's way: wherever the first
one has been, the others find the nodes that were there at the beginning. `Rearranged` describes
the version after all of them by places of the version before the first one. It also keeps account
of the leaves, each as often as it stands in the program.
-/

set_option autoImplicit false

namespace GeneticRepair

/-! ## Places -/

/-- Neither of two places lies at or below the other. -/
def Apart (p q : ChildPath) : Prop := ¬ p <+: q ∧ ¬ q <+: p

namespace Apart

variable {p q r : ChildPath}

theorem symm (h : Apart p q) : Apart q p := ⟨h.2, h.1⟩

theorem cons (i : Nat) (h : Apart p q) : Apart (i :: p) (i :: q) := by
  unfold Apart
  rw [List.prefix_cons_inj, List.prefix_cons_inj]
  exact h

theorem of_ne {i j : Nat} (h : i ≠ j) (p q : ChildPath) : Apart (i :: p) (j :: q) :=
  ⟨fun hpq => h (List.cons_prefix_cons.mp hpq).1,
    fun hqp => h (List.cons_prefix_cons.mp hqp).1.symm⟩

/-- What is on the way to one of two such places, and not on the way to the other, is apart from the
other. -/
theorem above (h : Apart p q) (hr : r <+: p) (hne : ¬ r <+: q) : Apart q r :=
  ⟨fun hqr => h.2 (hqr.trans hr), hne⟩

end Apart

namespace Node

/-- The children at a place; none if there is no such place. -/
def childrenAt (n : Node) (path : ChildPath) : List Node := (n.descend path).elim [] children

theorem childrenAt_of_descend {n m : Node} {path : ChildPath} (h : n.descend path = some m) :
    n.childrenAt path = m.children := by
  rw [childrenAt, h]
  rfl

/-- What is below a place is below one of the children there. -/
theorem descend_append_cons (n : Node) (path : ChildPath) (i : Nat) (more : ChildPath) :
    n.descend (path ++ i :: more) = ((n.childrenAt path)[i]?).bind (descend · more) := by
  rw [descend_append, childrenAt]
  cases n.descend path with
  | none => rfl
  | some m => rfl

theorem mem_preorder_of_mem_childrenAt {n k : Node} {path : ChildPath}
    (hk : k ∈ n.childrenAt path) : k ∈ n.preorder := by
  unfold childrenAt at hk
  cases hm : n.descend path with
  | none =>
    rw [hm] at hk
    cases hk
  | some m =>
    rw [hm] at hk
    exact mem_preorder_trans (mem_preorder_of_mem_child hk (self_mem_preorder k))
      (mem_preorder_of_descend hm)

/-! ## Leaves -/

/-- The leaves of a program, each as often as it stands there. -/
def leaves (n : Node) : Multiset Node := (n.preorder.filter isLeaf : List Node)

/-- The leaves of several programs together. -/
def allLeaves (l : List Node) : Multiset Node := (l.map leaves).sum

theorem allLeaves_append (l m : List Node) : allLeaves (l ++ m) = allLeaves l + allLeaves m := by
  rw [allLeaves, List.map_append, List.sum_append]
  rfl

theorem leaves_eq {n : Node} (hn : n.isLeaf = false) : n.leaves = allLeaves n.children := by
  have hall (l : List Node) :
      ((l.flatMap fun c => c.preorder.filter isLeaf : List Node) : Multiset Node) =
        allLeaves l := by
    induction l with
    | nil => rfl
    | cons c l ih =>
      rw [List.flatMap_cons, ← Multiset.coe_add, ih]
      rfl
  rw [leaves, preorder_eq, List.filter_cons_of_neg (by simp [hn]), List.filter_flatMap, hall]

theorem isLeaf_of_getElem? {n c : Node} {i : Nat} (hc : n.children[i]? = some c) :
    n.isLeaf = false := by
  cases n with
  | leaf => cases hc
  | inner => rfl

/-- With another child in its place the leaves of the old one are exchanged for those of the new. -/
theorem allLeaves_set {l : List Node} {i : Nat} {c : Node} (hc : l[i]? = some c) (x : Node) :
    allLeaves (l.set i x) + c.leaves = allLeaves l + x.leaves := by
  induction l generalizing i with
  | nil => cases hc
  | cons d l ih =>
    cases i with
    | zero =>
      obtain rfl := Option.some.inj hc
      change x.leaves + allLeaves l + d.leaves = d.leaves + allLeaves l + x.leaves
      abel
    | succ i =>
      change d.leaves + allLeaves (l.set i x) + c.leaves = d.leaves + allLeaves l + x.leaves
      rw [add_assoc, ih hc, add_assoc]

/-- Programs that agree apart from a place below one of their children differ in that child only. -/
theorem children_of_agree {t t' c' : Node} {i : Nat} {path : ChildPath}
    (hc' : t'.children[i]? = some c')
    (hoff : ∀ q, Apart (i :: path) q → t'.descend q = t.descend q) (hc : i < t.children.length) :
    t'.children = t.children.set i c' := by
  refine List.ext_getElem? fun j => ?_
  by_cases hj : i = j
  · subst hj
    rw [hc', List.getElem?_set_self hc]
  · have hsame := hoff [j] (.of_ne hj path [])
    rw [descend, descend] at hsame
    rw [List.getElem?_set_ne hj]
    simpa [descend] using hsame

/-- And below that child they agree apart from the rest of the place. -/
theorem agree_below {t t' c c' : Node} {i : Nat} {path : ChildPath}
    (hc : t.children[i]? = some c) (hc' : t'.children[i]? = some c')
    (hoff : ∀ q, Apart (i :: path) q → t'.descend q = t.descend q) :
    ∀ q, Apart path q → c'.descend q = c.descend q := by
  intro q hq
  have hsame := hoff (i :: q) (hq.cons i)
  rwa [descend_cons hc, descend_cons hc'] at hsame

/-- Two programs that agree apart from a place differ in the leaves below it only. -/
theorem leaves_of_agree {t t' old new : Node} {path : ChildPath} (hold : t.descend path = some old)
    (hnew : t'.descend path = some new)
    (hoff : ∀ q, Apart path q → t'.descend q = t.descend q) :
    t'.leaves + old.leaves = t.leaves + new.leaves := by
  induction path generalizing t t' with
  | nil =>
    obtain rfl := Option.some.inj hold
    obtain rfl := Option.some.inj hnew
    exact add_comm _ _
  | cons i path ih =>
    obtain ⟨c, hc, hold⟩ := Option.bind_eq_some_iff.mp hold
    obtain ⟨c', hc', hnew⟩ := Option.bind_eq_some_iff.mp hnew
    have hbelow := ih hold hnew (agree_below hc hc' hoff)
    have hset := allLeaves_set hc c'
    rw [leaves_eq (isLeaf_of_getElem? hc), leaves_eq (isLeaf_of_getElem? hc'),
      children_of_agree hc' hoff (List.getElem?_eq_some_iff.mp hc).1]
    refine add_right_cancel (b := c.leaves) ?_
    calc allLeaves (t.children.set i c') + old.leaves + c.leaves
        = allLeaves t.children + (c'.leaves + old.leaves) := by
          rw [add_right_comm, hset, add_assoc]
      _ = allLeaves t.children + new.leaves + c.leaves := by
          rw [hbelow, add_comm c.leaves, add_assoc]

end Node

theorem Store.Holds.childrenAt {α : Type} {s : Store α} {n : Node} (h : s.Holds n)
    (path : ChildPath) : ∀ k ∈ n.childrenAt path, s.Holds k :=
  fun _ hk => h.of_mem (Node.mem_preorder_of_mem_childrenAt hk)

/-! ## One place -/

section

variable {α : Type} [Scalar α] {s s₁ s₂ s' : Store α} {t t₁ t' : Node} {p : ChildPath}
  {kids : List Node}

theorem EditedAt.holds {script : List Edit} {answers : List (Except EditError (Option Node))}
    (he : EditedAt p script s s' t t' answers) (hs : s.Holds t)
    (hb : ∀ e ∈ script, ∀ c ∈ e.brought, s.Holds c) : s'.Holds t' := by
  intro m hm
  obtain hm | ⟨e, hes, c, hc, hm⟩ | ⟨q, hq, hm⟩ := he.only m hm
  · exact hs.mono he.grown.next_le m hm
  · exact (hb e hes c hc).mono he.grown.next_le m hm
  · obtain ⟨was, now, -, hnow, hid, -⟩ := he.along q hq
    obtain rfl : m = now := Option.some.inj (hm.symm.trans hnow)
    rw [hid, he.next_eq, Nat.lt_succ_iff]
    exact Nat.add_le_add_left hq.length_le _

/-- What an edited version has off the place, or on the way to it, was there before with its kind,
its mark and, except at the place, as many children. -/
theorem EditedAt.source {script : List Edit} {answers : List (Except EditError (Option Node))}
    {q : ChildPath} {m : Node} (he : EditedAt p script s s' t t' answers) (hs : s.Holds t)
    (hq : q <+: p ∨ Apart p q) (hm : t'.descend q = some m) :
    ∃ was, t.descend q = some was ∧ m.kind = was.kind ∧ s'.mark m.id = s.mark was.id ∧
      (q ≠ p → m.children.length = was.children.length) := by
  obtain hq | hq := hq
  · obtain ⟨was, now, hwas, hnow, -, hkind, hmark, hlength, -⟩ := he.along q hq
    obtain rfl : m = now := Option.some.inj (hm.symm.trans hnow)
    exact ⟨was, hwas, hkind, hmark, hlength⟩
  · have hwas : t.descend q = some m := (he.off q hq.2 hq.1).symm.trans hm
    exact ⟨m, hwas, rfl, he.grown.mark_eq m.id (hs m (Node.mem_preorder_of_descend hwas)),
      fun _ => rfl⟩

/-- A script leaves children to whatever has children. -/
theorem Edit.exists_effect_children (es : List Edit) (nodes : List Node) :
    ∃ nodes', (Edit.effect es (.children nodes)).2 = .children nodes' := by
  induction es generalizing nodes with
  | nil => exact ⟨nodes, rfl⟩
  | cons e es ih =>
    have hchange : ∃ nodes', e.change (.children nodes) = .children nodes' := by
      cases e <;> exact ⟨_, rfl⟩
    obtain ⟨nodes', hchange⟩ := hchange
    unfold Edit.effect
    split
    · exact ih nodes
    · rw [hchange]
      exact ih nodes'

/-- The version itself is a new node, wherever the edit was. -/
theorem EditedAt.next_le_id {script : List Edit}
    {answers : List (Except EditError (Option Node))} (he : EditedAt p script s s' t t' answers) :
    s.next ≤ t'.id := by
  obtain ⟨-, now, -, hnow, hid, -⟩ := he.along [] List.nil_prefix
  obtain rfl : t' = now := Option.some.inj hnow
  rw [hid]
  exact Nat.le_add_right _ _

/-- What stands on the way to the place of an inner node is an inner node afterwards. -/
theorem EditedAt.isLeaf_along {script : List Edit}
    {answers : List (Except EditError (Option Node))} {q : ChildPath} {m : Node}
    (he : EditedAt p script s s' t t' answers)
    (hinner : ∀ was, t.descend p = some was → was.isLeaf = false) (hq : q <+: p)
    (hm : t'.descend q = some m) : m.isLeaf = false := by
  obtain ⟨was, now, hwas, hnow, -, -, -, -, heffect⟩ := he.along p (List.prefix_refl p)
  obtain ⟨r, rfl⟩ := hq
  rw [Node.descend_append, hm, Option.bind_some] at hnow
  cases r with
  | cons i r =>
    obtain ⟨c, hc, -⟩ := Option.bind_eq_some_iff.mp hnow
    exact Node.isLeaf_of_getElem? hc
  | nil =>
    obtain rfl := Option.some.inj hnow
    have hpayload := (Prod.mk.inj (heffect rfl)).2
    cases was with
    | leaf id text position => exact absurd (hinner _ hwas) (by simp [Node.isLeaf])
    | inner id kind span children =>
      obtain ⟨nodes, hnodes⟩ := Edit.exists_effect_children script children
      have hchildren : m.payload = .children nodes := hpayload.trans hnodes
      cases m with
      | leaf => cases hchildren
      | inner => rfl

/-- Where other children have been accepted there was an inner node, and now they are its
children. -/
theorem EditedAt.replaced (he : EditedAt p [.replace kids] s s' t t' [.ok none]) :
    ∃ was now, t.descend p = some was ∧ t'.descend p = some now ∧ was.isLeaf = false ∧
      now.isLeaf = false ∧ now.children = kids := by
  obtain ⟨was, now, hwas, hnow, -, -, -, -, heffect⟩ := he.along p (List.prefix_refl p)
  refine ⟨was, now, hwas, hnow, ?_⟩
  have heffect := heffect rfl
  cases was with
  | leaf id text position =>
    -- a leaf would have refused
    rw [Prod.mk.injEq] at heffect
    simp [Edit.effect, Edit.fault?, Node.payload] at heffect
  | inner id kind span children =>
    have hpayload : now.payload = .children kids := (Prod.mk.inj heffect).2
    refine ⟨rfl, ?_, Node.children_eq_of_payload hpayload⟩
    cases now with
    | leaf => cases hpayload
    | inner => rfl

/-- The leaves below the old children are exchanged for those below the new ones. -/
theorem EditedAt.leaves_eq (he : EditedAt p [.replace kids] s s' t t' [.ok none]) :
    t'.leaves + Node.allLeaves (t.childrenAt p) = t.leaves + Node.allLeaves kids := by
  obtain ⟨was, now, hwas, hnow, hinner, hinner', rfl⟩ := he.replaced
  rw [Node.childrenAt_of_descend hwas, ← Node.leaves_eq hinner, ← Node.leaves_eq hinner']
  exact Node.leaves_of_agree hwas hnow fun q hq => he.off q hq.2 hq.1

end

/-! ## Several places -/

/-- The version that a program becomes with other children at some places. -/
structure Rearranged {α : Type} [Scalar α] (changes : List (ChildPath × List Node))
    (s s' : Store α) (t t' : Node) : Prop where
  at_change : ∀ c ∈ changes, t'.childrenAt c.1 = c.2
  off : ∀ q, (∀ c ∈ changes, Apart c.1 q) → t'.descend q = t.descend q
  along : ∀ c ∈ changes, ∀ q, q <+: c.1 → ∃ was now, t.descend q = some was ∧
    t'.descend q = some now ∧ now.kind = was.kind ∧ s'.mark now.id = s.mark was.id ∧
    (q ≠ c.1 → now.children.length = was.children.length)
  leaves : t'.leaves + (changes.map fun c => Node.allLeaves (t.childrenAt c.1)).sum =
    t.leaves + (changes.map fun c => Node.allLeaves c.2).sum

namespace Rearranged

variable {α : Type} [Scalar α] {s s₁ s₂ s' : Store α} {t t₁ t' : Node} {p : ChildPath}
  {kids : List Node} {changes : List (ChildPath × List Node)}

theorem nil (s s' : Store α) (t : Node) : Rearranged [] s s' t t :=
  ⟨nofun, fun _ _ => rfl, nofun, rfl⟩

/-! A change at one place, and then changes at places apart from it. -/

/-- A place on the way to a later change, that may have been copied before. -/
theorem along_later (hs : s.Holds t) (hholds : s₁.Holds t₁)
    (he : EditedAt p [.replace kids] s s₁ t t₁ [.ok none]) (hgrown : s₁.Extends s₂)
    (hr : Rearranged changes s₂ s' t₁ t') (hapart : ∀ c ∈ changes, Apart p c.1) :
    ∀ c ∈ changes, ∀ q, q <+: c.1 → ∃ was now, t.descend q = some was ∧
      t'.descend q = some now ∧ now.kind = was.kind ∧ s'.mark now.id = s.mark was.id ∧
      (q ≠ c.1 → q ≠ p → now.children.length = was.children.length) := by
  intro c hc q hq
  obtain ⟨mid, now, hmid, hnow, hkind, hmark, hlength⟩ := hr.along c hc q hq
  have hsource : q <+: p ∨ Apart p q :=
    or_iff_not_imp_left.mpr fun hne => (hapart c hc).symm.above hq hne
  obtain ⟨was, hwas, hkind', hmark', hlength'⟩ := he.source hs hsource hmid
  refine ⟨was, now, hwas, hnow, hkind.trans hkind', ?_, fun hqc hqp =>
    (hlength hqc).trans (hlength' hqp)⟩
  rw [hmark, hgrown.mark_eq mid.id (hholds mid (Node.mem_preorder_of_descend hmid)), hmark']

/-- A place on the way to the first change, that may be copied again. -/
theorem along_first (hs : s.Holds t) (hholds : s₁.Holds t₁)
    (he : EditedAt p [.replace kids] s s₁ t t₁ [.ok none]) (hgrown : s₁.Extends s₂)
    (hgrown' : s₂.Extends s') (hr : Rearranged changes s₂ s' t₁ t')
    (hapart : ∀ c ∈ changes, Apart p c.1) {q : ChildPath} (hq : q <+: p) :
    ∃ was now, t.descend q = some was ∧ t'.descend q = some now ∧ now.kind = was.kind ∧
      s'.mark now.id = s.mark was.id ∧
      (q ≠ p → now.children.length = was.children.length) := by
  by_cases hlater : ∃ c ∈ changes, q <+: c.1
  · obtain ⟨c, hc, hqc⟩ := hlater
    obtain ⟨was, now, hwas, hnow, hkind, hmark, hlength⟩ :=
      along_later hs hholds he hgrown hr hapart c hc q hqc
    exact ⟨was, now, hwas, hnow, hkind, hmark, hlength fun e => (hapart c hc).2 (e ▸ hq)⟩
  · have hsame : t'.descend q = t₁.descend q := hr.off q fun c hc =>
      (hapart c hc).above hq fun hqc => hlater ⟨c, hc, hqc⟩
    obtain ⟨was, now, hwas, hnow, -, hkind, hmark, hlength, -⟩ := he.along q hq
    refine ⟨was, now, hwas, hsame.trans hnow, hkind, ?_, hlength⟩
    have hmem := Node.mem_preorder_of_descend hnow
    rw [(hgrown.trans hgrown').mark_eq now.id (hholds now hmem), hmark]

theorem leaves_cons (he : EditedAt p [.replace kids] s s₁ t t₁ [.ok none])
    (hr : Rearranged changes s₂ s' t₁ t') (hapart : ∀ c ∈ changes, Apart p c.1) :
    t'.leaves + (Node.allLeaves (t.childrenAt p) +
        (changes.map fun c => Node.allLeaves (t.childrenAt c.1)).sum) =
      t.leaves + (Node.allLeaves kids + (changes.map fun c => Node.allLeaves c.2).sum) := by
  have hkept : (changes.map fun c => Node.allLeaves (t₁.childrenAt c.1)) =
      changes.map fun c => Node.allLeaves (t.childrenAt c.1) := by
    refine List.map_congr_left fun c hc => ?_
    rw [Node.childrenAt, he.off c.1 (hapart c hc).2 (hapart c hc).1]
    rfl
  have hrest := hr.leaves
  rw [hkept] at hrest
  calc t'.leaves + (Node.allLeaves (t.childrenAt p) +
        (changes.map fun c => Node.allLeaves (t.childrenAt c.1)).sum)
      = t₁.leaves + Node.allLeaves (t.childrenAt p) +
          (changes.map fun c => Node.allLeaves c.2).sum := by
        rw [add_left_comm, hrest, add_left_comm, add_assoc]
    _ = t.leaves + (Node.allLeaves kids + (changes.map fun c => Node.allLeaves c.2).sum) := by
        rw [he.leaves_eq, add_assoc]

/-- In between, nodes may be made elsewhere. -/
theorem cons (hs : s.Holds t) (hkids : ∀ k ∈ kids, s.Holds k)
    (he : EditedAt p [.replace kids] s s₁ t t₁ [.ok none]) (hgrown : s₁.Extends s₂)
    (hgrown' : s₂.Extends s') (hr : Rearranged changes s₂ s' t₁ t')
    (hapart : ∀ c ∈ changes, Apart p c.1) :
    Rearranged ((p, kids) :: changes) s s' t t' := by
  have hholds : s₁.Holds t₁ := he.holds hs fun e hes => by
    obtain rfl := List.mem_singleton.mp hes
    exact hkids
  obtain ⟨-, new, -, hnew, -, -, hchildren⟩ := he.replaced
  have hnew' : t'.descend p = some new := (hr.off p fun c hc => (hapart c hc).symm).trans hnew
  refine ⟨fun c hc => ?_, fun q hq => ?_, fun c hc q hq => ?_, leaves_cons he hr hapart⟩
  · obtain rfl | hc := List.mem_cons.mp hc
    · rw [Node.childrenAt_of_descend hnew', hchildren]
    · exact hr.at_change c hc
  · obtain ⟨hqp, hq⟩ := List.forall_mem_cons.mp hq
    rw [hr.off q hq, he.off q hqp.2 hqp.1]
  · obtain rfl | hc := List.mem_cons.mp hc
    · exact along_first hs hholds he hgrown hgrown' hr hapart hq
    · obtain ⟨was, now, hwas, hnow, hkind, hmark, hlength⟩ :=
        along_later hs hholds he hgrown hr hapart c hc q hq
      exact ⟨was, now, hwas, hnow, hkind, hmark,
        fun hne => hlength hne fun e => (hapart c hc).1 (e ▸ hq)⟩

/-- The program was there already when other nodes were made. -/
theorem since (h : Rearranged changes s₁ s' t t') (hs : s.Holds t) (hgrown : s.Extends s₁) :
    Rearranged changes s s' t t' := by
  refine ⟨h.at_change, h.off, fun c hc q hq => ?_, h.leaves⟩
  obtain ⟨was, now, hwas, hnow, hkind, hmark, hlength⟩ := h.along c hc q hq
  refine ⟨was, now, hwas, hnow, hkind, ?_, hlength⟩
  rw [hmark, hgrown.mark_eq was.id (hs was (Node.mem_preorder_of_descend hwas))]

/-- What a program has become with the same children at the same places is the same off these places
and below them, whatever else was made in between. -/
theorem descend_eq {s₃ s₃' : Store α} {t'' : Node} (h : Rearranged changes s s' t t')
    (h' : Rearranged changes s₃ s₃' t t'') {q : ChildPath} (hq : ∀ c ∈ changes, ¬ q <+: c.1) :
    t''.descend q = t'.descend q := by
  by_cases hbelow : ∃ c ∈ changes, c.1 <+: q
  · obtain ⟨c, hc, r, rfl⟩ := hbelow
    cases r with
    | nil =>
      rw [List.append_nil] at hq
      exact absurd (List.prefix_refl c.1) (hq c hc)
    | cons i r =>
      rw [Node.descend_append_cons, Node.descend_append_cons, h.at_change c hc, h'.at_change c hc]
  · have hapart : ∀ c ∈ changes, Apart c.1 q := fun c hc =>
      ⟨fun hcq => hbelow ⟨c, hc, hcq⟩, hq c hc⟩
    rw [h'.off q hapart, h.off q hapart]

end Rearranged

end GeneticRepair
