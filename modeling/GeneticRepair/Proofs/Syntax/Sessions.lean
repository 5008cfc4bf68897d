import Mathlib.Data.List.Nodup
import Mathlib.Data.List.Pairwise
import GeneticRepair.Proofs.Syntax.Building
import GeneticRepair.Proofs.Syntax.Spines

/-!
# `Proofs/Syntax/Sessions.lean` — building, asking and editing in any order

A session is all that can happen to programs that live side by side: programs are built, nodes are
asked for their spans, spines are copied, edited with or without success, and closed, many of them
at the same time. `Session.Ordered` says what keeps the nodes of a session apart from each other:
the programs are a forest, and a copy on an open spine has an identity that no other node has.
Nothing that happens can therefore change the leaves below a node that others hold, but a copy that
is edited keeps its identity, and with it whatever is remembered under it. `Session.Exact` is the
invariant for that, and `span_never_stale` what it comes to.
-/

set_option autoImplicit false

namespace GeneticRepair

open Store (HasNode)

variable {n m : Node}

/-! ## Sessions -/

/-- The programs that there are and the spines that are open, with the spans that are remembered. -/
structure Session (α : Type) where
  store : Store α
  spans : SpanCache
  versions : List Node
  spines : List Spine

namespace Session

variable {α : Type}

def start : Session α := ⟨.empty, .empty, [], []⟩

/-- The nodes that can be asked: those of the versions, and the targets of the spines. -/
def Knows (s : Session α) (n : Node) : Prop :=
  HasNode s.versions n ∨ ∃ spine ∈ s.spines, n = spine.target

/-- The identities of all copies on open spines. -/
def copies (s : Session α) : List NodeId := s.spines.flatMap Spine.copies

variable [Scalar α]

/-- What may happen next: any of the programs and any of the spines can be next, and nodes that are
taken over by a program, or brought in by an edit, are nodes of versions. -/
inductive Step (s : Session α) : Session α → Prop where
  | build (d : Draft) (hd : ∀ n ∈ d.reused, HasNode s.versions n) :
      Step s { s with
        store := (d.build s.store).2
        versions := (d.build s.store).1 :: s.versions }
  | measure (n : Node) (hn : s.Knows n) : Step s { s with spans := (n.measure s.spans).2 }
  | copy (n : Node) (hn : HasNode s.versions n) (path : ChildPath) (spine : Spine)
      (store : Store α) (h : n.copySpine path s.store = (some spine, store)) :
      Step s { s with
        store := store
        spans := n.shareAlong path s.store.next s.spans
        spines := spine :: s.spines }
  | miss (n : Node) (hn : HasNode s.versions n) (path : ChildPath) (store : Store α)
      (h : n.copySpine path s.store = (none, store)) : Step s { s with store := store }
  | edit (before : List Spine) (spine : Spine) (after : List Spine)
      (h : s.spines = before ++ spine :: after) (e : Edit)
      (he : ∀ c ∈ e.brought, HasNode s.versions c) :
      Step s { s with
        spans := e.remember spine s.spans
        spines := before ++ (Edit.attemptAll [e] spine).2 :: after }
  | close (before : List Spine) (spine : Spine) (after : List Spine)
      (h : s.spines = before ++ spine :: after) :
      Step s { s with
        spans := spine.release s.spans
        versions := spine.close :: s.versions
        spines := before ++ after }

/-- A session after any history. -/
inductive Reached : Session α → Prop where
  | start : Reached start
  | step {s s' : Session α} (h : Reached s) (hstep : Step s s') : Reached s'

/-! ### Nodes are kept apart -/

/-- The programs are a forest that the spines carry nodes of, and every copy on a spine has an
identity of its own. -/
structure Ordered (s : Session α) : Prop where
  forest : s.store.Forest s.versions
  carried : ∀ spine ∈ s.spines, ∀ c, spine.Carries c → HasNode s.versions c
  nodup : s.copies.Nodup
  lt_next : ∀ id ∈ s.copies, id < s.store.next
  apart : ∀ id ∈ s.copies, ∀ m, HasNode s.versions m → m.id ≠ id

variable {s s' : Session α}

omit [Scalar α] in
theorem target_mem_copies {spine : Spine} (h : spine ∈ s.spines) : spine.target.id ∈ s.copies :=
  List.mem_flatMap.mpr ⟨spine, h, List.mem_append_right _ (List.mem_singleton_self _)⟩

theorem next_le_of_copySpine {path : ChildPath} {spine? : Option Spine} {store store' : Store α}
    (h : n.copySpine path store = (spine?, store')) : store.next ≤ store'.next := by
  have hgrown := Node.copySpine_extends n path store
  rw [h] at hgrown
  exact hgrown.next_le

omit [Scalar α] in
theorem ordered_start : (start : Session α).Ordered := by
  constructor
  · exact ⟨fun _ ht => absurd ht List.not_mem_nil, fun _ ht => absurd ht List.not_mem_nil⟩
  · exact fun _ hspine => absurd hspine List.not_mem_nil
  · exact List.nodup_nil
  · exact fun _ hid => absurd hid List.not_mem_nil
  · exact fun _ hid => absurd hid List.not_mem_nil

namespace Ordered

omit [Scalar α] in
theorem lt_of_knows (h : s.Ordered) (hn : s.Knows n) : n.id < s.store.next := by
  obtain hn | ⟨spine, hspine, rfl⟩ := hn
  · exact h.forest.lt_next hn
  · exact h.lt_next _ (target_mem_copies hspine)

omit [Scalar α] in
/-- Two spines do not share a copy. -/
theorem eq_of_target_eq (h : s.Ordered) {spine spine' : Spine} (hspine : spine ∈ s.spines)
    (hspine' : spine' ∈ s.spines) (hid : spine.target.id = spine'.target.id) : spine = spine' := by
  have hsymm : Std.Symm (Function.onFun List.Disjoint Spine.copies) :=
    ⟨fun _ _ hd _ hmem hmem' => hd hmem' hmem⟩
  by_contra hne
  have hdisjoint := (List.nodup_flatMap.mp h.nodup).2.forall hspine hspine' hne
  refine hdisjoint (List.mem_append_right _ (List.mem_singleton_self _)) ?_
  rw [hid]
  exact List.mem_append_right _ (List.mem_singleton_self _)

omit [Scalar α] in
theorem known (h : s.Ordered) : Known s.Knows := by
  constructor
  · rintro n c (hn | ⟨spine, hspine, rfl⟩) hc
    · exact .inl (hn.below (Node.mem_preorder_of_mem_child hc (Node.self_mem_preorder c)))
    · exact .inl (h.carried spine hspine c (.inl hc))
  · rintro m m' (hm | ⟨spine, hspine, rfl⟩) (hm' | ⟨spine', hspine', rfl⟩) hid
    · exact h.forest.eq hm hm' hid
    · exact absurd hid (h.apart _ (target_mem_copies hspine') m hm)
    · exact absurd hid.symm (h.apart _ (target_mem_copies hspine) m' hm')
    · rw [h.eq_of_target_eq hspine hspine' hid]

omit [Scalar α] in
theorem hasNode_close (h : s.Ordered) {before after : List Spine} {spine : Spine}
    (hs : s.spines = before ++ spine :: after) (hm : HasNode (spine.close :: s.versions) m) :
    HasNode s.versions m ∨ m ∈ Spine.linked spine.ancestors spine.target := by
  obtain hm | hm := Store.hasNode_cons.mp hm
  · obtain ⟨c, hc, hm⟩ | hm := Spine.mem_preorder_close hm
    · have hspine : spine ∈ s.spines := hs ▸ List.mem_append_right _ List.mem_cons_self
      exact .inl ((h.carried spine hspine c hc).below hm)
    · exact .inr hm
  · exact .inl hm

theorem built (h : s.Ordered) {d : Draft} (hd : ∀ n ∈ d.reused, HasNode s.versions n) :
    Draft.Built s.versions s.store.next (d.build s.store).2.next [(d.build s.store).1] :=
  Draft.built_build d (fun _ hm => h.forest.lt_next hm) hd

/-- The spine that is copied, and the node that its target is a copy of. -/
theorem copied (h : s.Ordered) (hn : HasNode s.versions n) {path : ChildPath} {spine : Spine}
    {store : Store α} (hcopy : n.copySpine path s.store = (some spine, store)) :
    ∃ old, Node.Copied s.store store n path spine old ∧ HasNode s.versions old := by
  obtain ⟨old, hcopied⟩ := Node.copied_of_copySpine
    (fun m hm => h.forest.lt_next (hn.below hm)) hcopy
  exact ⟨old, hcopied, hn.below (Node.mem_preorder_of_descend hcopied.copies.descend_eq)⟩

/-- What is built has new identities. -/
theorem build (h : s.Ordered) {d : Draft} (hd : ∀ n ∈ d.reused, HasNode s.versions n) :
    Ordered { s with
      store := (d.build s.store).2
      versions := (d.build s.store).1 :: s.versions } := by
  have hbuilt := h.built hd
  refine ⟨h.forest.extend hbuilt.next_le hbuilt.origin hbuilt.eq_of_id_eq, fun spine hs c hc => ?_,
    h.nodup, fun id hid => Nat.lt_of_lt_of_le (h.lt_next id hid) hbuilt.next_le,
    fun id hid m hm => ?_⟩
  · exact Store.hasNode_cons.mpr (.inr (h.carried spine hs c hc))
  · obtain hm | hm := Store.hasNode_cons.mp hm
    · obtain hm | ⟨hle, -⟩ := hbuilt.origin m (Store.hasNode_singleton.mpr hm)
      · exact h.apart id hid m hm
      · exact Nat.ne_of_gt (Nat.lt_of_lt_of_le (h.lt_next id hid) hle)
    · exact h.apart id hid m hm

/-- The copies of a spine have the next identities. -/
theorem copy (h : s.Ordered) (hn : HasNode s.versions n) {path : ChildPath} {spine : Spine}
    {store : Store α} (hcopy : n.copySpine path s.store = (some spine, store)) (spans : SpanCache) :
    Ordered { s with store := store, spans := spans, spines := spine :: s.spines } := by
  obtain ⟨old, hcopied, hold⟩ := h.copied hn hcopy
  have hids : spine.copies = List.range' s.store.next (path.length + 1) := by
    rw [Spine.copies, hcopied.copies.map_id, hcopied.target_eq, Node.id_withId, List.range'_concat,
      Nat.one_mul]
  have hle : s.store.next ≤ store.next := by
    rw [hcopied.next_eq, Nat.add_assoc]
    exact Nat.le_add_right _ _
  refine ⟨h.forest.mono hle, fun spine' hs c hc => ?_, ?_, fun id hid => ?_, fun id hid m hm => ?_⟩
  · obtain rfl | hs := List.mem_cons.mp hs
    · obtain hc | ⟨a, ha, hc⟩ := hc
      · rw [hcopied.target_eq, Node.children_withId] at hc
        exact hold.below (Node.mem_preorder_of_mem_child hc (Node.self_mem_preorder c))
      · exact hn.below (hcopied.copies.children_mem ha hc)
    · exact h.carried spine' hs c hc
  · refine List.Nodup.append ?_ h.nodup fun id hid hid' => ?_
    · rw [hids]
      exact List.nodup_range'
    · rw [hids, List.mem_range'_1] at hid
      exact Nat.not_lt_of_le hid.1 (h.lt_next id hid')
  · obtain hid | hid := List.mem_append.mp hid
    · rw [hids, List.mem_range'_1] at hid
      rw [hcopied.next_eq]
      exact hid.2
    · exact Nat.lt_of_lt_of_le (h.lt_next id hid) hle
  · obtain hid | hid := List.mem_append.mp hid
    · rw [hids, List.mem_range'_1] at hid
      exact Nat.ne_of_lt (Nat.lt_of_lt_of_le (h.forest.lt_next hm) hid.1)
    · exact h.apart id hid m hm

omit [Scalar α] in
/-- An edit changes neither the copies nor the versions. -/
theorem edit (h : s.Ordered) {before after : List Spine} {spine : Spine}
    (hs : s.spines = before ++ spine :: after) {e : Edit}
    (he : ∀ c ∈ e.brought, HasNode s.versions c) (spans : SpanCache) :
    Ordered { s with
      spans := spans
      spines := before ++ (Edit.attemptAll [e] spine).2 :: after } := by
  have hcopies : (Session.mk s.store spans s.versions
      (before ++ (Edit.attemptAll [e] spine).2 :: after)).copies = s.copies := by
    simp only [copies, hs, List.flatMap_append, List.flatMap_cons, Edit.copies_attemptAll]
  refine ⟨h.forest, fun spine' hs' c hc => ?_, by rw [hcopies]; exact h.nodup,
    by rw [hcopies]; exact h.lt_next, by rw [hcopies]; exact h.apart⟩
  have hold (hmem : spine' ∈ s.spines) : HasNode s.versions c := h.carried spine' hmem c hc
  rw [hs] at hold
  obtain hs' | hs' := List.mem_append.mp hs'
  · exact hold (List.mem_append_left _ hs')
  · obtain rfl | hs' := List.mem_cons.mp hs'
    · obtain hc | ⟨e', he', hc⟩ := Edit.carries_attemptAll hc
      · exact h.carried spine (hs ▸ List.mem_append_right _ List.mem_cons_self) c hc
      · exact he c (List.mem_singleton.mp he' ▸ hc)
    · exact hold (List.mem_append_right _ (List.mem_cons_of_mem _ hs'))

omit [Scalar α] in
/-- The copies of a spine that is closed are nodes of a version now. -/
theorem close (h : s.Ordered) {before after : List Spine} {spine : Spine}
    (hs : s.spines = before ++ spine :: after) (spans : SpanCache) :
    Ordered { s with
      spans := spans
      versions := spine.close :: s.versions
      spines := before ++ after } := by
  have hperm : s.copies.Perm (spine.copies ++ (before ++ after).flatMap Spine.copies) := by
    rw [copies, hs]
    exact List.perm_middle.flatMap_right _
  obtain ⟨hnodup, hrest, hdisjoint⟩ := List.nodup_append'.mp (hperm.nodup_iff.mp h.nodup)
  have hmem (spine' : Spine) (hs' : spine' ∈ before ++ after) : spine' ∈ s.spines := by
    rw [hs]
    exact List.perm_middle.mem_iff.mpr (List.mem_cons_of_mem _ hs')
  have hlinked {m : Node} (hm : m ∈ Spine.linked spine.ancestors spine.target) :
      m.id ∈ spine.copies :=
    Spine.map_id_linked spine.ancestors spine.target ▸ List.mem_map_of_mem hm
  have hcopy {id : NodeId} (hid : id ∈ spine.copies) : id ∈ s.copies :=
    hperm.mem_iff.mpr (List.mem_append_left _ hid)
  have hother {id : NodeId} (hid : id ∈ (before ++ after).flatMap Spine.copies) : id ∈ s.copies :=
    hperm.mem_iff.mpr (List.mem_append_right _ hid)
  refine ⟨⟨fun t ht m hm => ?_, fun t ht t' ht' m hm m' hm' hid => ?_⟩, fun spine' hs' c hc => ?_,
    hrest, fun id hid => h.lt_next id (hother hid), fun id hid m hm => ?_⟩
  · obtain hm | hm := h.hasNode_close hs ⟨t, ht, hm⟩
    · exact h.forest.lt_next hm
    · exact h.lt_next _ (hcopy (hlinked hm))
  · obtain hm | hm := h.hasNode_close hs ⟨t, ht, hm⟩
    · obtain hm' | hm' := h.hasNode_close hs ⟨t', ht', hm'⟩
      · exact h.forest.eq hm hm' hid
      · exact absurd hid (h.apart _ (hcopy (hlinked hm')) m hm)
    · obtain hm' | hm' := h.hasNode_close hs ⟨t', ht', hm'⟩
      · exact absurd hid.symm (h.apart _ (hcopy (hlinked hm)) m' hm')
      · refine List.inj_on_of_nodup_map ?_ hm hm' hid
        rw [Spine.map_id_linked]
        exact hnodup
  · exact Store.hasNode_cons.mpr (.inr (h.carried spine' (hmem spine' hs') c hc))
  · obtain hm | hm := h.hasNode_close hs hm
    · exact h.apart id (hother hid) m hm
    · rintro rfl
      exact hdisjoint (hlinked hm) hid

theorem step (h : s.Ordered) (hstep : Step s s') : s'.Ordered := by
  cases hstep with
  | build d hd => exact h.build hd
  | measure n hn => exact ⟨h.forest, h.carried, h.nodup, h.lt_next, h.apart⟩
  | copy n hn path spine store hcopy => exact h.copy hn hcopy _
  | miss n hn path store hmiss =>
    have hle := next_le_of_copySpine hmiss
    exact ⟨h.forest.mono hle, h.carried, h.nodup,
      fun id hid => Nat.lt_of_lt_of_le (h.lt_next id hid) hle, h.apart⟩
  | edit before spine after hs e he => exact h.edit hs he _
  | close before spine after hs => exact h.close hs _

end Ordered

/-! ### Spans are right -/

/-- The nodes that can be asked carry their spans, and what is remembered of them is right. -/
structure Exact (s : Session α) : Prop where
  spanned : ∀ n, s.Knows n → n.Spanned
  right : s.spans.Right s.Knows s.store.next

omit [Scalar α] in
theorem exact_start : (start : Session α).Exact := by
  refine ⟨fun n hn => ?_, SpanCache.right_empty _ _⟩
  obtain ⟨t, ht, -⟩ | ⟨spine, hspine, -⟩ := hn
  · exact absurd ht List.not_mem_nil
  · exact absurd hspine List.not_mem_nil

namespace Exact

theorem build (h : s.Exact) (hs : s.Ordered) {d : Draft}
    (hd : ∀ n ∈ d.reused, HasNode s.versions n) :
    Exact { s with
      store := (d.build s.store).2
      versions := (d.build s.store).1 :: s.versions } := by
  have hbuilt := hs.built hd
  constructor
  · rintro n (hn | hn)
    · obtain hn | hn := Store.hasNode_cons.mp hn
      · exact hbuilt.spanned (fun m hm => h.spanned m (.inl hm)) n (Store.hasNode_singleton.mpr hn)
      · exact h.spanned n (.inl hn)
    · exact h.spanned n (.inr hn)
  · -- nothing is remembered of a node that has just been made
    refine h.right.of_lookup (fun _ _ hlookup => hlookup) (fun m span hm hlookup => ?_)
      hbuilt.next_le
    obtain hm | hm := hm
    · obtain hm | hm := Store.hasNode_cons.mp hm
      · obtain hm | ⟨hle, -⟩ := hbuilt.origin m (Store.hasNode_singleton.mpr hm)
        · exact .inl hm
        · exact absurd (h.right.lt_next m.id span hlookup) (Nat.not_lt_of_le hle)
      · exact .inl hm
    · exact .inr hm

/-- The target of a copied spine has the lines of the node that it is a copy of. -/
theorem copy (h : s.Exact) (hs : s.Ordered) (hn : HasNode s.versions n) {path : ChildPath}
    {spine : Spine} {store : Store α} (hcopy : n.copySpine path s.store = (some spine, store)) :
    Exact { s with
      store := store
      spans := n.shareAlong path s.store.next s.spans
      spines := spine :: s.spines } := by
  obtain ⟨old, hcopied, hold⟩ := hs.copied hn hcopy
  have hcases {m : Node} (hm : HasNode s.versions m ∨ ∃ spine' ∈ spine :: s.spines,
      m = spine'.target) : s.Knows m ∨ m = old.withId (s.store.next + path.length) := by
    obtain hm | ⟨spine', hs', rfl⟩ := hm
    · exact .inl (.inl hm)
    · obtain rfl | hs' := List.mem_cons.mp hs'
      · exact .inr hcopied.target_eq
      · exact .inl (.inr ⟨spine', hs', rfl⟩)
  refine ⟨fun m hm => ?_, fun m span hm hlookup => ?_, fun id span hlookup => ?_⟩
  · obtain hm | rfl := hcases hm
    · exact h.spanned m hm
    · exact (h.spanned old (.inl hold)).withId _
  · obtain hm | rfl := hcases hm
    · rw [Node.lookup_shareAlong (.inl (hs.lt_of_knows hm))] at hlookup
      exact h.right.isHull m span hm hlookup
    · rw [Node.id_withId, hcopied.copies.lookup_target (hs.forest.lt_next hold)] at hlookup
      rw [Node.lines_withId]
      exact h.right.isHull old span (.inl hold) hlookup
  · rw [hcopied.next_eq]
    by_cases hid : id < s.store.next ∨ s.store.next + path.length < id
    · rw [Node.lookup_shareAlong hid] at hlookup
      have hlt := h.right.lt_next id span hlookup
      exact Nat.lt_of_lt_of_le hlt (Nat.le_add_right_of_le (Nat.le_add_right _ _))
    · exact Nat.lt_succ_of_le (Nat.le_of_not_lt fun hlt => hid (.inr hlt))

omit [Scalar α] in
/-- An edit that changes children forgets the span, and one that writes a token need not. -/
theorem edit (h : s.Exact) (hs : s.Ordered) {before after : List Spine} {spine : Spine}
    (hspines : s.spines = before ++ spine :: after) {e : Edit}
    (he : ∀ c ∈ e.brought, HasNode s.versions c) :
    Exact { s with
      spans := e.remember spine s.spans
      spines := before ++ (Edit.attemptAll [e] spine).2 :: after } := by
  have hspine : spine ∈ s.spines := hspines ▸ List.mem_append_right _ List.mem_cons_self
  have hcases {m : Node} (hm : HasNode s.versions m ∨ ∃ spine' ∈ before ++
      (Edit.attemptAll [e] spine).2 :: after, m = spine'.target) :
      s.Knows m ∨ m = (Edit.attemptAll [e] spine).2.target := by
    obtain hm | ⟨spine', hs', rfl⟩ := hm
    · exact .inl (.inl hm)
    · obtain hs' | hs' := List.mem_append.mp hs'
      · exact .inl (.inr ⟨spine', hspines ▸ List.mem_append_left _ hs', rfl⟩)
      · obtain rfl | hs' := List.mem_cons.mp hs'
        · exact .inr rfl
        · refine .inl (.inr ⟨spine', hspines ▸ ?_, rfl⟩)
          exact List.mem_append_right _ (List.mem_cons_of_mem _ hs')
  have hknown : s.Knows spine.target := .inr ⟨spine, hspine, rfl⟩
  have hcarried := (hs.edit hspines he s.spans).carried (Edit.attemptAll [e] spine).2
    (List.mem_append_right _ List.mem_cons_self)
  obtain ⟨hspanned, hright⟩ := Edit.exact_attemptAll (h.spanned _ hknown)
    (fun span => h.right.isHull _ span hknown) fun m hm => h.spanned m (.inl (hcarried m hm))
  refine ⟨fun m hm => ?_, fun m span hm hlookup => ?_, fun id span hlookup =>
    h.right.lt_next id span (Edit.lookup_remember hlookup)⟩
  · obtain hm | rfl := hcases hm
    · exact h.spanned m hm
    · exact hspanned
  · obtain hm | rfl := hcases hm
    · exact h.right.isHull m span hm (Edit.lookup_remember hlookup)
    · exact hright span hlookup

omit [Scalar α] in
/-- Closing forgets the spans of all copies that get another child. -/
theorem close (h : s.Exact) (hs : s.Ordered) {before after : List Spine} {spine : Spine}
    (hspines : s.spines = before ++ spine :: after) :
    Exact { s with
      spans := spine.release s.spans
      versions := spine.close :: s.versions
      spines := before ++ after } := by
  have hspine : spine ∈ s.spines := hspines ▸ List.mem_append_right _ List.mem_cons_self
  have hcases {m : Node} (hm : HasNode (spine.close :: s.versions) m ∨
      ∃ spine' ∈ before ++ after, m = spine'.target) :
      s.Knows m ∨ m ∈ Spine.linked spine.ancestors spine.target := by
    obtain hm | ⟨spine', hs', rfl⟩ := hm
    · exact (hs.hasNode_close hspines hm).imp_left .inl
    · refine .inl (.inr ⟨spine', ?_, rfl⟩)
      rw [hspines]
      exact List.perm_middle.mem_iff.mpr (List.mem_cons_of_mem _ hs')
  have hlinked := Spine.spanned_linked (h.spanned _ (.inr ⟨spine, hspine, rfl⟩))
    fun c hc => h.spanned c (.inl (hs.carried spine hspine c hc))
  constructor
  · intro m hm
    obtain hm | hm := hcases hm
    · exact h.spanned m hm
    · exact hlinked m hm
  · refine h.right.of_lookup (fun _ _ hlookup => (Spine.lookup_release hlookup).1)
      (fun m span hm hlookup => ?_) (Nat.le_refl _)
    obtain hm | hm := hcases hm
    · exact hm
    · obtain rfl | hid := Spine.mem_linked hm
      · exact .inr ⟨spine, hspine, rfl⟩
      · exact absurd hid (Spine.lookup_release hlookup).2

theorem step (h : s.Exact) (hs : s.Ordered) (hstep : Step s s') : s'.Exact := by
  cases hstep with
  | build d hd => exact h.build hs hd
  | measure n hn =>
    exact ⟨h.spanned, (Node.measure_right hs.known (fun m hm => hs.lt_of_knows hm) hn h.right).2⟩
  | copy n hn path spine store hcopy => exact h.copy hs hn hcopy
  | miss n hn path store hmiss =>
    exact ⟨h.spanned, h.right.of_lookup (fun _ _ hlookup => hlookup) (fun _ _ hm _ => hm)
      (next_le_of_copySpine hmiss)⟩
  | edit before spine after hspines e he => exact h.edit hs hspines he
  | close before spine after hspines => exact h.close hs hspines

end Exact

theorem Reached.invariant (h : Reached s) : s.Ordered ∧ s.Exact := by
  induction h with
  | start => exact ⟨ordered_start, exact_start⟩
  | step _ hstep ih => exact ⟨ih.1.step hstep, ih.2.step ih.1 hstep⟩

/-- After any history, every node of every version and the target of every open spine, asked for its
span, names the least and the greatest line of the leaves below it, and none if there is no leaf.
It is also the span that the node carries. -/
theorem span_never_stale (h : Reached s) (hn : s.Knows n) :
    ((n.measure s.spans).1 = none ↔ n.lines = ∅) ∧
      (∀ first last, (n.measure s.spans).1 = some ⟨first, last⟩ ↔
        IsLeast n.lines first ∧ IsGreatest n.lines last) ∧
      n.lineSpan = (n.measure s.spans).1 := by
  obtain ⟨hordered, hexact⟩ := h.invariant
  obtain ⟨hspan, -⟩ := Node.measure_right hordered.known (fun m hm => hordered.lt_of_knows hm) hn
    hexact.right
  exact ⟨hspan.eq_none_iff, fun _ _ => hspan.eq_some_iff, (hexact.spanned n hn).unique hspan⟩

/-- A method of a statement on each of two lines. -/
def twoLines : Draft :=
  .inner .method [] [.inner .atomicStatement [] [.token "a" 1 1],
    .inner .atomicStatement [] [.token "b" 2 1]]

/-- The method that is built of it. -/
def longer : Node := (twoLines.build (Store.empty : Store Rat)).1

def longerStore : Store Rat := (twoLines.build Store.empty).2

/-- Its copy, once the first of the statements has been removed. -/
def shorter : Node := .make 5 .method (longer.children.eraseIdx 0)

/-- Both versions are asked. Before that the first one and its copy have been asked too, and one
attempt to remove a statement from the copy has been refused. -/
theorem span_never_stale_shorter : ∃ s : Session Rat, Reached s ∧ s.Knows longer ∧
    s.Knows shorter ∧ (longer.measure s.spans).1 = some ⟨1, 2⟩ ∧
    (shorter.measure s.spans).1 = some ⟨2, 2⟩ := by
  let asked := (longer.measure .empty).2
  let shared := longer.shareAlong [] 5 asked
  let again := ((longer.withId 5).measure shared).2
  let store := (longerStore.allocate (longerStore.mark longer.id)).2
  have hbuilt : Reached ⟨longerStore, .empty, [longer], []⟩ := Reached.start.step
    (.build twoLines (by simp [twoLines, Draft.token, Draft.reused, Draft.reusedAll]))
  have hold : HasNode [longer] longer := .of_mem List.mem_cons_self
  have hasked : Reached ⟨longerStore, asked, [longer], []⟩ :=
    hbuilt.step (.measure longer (.inl hold))
  have hcopied : Reached ⟨store, shared, [longer], [⟨[], longer.withId 5⟩]⟩ :=
    hasked.step (.copy longer hold [] _ _ rfl)
  have hagain : Reached ⟨store, again, [longer], [⟨[], longer.withId 5⟩]⟩ :=
    hcopied.step (.measure (longer.withId 5) (.inr ⟨_, List.mem_cons_self, rfl⟩))
  have hrefused : Reached ⟨store, again.forget 5, [longer], [⟨[], longer.withId 5⟩]⟩ :=
    hagain.step (.edit [] ⟨[], longer.withId 5⟩ [] rfl (.remove 2)
      fun _ hc => absurd hc List.not_mem_nil)
  have hedited : Reached ⟨store, (again.forget 5).forget 5, [longer], [⟨[], shorter⟩]⟩ :=
    hrefused.step (.edit [] ⟨[], longer.withId 5⟩ [] rfl (.remove 0)
      fun _ hc => absurd hc List.not_mem_nil)
  have hclosed : Reached ⟨store, (again.forget 5).forget 5, [shorter, longer], []⟩ :=
    hedited.step (.close [] ⟨[], shorter⟩ [] rfl)
  have hlonger : HasNode [shorter, longer] longer :=
    .of_mem (List.mem_cons_of_mem _ List.mem_cons_self)
  have hshorter : HasNode [shorter, longer] shorter := .of_mem List.mem_cons_self
  exact ⟨_, hclosed, .inl hlonger, .inl hshorter,
    (span_never_stale hclosed (.inl hlonger)).2.2.symm,
    (span_never_stale hclosed (.inl hshorter)).2.2.symm⟩

end Session

end GeneticRepair
