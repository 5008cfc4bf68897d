import GeneticRepair.Proofs.Evolution.Crossing
import GeneticRepair.Proofs.Syntax.Forest
import GeneticRepair.Proofs.Syntax.Places

/-!
# `Proofs/Evolution/Targeting.lean` — where a mutation lands

A mutation draws one of the places at which suspicious statements stand, and a statement that stands
at several places is as likely to be drawn for each of them. What it hands on to the operator is the
statement, though, and the operator looks for it from the left. So the edit is made at the least
place of the statement, whichever one was drawn (`mutate_lands_iff`).
-/

set_option autoImplicit false

namespace GeneticRepair

/-! ## The same list from another index -/

section

variable {β : Type} {l : List β} {a b : Nat}

/-- It makes no difference which one of equal neighbours is taken out. -/
theorem eraseIdx_eq_iff (hab : a ≤ b) :
    l.eraseIdx a = l.eraseIdx b ↔ ∀ j, a ≤ j → j ≤ b → l[j]? = l[a]? := by
  constructor
  · intro h j haj
    induction j, haj using Nat.le_induction with
    | base => exact fun _ => rfl
    | succ j haj ih =>
      intro hjb
      have hj := congrArg (fun l : List β => l[j]?) h
      simp only [List.getElem?_eraseIdx] at hj
      rw [if_neg (by omega), if_pos (by omega)] at hj
      rw [hj, ih (by omega)]
  · intro h
    refine List.ext_getElem? fun j => ?_
    rw [List.getElem?_eraseIdx, List.getElem?_eraseIdx]
    by_cases hja : j < a
    · rw [if_pos hja, if_pos (by omega)]
    · rw [if_neg hja]
      split
      · next hjb => rw [h j (by omega) (by omega), h (j + 1) (by omega) (by omega)]
      · rfl

/-- It does make a difference where something new is put. -/
theorem eq_of_insertIdx_eq {x : β} (hx : x ∉ l) (ha : a ≤ l.length) (hb : b ≤ l.length)
    (h : l.insertIdx a x = l.insertIdx b x) : a = b := by
  have hnot {i j : Nat} (hij : i < j) (hi : i ≤ l.length)
      (h : l.insertIdx i x = l.insertIdx j x) : False := by
    have hat := congrArg (fun l : List β => l[i]?) h
    simp only [List.getElem?_insertIdx_self, if_pos hi, List.getElem?_insertIdx_of_lt hij] at hat
    exact hx (List.mem_of_getElem? hat.symm)
  obtain hlt | heq | hgt := Nat.lt_trichotomy a b
  · exact (hnot hlt ha h).elim
  · exact heq
  · exact (hnot hgt hb h.symm).elim

end

/-! ## One edit below a place -/

section

variable {α : Type} [Scalar α] {s s' : Store α} {t t' : Node} {p q : ChildPath}

/-- What an edit that was accepted handed out and made of what stood at its place. -/
theorem EditedAt.answered {e : Edit} {out : Option Node} {was : Node}
    (he : EditedAt p [e] s s' t t' [.ok out]) (hwas : t.descend p = some was) :
    e.fault? was.payload = none ∧ out = e.out was.payload ∧
      ∃ now, t'.descend p = some now ∧ now.payload = e.change was.payload := by
  obtain ⟨_, now, hfound, hnow, -, -, -, -, heffect⟩ := he.along p (List.prefix_refl p)
  obtain rfl := Option.some.inj (hwas.symm.trans hfound)
  have heffect := heffect rfl
  unfold Edit.effect at heffect
  cases hfault : e.fault? was.payload with
  | some fault => simp [hfault] at heffect
  | none =>
    rw [hfault] at heffect
    obtain ⟨hanswer, hpayload⟩ := Prod.mk.inj heffect
    exact ⟨rfl, Except.ok.inj (List.cons.inj hanswer).1, now, hnow, hpayload⟩

/-- An edit that was accepted found a node that it fits. -/
theorem EditedAt.accepted {e : Edit} {out : Option Node}
    (he : EditedAt p [e] s s' t t' [.ok out]) :
    ∃ was now, t.descend p = some was ∧ t'.descend p = some now ∧ e.fault? was.payload = none ∧
      now.payload = e.change was.payload := by
  obtain ⟨was, -, hwas, -⟩ := he.along p (List.prefix_refl p)
  obtain ⟨hfits, -, now, hnow, hpayload⟩ := he.answered hwas
  exact ⟨was, now, hwas, hnow, hfits, hpayload⟩

/-- It leaves there the children that it is to make of those that were there. -/
theorem EditedAt.childrenAt_eq {e : Edit} {out : Option Node} {was : Node} {nodes : List Node}
    (he : EditedAt p [e] s s' t t' [.ok out]) (hwas : t.descend p = some was)
    (hnodes : e.change was.payload = .children nodes) : t'.childrenAt p = nodes := by
  obtain ⟨-, -, now, hnow, hpayload⟩ := he.answered hwas
  rw [Node.childrenAt_of_descend hnow, Node.children_eq_of_payload (hpayload.trans hnodes)]

/-- A version tells where it was edited: the nodes on the way there are new, and no others. -/
theorem EditedAt.place_eq {script script' : List Edit}
    {answers answers' : List (Except EditError (Option Node))} (hs : s.Holds t)
    (he : EditedAt p script s s' t t' answers) (he' : EditedAt q script' s s' t t' answers') :
    p = q := by
  have hlength : p.length = q.length :=
    Nat.add_left_cancel (Nat.succ.inj (he.next_eq.symm.trans he'.next_eq))
  by_contra hne
  obtain ⟨-, now, -, hnow, hid, -⟩ := he'.along q (List.prefix_refl q)
  rw [he.off q (fun hqp => hne (hqp.eq_of_length hlength.symm).symm)
    fun hpq => hne (hpq.eq_of_length hlength)] at hnow
  have hold := hs now (Node.mem_preorder_of_descend hnow)
  exact Nat.not_lt.mpr (Nat.le_add_right _ _) (hid ▸ hold)

/-- An edit that would have made the same of the place has made the version as well. -/
theorem EditedAt.of_change_eq {e e' : Edit} {out : Option Node} {was : Node}
    (he : EditedAt p [e] s s' t t' [.ok out]) (hwas : t.descend p = some was)
    (hfits : e'.fault? was.payload = none)
    (hchange : e'.change was.payload = e.change was.payload) (hbrought : e'.brought = e.brought) :
    EditedAt p [e'] s s' t t' [.ok (e'.out was.payload)] := by
  obtain ⟨_, now, hfound, hnow, -, hpayload⟩ := he.accepted
  obtain rfl := Option.some.inj (hwas.symm.trans hfound)
  refine ⟨he.off, fun q hq => ?_, fun m hm => ?_, he.next_eq, he.grown⟩
  · obtain ⟨was', now', hwas', hnow', hid, hkind, hmark, hlength, -⟩ := he.along q hq
    refine ⟨was', now', hwas', hnow', hid, hkind, hmark, hlength, ?_⟩
    rintro rfl
    obtain rfl := Option.some.inj (hwas'.symm.trans hwas)
    obtain rfl := Option.some.inj (hnow'.symm.trans hnow)
    unfold Edit.effect
    rw [hfits, hpayload, hchange]
    rfl
  · simpa only [List.mem_singleton, exists_eq_left, hbrought] using he.only m hm

end

namespace Node

theorem payload_of_inner {n : Node} (h : n.isLeaf = false) : n.payload = .children n.children := by
  cases n with
  | leaf => cases h
  | inner => rfl

theorem fits_remove {n : Node} {index : Nat} :
    (Edit.remove index).fault? n.payload = none ↔ index < n.children.length := by
  cases n with
  | leaf => simp [Edit.fault?, payload, children]
  | inner => simp [Edit.fault?, payload, children]

theorem fits_insert {n child : Node} {index : Nat} :
    (Edit.insert index child).fault? n.payload = none ↔
      n.isLeaf = false ∧ index ≤ n.children.length := by
  cases n with
  | leaf => simp [Edit.fault?, payload, isLeaf]
  | inner => simp [Edit.fault?, payload, isLeaf, children]

/-- A node that is not the root stands below its parent. -/
theorem exists_parent {n m : Node} {path : ChildPath} {i : Nat}
    (h : n.descend (path ++ [i]) = some m) :
    ∃ parent, n.descend path = some parent ∧ parent.children[i]? = some m := by
  rw [descend_append] at h
  obtain ⟨parent, hparent, h⟩ := Option.bind_eq_some_iff.mp h
  obtain ⟨c, hc, h⟩ := Option.bind_eq_some_iff.mp h
  exact ⟨parent, hparent, hc.trans h⟩

theorem descend_concat {n m : Node} {path : ChildPath} (h : n.descend path = some m) (i : Nat) :
    n.descend (path ++ [i]) = m.children[i]? := by
  rw [descend_append_cons, childrenAt_of_descend h]
  cases m.children[i]? with
  | none => rfl
  | some c => rfl

end Node

/-! ## One slot -/

section

variable {α : Type} [Scalar α] {s s' : Store α} {t t' target : Node} {p q : ChildPath}

/-- A version has come about by one edit of the children around a place, at its index there. -/
def EditedSlot (edit : Nat → Edit) (s s' : Store α) (t t' : Node) (p : ChildPath) : Prop :=
  ∃ above index out, p = above ++ [index] ∧ EditedAt above [edit index] s s' t t' [.ok out]

theorem EditedSlot.editedAt {edit : Nat → Edit} {above : ChildPath} {index : Nat}
    (h : EditedSlot edit s s' t t' (above ++ [index])) :
    ∃ out, EditedAt above [edit index] s s' t t' [.ok out] := by
  obtain ⟨above', index', out, heq, he⟩ := h
  obtain ⟨rfl, hlast⟩ := List.append_inj' heq rfl
  obtain rfl := (List.cons.inj hlast).1
  exact ⟨out, he⟩

/-- From one place to another one below the same parent there is one node and nothing else. -/
def InRow (t target : Node) (p q : ChildPath) : Prop :=
  ∃ above a b, p = above ++ [a] ∧ q = above ++ [b] ∧
    ∀ j, a ≤ j → j ≤ b → t.descend (above ++ [j]) = some target

theorem le_of_not_concat_lt {above : ChildPath} {a b : Nat} (h : ¬ above ++ [b] < above ++ [a]) :
    a ≤ b := by
  by_contra hba
  exact h (List.append_left_lt (List.cons_lt_cons_iff.mpr (.inl (Nat.lt_of_not_le hba))))

/-- The removal of a node at one of its places is that at a later place if there is nothing else in
between. -/
theorem editedSlot_remove_iff (hs : s.Holds t) (h : EditedSlot .remove s s' t t' p)
    (hp : t.descend p = some target) (hpq : ¬ q < p) :
    EditedSlot .remove s s' t t' q ↔ InRow t target p q := by
  obtain ⟨above, a, out, rfl, he⟩ := h
  obtain ⟨was, now, hwas, hnow, hfits, hpayload⟩ := he.accepted
  have ha := Node.fits_remove.mp hfits
  have hinner : was.isLeaf = false := Node.isLeaf_of_getElem? (List.getElem?_eq_getElem ha)
  have hat (j : Nat) : t.descend (above ++ [j]) = was.children[j]? := Node.descend_concat hwas j
  rw [hat] at hp
  constructor
  · rintro ⟨above', b, out', rfl, he'⟩
    obtain rfl := he.place_eq hs he'
    obtain ⟨was', now', hwas', hnow', -, hpayload'⟩ := he'.accepted
    obtain rfl := Option.some.inj (hwas.symm.trans hwas')
    obtain rfl := Option.some.inj (hnow.symm.trans hnow')
    have hab := le_of_not_concat_lt hpq
    have hsame : was.children.eraseIdx a = was.children.eraseIdx b := by
      rw [hpayload, Node.payload_of_inner hinner] at hpayload'
      exact Payload.children.inj hpayload'
    refine ⟨above, a, b, rfl, rfl, fun j haj hjb => ?_⟩
    rw [hat, (eraseIdx_eq_iff hab).mp hsame j haj hjb, hp]
  · rintro ⟨above', a', b, heq, rfl, hall⟩
    obtain ⟨rfl, hlast⟩ := List.append_inj' heq rfl
    obtain rfl := (List.cons.inj hlast).1
    simp only [hat] at hall
    have hab := le_of_not_concat_lt hpq
    have hsame : was.children.eraseIdx a = was.children.eraseIdx b :=
      (eraseIdx_eq_iff hab).mpr fun j haj hjb => (hall j haj hjb).trans hp.symm
    have hb : b < was.children.length :=
      (List.getElem?_eq_some_iff.mp (hall b hab (Nat.le_refl b))).1
    refine ⟨above, b, _, rfl, he.of_change_eq hwas (Node.fits_remove.mpr hb) ?_ rfl⟩
    rw [Node.payload_of_inner hinner]
    exact congrArg Payload.children hsame.symm

/-- A new node that was put before one place was not put before another one. -/
theorem editedSlot_insert_iff {copied : Node} (hs : s.Holds t)
    (hnew : ∀ m ∈ t.preorder, m ≠ copied) (h : EditedSlot (.insert · copied) s s' t t' p) :
    EditedSlot (.insert · copied) s s' t t' q ↔ q = p := by
  refine ⟨fun h' => ?_, fun heq => heq ▸ h⟩
  obtain ⟨above, a, out, rfl, he⟩ := h
  obtain ⟨above', b, out', rfl, he'⟩ := h'
  obtain rfl := he.place_eq hs he'
  obtain ⟨was, now, hwas, hnow, hfits, hpayload⟩ := he.accepted
  obtain ⟨was', now', hwas', hnow', hfits', hpayload'⟩ := he'.accepted
  obtain rfl := Option.some.inj (hwas.symm.trans hwas')
  obtain rfl := Option.some.inj (hnow.symm.trans hnow')
  obtain ⟨hinner, ha⟩ := Node.fits_insert.mp hfits
  have hb := (Node.fits_insert.mp hfits').2
  have hsame : was.children.insertIdx a copied = was.children.insertIdx b copied := by
    rw [hpayload, Node.payload_of_inner hinner] at hpayload'
    exact Payload.children.inj hpayload'
  have hmem : copied ∉ was.children := fun hc => hnew copied
    (Node.mem_preorder_trans (Node.mem_preorder_of_mem_child hc (Node.self_mem_preorder copied))
      (Node.mem_preorder_of_descend hwas)) rfl
  rw [eq_of_insertIdx_eq hmem ha hb hsame]

end

namespace Mutation

variable {α : Type} [Scalar α] {s s' : Store α} {t t' target : Node} {path p first : ChildPath}
  {rng : WordStream} {scope : DonorScope}

/-! ## The least place of a statement -/

/-- A place at which a statement stands is the least one. -/
structure IsFirst (t target : Node) (first : ChildPath) : Prop where
  descend_eq : t.descend first = some target
  least : ∀ q, t.descend q = some target → ¬ q < first

omit [Scalar α] in
/-- The operators find the least place. -/
theorem exists_first (hforest : s.Forest [t]) (h : t.descend p = some target) :
    ∃ first, t.pathTo target.id = some first ∧ IsFirst t target first := by
  obtain ⟨first, hfirst⟩ := Node.exists_pathTo h
  obtain ⟨⟨m, hm, hid⟩, hleast⟩ := Node.pathTo_eq_some_iff.mp hfirst
  have heq : m = target := hforest.eq_of_id_eq t (by simp) t (by simp) m
    (Node.mem_preorder_of_descend hm) target (Node.mem_preorder_of_descend h) hid
  exact ⟨first, hfirst, heq ▸ hm, fun q hq hlt => hleast q target hq hlt rfl⟩

/-- Only the root is found at the root. -/
theorem IsFirst.eq_nil_iff (h : IsFirst t target first) (hp : t.descend p = some target) :
    first = [] ↔ p = [] := by
  constructor
  · rintro rfl
    obtain rfl := Option.some.inj h.descend_eq
    cases p with
    | nil => rfl
    | cons i p => exact absurd hp (Node.descend_cons_ne_self _ i p)
  · rintro rfl
    cases first with
    | nil => rfl
    | cons i first => exact absurd (List.nil_lt_cons i first) (h.least [] hp)

theorem exists_concat (hp : p ≠ []) (h : IsFirst t target first) (hat : t.descend p = some target) :
    ∃ above index, first = above ++ [index] := by
  have hne : first ≠ [] := fun hnil => hp ((h.eq_nil_iff hat).mp hnil)
  exact ⟨first.dropLast, first.getLast hne, (List.dropLast_append_getLast hne).symm⟩

theorem slotOf_concat {above : ChildPath} {index : Nat}
    (h : t.pathTo target.id = some (above ++ [index])) : slotOf t target = .ok (above, index) := by
  unfold slotOf
  rw [h]
  simp only [List.getLast?_concat, List.dropLast_concat]

/-! ## What the operators do there -/

/-- An edit that the node at a place takes is made there. -/
theorem editAt_of_fits {edit : Spine → Except EditError Spine} {e : Edit} {was : Node}
    (hedit : ∀ spine, (e.attempt spine).map (·.2) = edit spine) (hs : s.Holds t)
    (hwas : t.descend path = some was) (hfits : e.fault? was.payload = none) :
    ∃ t' s' out, editAt t path edit s = (.ok t', s') ∧
      EditedAt path [e] s s' t t' [.ok out] := by
  have hsome := Node.isSome_copySpine t path s
  rw [hwas, Option.isSome_some] at hsome
  obtain ⟨spine, hspine⟩ := Option.isSome_iff_exists.mp hsome
  have hcopy : t.copySpine path s = (some spine, (t.copySpine path s).2) := Prod.ext hspine rfl
  obtain ⟨old, hcopied⟩ := Node.copied_of_copySpine hs hcopy
  obtain rfl : was = old := Option.some.inj (hwas.symm.trans hcopied.copies.descend_eq)
  have hpayload : spine.target.payload = was.payload := by
    rw [hcopied.target_eq, Node.payload_withId]
  obtain ⟨spine', hattempt, -⟩ := Edit.attempt_of_fits (s := spine) (hpayload ▸ hfits)
  refine ⟨spine'.close, (t.copySpine path s).2, _, ?_, Node.editedAt_of_attempt hs hcopy hattempt⟩
  unfold editAt
  rw [bind_apply, hspine]
  simp only [← hedit spine, hattempt]
  rfl

/-- A statement is taken out at its least place. -/
theorem delete_of_pathTo (hs : s.Holds t) {above : ChildPath} {index : Nat}
    (hpath : t.pathTo target.id = some (above ++ [index]))
    (hat : t.descend (above ++ [index]) = some target) (rng : WordStream) (scope : DonorScope) :
    ∃ t' s', apply .delete t target scope rng s =
        ((.ok (t', "delete " ++ describe target), rng), s') ∧
      EditedSlot .remove s s' t t' (above ++ [index]) := by
  obtain ⟨parent, hparent, hchild⟩ := Node.exists_parent hat
  have hindex : index < parent.children.length := (List.getElem?_eq_some_iff.mp hchild).1
  obtain ⟨t', s', out, hmade, hedited⟩ :=
    editAt_of_fits (attempt_removeAt index) hs hparent (Node.fits_remove.mpr hindex)
  refine ⟨t', s', ?_, above, index, out, rfl, hedited⟩
  unfold apply delete
  simp only [slotOf_concat hpath]
  rw [bind_apply, bind_apply, hmade]
  rfl

/-- A statement may be put before itself, so there is always a donor. -/
theorem target_mem_donors (hpath : t.pathTo target.id = some path)
    (hat : t.descend path = some target) (hkind : target.kind = .atomicStatement)
    (scope : DonorScope) : target ∈ donors t target scope := by
  have hstatement {n : Node} (h : target ∈ n.preorder) : target ∈ n.statements :=
    List.mem_filter.mpr ⟨h, decide_eq_true hkind⟩
  have hin := hstatement (Node.mem_preorder_of_descend hat)
  cases scope with
  | program => exact hin
  | sameUnit =>
    unfold donors
    cases hunit : t.unitAround target with
    | none => exact hin
    | some unit =>
      obtain ⟨path', hpath', hfind⟩ := Option.bind_eq_some_iff.mp hunit
      obtain rfl := Option.some.inj (hpath.symm.trans hpath')
      obtain ⟨q, ⟨below, rfl⟩, hq⟩ := Node.mem_along_iff.mp
        (List.mem_reverse.mp (List.mem_of_find?_eq_some hfind))
      rw [Node.descend_append, hq, Option.bind_some] at hat
      exact hstatement (Node.mem_preorder_of_descend hat)

/-- A copy of the drawn donor is put before a node at its least place. -/
theorem insertBefore_of_donor (hs : s.Holds t) {above : ChildPath} {index : Nat} {donor : Node}
    (hpath : t.pathTo target.id = some (above ++ [index]))
    (hat : t.descend (above ++ [index]) = some target)
    (hdonor : (donors t target scope)[(rng.below (donors t target scope).length).1]? =
      some donor) :
    ∃ t' s', apply .insertBefore t target scope rng s =
        ((.ok (t', "insert " ++ describe donor ++ " before " ++ describe target),
          (rng.below (donors t target scope).length).2), s') ∧
      EditedSlot (.insert · (transplant donor target s).1) (transplant donor target s).2 s' t t'
        (above ++ [index]) := by
  obtain ⟨parent, hparent, hchild⟩ := Node.exists_parent hat
  have hindex : index < parent.children.length := (List.getElem?_eq_some_iff.mp hchild).1
  have hgrown := (transplant_spec donor target s).2.1
  obtain ⟨t', s', out, hmade, hedited⟩ :=
    editAt_of_fits (attempt_insertAt index (transplant donor target s).1)
      (hs.mono hgrown.next_le) hparent
      (Node.fits_insert.mpr ⟨Node.isLeaf_of_getElem? hchild, Nat.le_of_lt hindex⟩)
  refine ⟨t', s', ?_, above, index, out, rfl, hedited⟩
  unfold apply insertBefore
  simp only [slotOf_concat hpath]
  rw [hdonor]
  simp only []
  rw [bind_apply, bind_apply, hmade]
  rfl

/-- There is a donor for every statement, so a copy of one is put before it at its least place. -/
theorem insertBefore_of_pathTo (hs : s.Holds t) {above : ChildPath} {index : Nat}
    (hpath : t.pathTo target.id = some (above ++ [index]))
    (hat : t.descend (above ++ [index]) = some target) (hkind : target.kind = .atomicStatement)
    (rng : WordStream) (scope : DonorScope) :
    ∃ donor ∈ donors t target scope, ∃ t' s' rest,
      apply .insertBefore t target scope rng s =
        ((.ok (t', "insert " ++ describe donor ++ " before " ++ describe target), rest), s') ∧
      EditedSlot (.insert · (transplant donor target s).1) (transplant donor target s).2 s' t t'
        (above ++ [index]) := by
  have hpool := List.length_pos_of_mem (target_mem_donors hpath hat hkind scope)
  obtain ⟨donor, hdonor⟩ :
      ∃ donor, (donors t target scope)[(rng.below (donors t target scope).length).1]? =
        some donor := ⟨_, List.getElem?_eq_getElem (WordStream.below_lt hpool rng)⟩
  obtain ⟨t', s', happlied, hslot⟩ := insertBefore_of_donor hs hpath hat hdonor
  exact ⟨donor, List.mem_of_getElem? hdonor, t', s', _, happlied, hslot⟩

/-- Without a slot for its target an operator gives up at once. -/
theorem apply_of_slotOf_error {operator : Operator} {e : MutationError}
    (hslot : slotOf t target = .error e) (hoperator : operator ≠ .swap) (rng : WordStream)
    (scope : DonorScope) : apply operator t target scope rng s = ((.error e, rng), s) := by
  cases operator with
  | swap => exact absurd rfl hoperator
  | delete =>
    unfold apply delete
    simp only [hslot]
    rfl
  | insertBefore =>
    unfold apply insertBefore
    simp only [hslot]
    rfl

/-- At the root there is no parent to edit. -/
theorem apply_of_root {operator : Operator} (hpath : t.pathTo target.id = some [])
    (hoperator : operator ≠ .swap) (rng : WordStream) (scope : DonorScope) :
    apply operator t target scope rng s = ((.error .targetIsRoot, rng), s) := by
  refine apply_of_slotOf_error ?_ hoperator rng scope
  unfold slotOf
  rw [hpath]
  rfl

/-! ## What a mutation does -/

/-- A mutation deletes the drawn statement at its least place, or puts a copy of a donor before it
there. That is the drawn place of the statement, or comes to the same as deleting it there, exactly
if the two places are one or, for a deletion, nothing else is between them. -/
theorem mutate_lands_iff {operators : List Operator} {rest : WordStream} {index : Nat}
    {operator : Operator} (hforest : s.Forest [t])
    (hdraws : Draws s t operators rng index target operator rest)
    (hdrawn : (t.occurrences s.isSuspect)[index]? = some (p, target)) (scope : DonorScope) :
    ∃ first, IsFirst t target first ∧
      (p = [] → operator ≠ .swap →
        mutate t operators scope rng s = ((.refused operator .targetIsRoot, rest), s)) ∧
      (p ≠ [] → operator = .delete → ∃ t' s',
        mutate t operators scope rng s =
          ((.changed t' operator ("delete " ++ describe target), rest), s') ∧
        EditedSlot .remove s s' t t' first ∧
        (EditedSlot .remove s s' t t' p ↔ InRow t target first p)) ∧
      (p ≠ [] → operator = .insertBefore → ∃ donor ∈ donors t target scope, ∃ t' s' rest',
        mutate t operators scope rng s = ((.changed t' operator
          ("insert " ++ describe donor ++ " before " ++ describe target), rest'), s') ∧
        EditedSlot (.insert · (transplant donor target s).1) (transplant donor target s).2 s' t t'
          first ∧
        (EditedSlot (.insert · (transplant donor target s).1) (transplant donor target s).2 s' t t'
          p ↔ p = first)) := by
  have hs : s.Holds t := hforest.holds t (List.mem_singleton_self t)
  obtain ⟨hp, hsuspect⟩ := Node.mem_occurrences.mp (List.mem_of_getElem? hdrawn)
  have hkind : target.kind = .atomicStatement := by
    rw [Store.isSuspect, Bool.and_eq_true, decide_eq_true_eq] at hsuspect
    exact hsuspect.1
  obtain ⟨first, hpath, hfirst⟩ := exists_first hforest hp
  refine ⟨first, hfirst, fun hroot hoperator => ?_, fun hbelow hoperator => ?_,
    fun hbelow hoperator => ?_⟩
  · obtain rfl := (hfirst.eq_nil_iff hp).mpr hroot
    rw [mutate_of_draws hdraws scope, apply_of_root hpath hoperator]
    rfl
  · subst hoperator
    obtain ⟨above, a, rfl⟩ := exists_concat hbelow hfirst hp
    obtain ⟨t', s', happlied, hslot⟩ := delete_of_pathTo hs hpath hfirst.descend_eq rest scope
    refine ⟨t', s', ?_, hslot, editedSlot_remove_iff hs hslot hfirst.descend_eq (hfirst.least p hp)⟩
    rw [mutate_of_draws hdraws scope, happlied]
    rfl
  · subst hoperator
    obtain ⟨above, a, rfl⟩ := exists_concat hbelow hfirst hp
    obtain ⟨donor, hdonor, t', s', rest', happlied, hslot⟩ :=
      insertBefore_of_pathTo hs hpath hfirst.descend_eq hkind rest scope
    obtain ⟨hcopied, hgrown, -⟩ := transplant_spec donor target s
    have hnew : ∀ m ∈ t.preorder, m ≠ (transplant donor target s).1 := by
      rintro m hm rfl
      have hlt := hs _ hm
      rw [hcopied, Node.id_withId] at hlt
      exact Nat.lt_irrefl _ hlt
    refine ⟨donor, hdonor, t', s', rest', ?_, hslot,
      editedSlot_insert_iff (hs.mono hgrown.next_le) hnew hslot⟩
    rw [mutate_of_draws hdraws scope, happlied]
    rfl

/-! ## A statement and its echo -/

namespace Refrain

def check : Node := .make 1 .atomicStatement [.leaf 0 "check" ⟨1, 1⟩]

def log : Node := .make 3 .atomicStatement [.leaf 2 "log" ⟨2, 1⟩]

/-- Two statements, and both of them once more, as a crossover may leave them. -/
def program : Node := .make 4 .method [check, log, check, log]

def marks : Store Rat := ⟨#[.fresh [], ⟨1, none, []⟩, .fresh [], .fresh [], .fresh []]⟩

/-- Words for the middle of the unit interval, from which on the second place is drawn. -/
def words : WordStream := .ofList [0, 0x80000000]

theorem forest_program : marks.Forest [program] := by
  refine .of_nodes [program, check, .leaf 0 "check" ⟨1, 1⟩, log, .leaf 2 "log" ⟨2, 1⟩]
    (by decide) (by decide) ?_
  intro t ht
  have hnodes : program.preorder = [program, check, .leaf 0 "check" ⟨1, 1⟩, log,
    .leaf 2 "log" ⟨2, 1⟩, check, .leaf 0 "check" ⟨1, 1⟩, log, .leaf 2 "log" ⟨2, 1⟩] := rfl
  rw [List.mem_singleton.mp ht, hnodes]
  simp

/-- The second place of the statement is drawn, and with the next word the only operator. -/
theorem draws_program (operator : Operator) :
    ∃ rest, Draws marks program [operator] words 1 check operator rest := by
  have hweights : (marks.suspects program).map marks.suspicion = [1, 1] := by decide +kernel
  have hdraw : (Roulette.draw ([1, 1] : List Rat) words).1 = some 1 := by decide +kernel
  have hchoice : ((Roulette.draw ([1, 1] : List Rat) words).2.below 1).1 = 0 := by decide +kernel
  refine ⟨_, rfl, _, 0, ?_, Prod.ext hchoice rfl, rfl⟩
  rw [hweights]
  exact Prod.ext hdraw rfl

end Refrain

open Refrain in
/-- The second place was drawn, and the statement was taken out at the first one, with another
statement in between. -/
theorem mutate_lands_refrain : marks.Forest [program] ∧ ∃ rest,
    Draws marks program [.delete] words 1 check .delete rest ∧
    (program.occurrences marks.isSuspect)[1]? = some ([2], check) ∧
    ∃ first t' s', IsFirst program check first ∧
      mutate program [.delete] .program words marks =
        ((.changed t' .delete ("delete " ++ describe check), rest), s') ∧
      EditedSlot .remove marks s' program t' first ∧
      (EditedSlot .remove marks s' program t' [2] ↔ InRow program check first [2]) := by
  obtain ⟨rest, hdraws⟩ := draws_program .delete
  obtain ⟨first, hfirst, -, hdelete, -⟩ :=
    mutate_lands_iff forest_program hdraws rfl .program
  obtain ⟨t', s', hmutate, hslot, hiff⟩ := hdelete nofun rfl
  exact ⟨forest_program, rest, hdraws, rfl, first, t', s', hfirst, hmutate, hslot, hiff⟩

open Refrain in
/-- A deletion may take out the statement at another place than the one that was drawn. -/
theorem not_mutate_lands : ¬ ∀ (s : Store Rat) (t target : Node) (operators : List Operator)
    (scope : DonorScope) (rng rest : WordStream) (index : Nat) (p : ChildPath), s.Forest [t] →
    Draws s t operators rng index target .delete rest →
    (t.occurrences s.isSuspect)[index]? = some (p, target) → p ≠ [] →
    ∃ t' s' description rest', mutate t operators scope rng s =
      ((.changed t' .delete description, rest'), s') ∧ EditedSlot .remove s s' t t' p := by
  intro hlands
  obtain ⟨rest, hdraws⟩ := draws_program .delete
  obtain ⟨t', s', description, rest', hmutate, hslot⟩ := hlands marks program check [.delete]
    .program words rest 1 [2] forest_program hdraws rfl nofun
  have hids : t'.children.map Node.id = [3, 1, 3] := by
    have hmade : (mutate program [.delete] .program words marks).1.1.offspring.map
        (fun made => made.children.map Node.id) = [[3, 1, 3]] := by
      decide +kernel
    rw [hmutate] at hmade
    exact (List.cons.inj hmade).1
  obtain ⟨above, last, out, hp, he⟩ := hslot
  have hplace : [] ++ [2] = above ++ [last] := hp
  obtain ⟨rfl, hlast⟩ := List.append_inj' hplace rfl
  obtain rfl := (List.cons.inj hlast).1
  obtain ⟨was, now, hwas, hnow, -, hpayload⟩ := he.accepted
  obtain rfl := Option.some.inj hwas
  obtain rfl := Option.some.inj hnow
  -- without its third child the program would have the children `1`, `3`, `3`
  rw [Node.children_eq_of_payload hpayload] at hids
  revert hids
  decide

end Mutation

end GeneticRepair
