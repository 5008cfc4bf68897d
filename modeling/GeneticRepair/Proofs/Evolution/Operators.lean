import GeneticRepair.Proofs.Evolution.Provenance
import GeneticRepair.Proofs.Evolution.Targeting
import GeneticRepair.Proofs.Syntax.Navigating

/-!
# `Proofs/Evolution/Operators.lean` — what an operator does to its target

An operator is refused for one of three reasons that are there before anything is copied
(`Refused`): its target is not part of the program, it is the program, or nothing may be inserted
because there is no statement to copy. The copied spine always takes the edit. So an operator that
is not refused changes the children of one node, the parent of the least place of its target
(`Performed`), and the random words decide about the donor and nothing else.

* `apply_error_iff`: an operator is refused for these reasons and for no other.
* `apply_performed`: what it does if none of them is there.
* `apply_exact`: both, and what is left of the reasons when a mutation has drawn the target.
-/

set_option autoImplicit false

namespace GeneticRepair

variable {α : Type} [Scalar α] {s : Store α} {t target : Node} {first : ChildPath}

namespace Mutation

/-! ## Where donors come from -/

/-- The part of a program that donors for a target come from: all of it, or the innermost source
file around the least place of the target if there is one. -/
inductive Region (t target : Node) : DonorScope → Node → Prop where
  | program : Region t target .program t
  | unit {first : ChildPath} {unit : Node} (hfirst : IsFirst t target first)
      (h : t.InnermostUnit first unit) : Region t target .sameUnit unit
  | unhoused {first : ChildPath} (hfirst : IsFirst t target first)
      (h : ∀ unit, ¬ t.InnermostUnit first unit) : Region t target .sameUnit t

omit [Scalar α] in
theorem pathTo_of_isFirst (hforest : s.Forest [t]) (h : IsFirst t target first) :
    t.pathTo target.id = some first := by
  obtain ⟨found, hpath, hfound⟩ := exists_first hforest h.descend_eq
  have hle : found ≤ first := not_lt.mp (hfound.least first h.descend_eq)
  have hge : first ≤ found := not_lt.mp (h.least found hfound.descend_eq)
  rw [hpath, le_antisymm hle hge]

omit [Scalar α] in
/-- The donors are the statements of the region. -/
theorem Region.donors_eq {scope : DonorScope} {region : Node} (hforest : s.Forest [t])
    (h : Region t target scope region) : donors t target scope = region.statements := by
  cases h with
  | program => rfl
  | @unit first _ hfirst hunit =>
    have hfound : t.unitAround target = some region :=
      Node.unitAround_eq_some_iff.mpr ⟨first, pathTo_of_isFirst hforest hfirst, hunit⟩
    unfold donors
    rw [hfound]
  | @unhoused first hfirst hnone =>
    have hfound : t.unitAround target = none := by
      refine Option.eq_none_iff_forall_ne_some.mpr fun unit hunit => ?_
      obtain ⟨path, hpath, hunit⟩ := Node.unitAround_eq_some_iff.mp hunit
      obtain rfl := Option.some.inj ((pathTo_of_isFirst hforest hfirst).symm.trans hpath)
      exact hnone unit hunit
    unfold donors
    rw [hfound]

omit [Scalar α] in
theorem exists_region (h : IsFirst t target first) (scope : DonorScope) :
    ∃ region, Region t target scope region := by
  cases scope with
  | program => exact ⟨t, .program⟩
  | sameUnit =>
    by_cases hunit : ∃ unit, t.InnermostUnit first unit
    · obtain ⟨unit, hunit⟩ := hunit
      exact ⟨unit, .unit h hunit⟩
    · exact ⟨t, .unhoused h (not_exists.mp hunit)⟩

/-! ## Refusals -/

/-- Why an operator is refused at a target. -/
inductive Refused (t target : Node) (scope : DonorScope) : Operator → MutationError → Prop where
  | missing {operator : Operator} (hout : target ∉ t.preorder) :
      Refused t target scope operator .targetMissing
  | root {operator : Operator} (hroot : target = t) :
      Refused t target scope operator .targetIsRoot
  | barren {region : Node} (hin : target ∈ t.preorder) (hne : target ≠ t)
      (hregion : Region t target scope region)
      (hnone : ∀ m ∈ region.preorder, m.kind ≠ .atomicStatement) :
      Refused t target scope .insertBefore .noDonor

/-- What an operator that is not refused answers, and what it makes of the program. -/
inductive Performed (t target : Node) (scope : DonorScope) (rng : WordStream) (s : Store α) :
    Operator → (Except MutationError (Node × String) × WordStream) × Store α → Prop where
  | removed {above : ChildPath} {index : Nat} {t' : Node} {s' : Store α}
      (hfirst : IsFirst t target (above ++ [index]))
      (hedited : EditedAt above [.remove index] s s' t t' [.ok (some target)])
      (hchildren : t'.childrenAt above = (t.childrenAt above).eraseIdx index) :
      Performed t target scope rng s .delete ((.ok (t', "delete " ++ describe target), rng), s')
  | inserted {above : ChildPath} {index : Nat} {region donor inserted t' : Node}
      {mid s' : Store α} (hfirst : IsFirst t target (above ++ [index]))
      (hregion : Region t target scope region)
      (hdonor : region.statements[(rng.below region.statements.length).1]? = some donor)
      (hcopied : s.Extends mid) (hnew : s.next ≤ inserted.id)
      (hcontent : inserted.sameContent donor = true)
      (hsuspicion : s'.suspicion inserted = s.suspicion target)
      (hedited : EditedAt above [.insert index inserted] mid s' t t' [.ok none])
      (hchildren : t'.childrenAt above = (t.childrenAt above).insertIdx index inserted)
      (hinserted : t'.descend (above ++ [index]) = some inserted)
      (hnext : t'.descend (above ++ [index + 1]) = some target) :
      Performed t target scope rng s .insertBefore
        ((.ok (t', "insert " ++ describe donor ++ " before " ++ describe target),
          (rng.below region.statements.length).2), s')

section

variable {scope : DonorScope} {operator : Operator} {rng : WordStream}

/-- An operator that is refused says why, takes no word and makes no node. -/
theorem apply_of_refused {e : MutationError} (hforest : s.Forest [t, target])
    (hoperator : operator ≠ .swap) (h : Refused t target scope operator e) :
    apply operator t target scope rng s = ((.error e, rng), s) := by
  have hself : s.Forest [t] := hforest.subset (by simp)
  have hid : ∀ m ∈ t.preorder, m.id = target.id → m = target := fun m hm =>
    hforest.eq_program ⟨t, by simp, hm⟩ (by simp)
  cases h with
  | missing hout =>
    have hpath : t.pathTo target.id = none := (Node.pathTo_eq_none_iff hid).mpr fun p hp =>
      hout (Node.mem_preorder_of_descend hp)
    refine apply_of_slotOf_error ?_ hoperator rng scope
    unfold slotOf
    rw [hpath]
  | root hroot =>
    exact apply_of_root ((Node.pathTo_eq_nil_iff hid).mpr hroot.symm) hoperator rng scope
  | @barren region hin hne hregion hnone =>
    obtain ⟨p, hp⟩ := Node.exists_descend_of_mem_preorder hin
    obtain ⟨first, hpath, hfirst⟩ := exists_first hself hp
    have hempty : donors t target scope = [] := by
      rw [hregion.donors_eq hself]
      exact List.filter_eq_nil_iff.mpr fun m hm => by simpa using hnone m hm
    have hbelow : p ≠ [] := by
      rintro rfl
      exact hne (Option.some.inj hp).symm
    obtain ⟨above, index, rfl⟩ := exists_concat hbelow hfirst hp
    unfold apply insertBefore
    simp only [slotOf_concat hpath, hempty]
    rfl

/-- The copy of a donor has the suspicion of the target, also when the edit is over. -/
theorem suspicion_inserted {donor : Node} {s' : Store α} (hgraded : s.Graded)
    (htarget : target.id < s.next) (hgrown : (transplant donor target s).2.Extends s') :
    s'.suspicion (transplant donor target s).1 = s.suspicion target := by
  obtain ⟨hcopy, -, hsize, -⟩ := transplant_spec donor target s
  have hid : (transplant donor target s).1.id = s.next := by rw [hcopy, Node.id_withId]
  have hkept := hgrown.mark_eq s.next (hsize ▸ Nat.lt_succ_self s.next)
  rw [Store.suspicion, hid, hkept, suspicion_transplant donor htarget]
  split
  · rfl
  · next hzero => exact ((hgraded target.id htarget).resolve_right hzero).symm

theorem performed_delete {above : ChildPath} {index : Nat} (hforest : s.Forest [t])
    (hfirst : IsFirst t target (above ++ [index])) :
    Performed t target scope rng s .delete (apply .delete t target scope rng s) := by
  obtain ⟨parent, hparent, hchild⟩ := Node.exists_parent hfirst.descend_eq
  have hpayload := Node.payload_of_mem_children (List.mem_of_getElem? hchild)
  obtain ⟨t', s', happlied, hslot⟩ := delete_of_pathTo (hforest.holds t (List.mem_singleton_self t))
    (pathTo_of_isFirst hforest hfirst) hfirst.descend_eq rng scope
  obtain ⟨out, hedited⟩ := hslot.editedAt
  have hout := (hedited.answered hparent).2.1
  rw [hpayload] at hout
  obtain rfl : out = some target := hout.trans hchild
  rw [happlied]
  refine .removed hfirst hedited ?_
  rw [Node.childrenAt_of_descend hparent]
  exact hedited.childrenAt_eq hparent (by rw [hpayload]; rfl)

theorem performed_insertBefore {above : ChildPath} {index : Nat} {region : Node}
    (hforest : s.Forest [t]) (hgraded : s.Graded) (hfirst : IsFirst t target (above ++ [index]))
    (hregion : Region t target scope region) (hpool : 0 < region.statements.length) :
    Performed t target scope rng s .insertBefore (apply .insertBefore t target scope rng s) := by
  have hs : s.Holds t := hforest.holds t (List.mem_singleton_self t)
  have hdonors := hregion.donors_eq hforest
  obtain ⟨donor, hdonor⟩ : ∃ donor, region.statements[(rng.below region.statements.length).1]? =
      some donor := ⟨_, List.getElem?_eq_getElem (WordStream.below_lt hpool rng)⟩
  obtain ⟨parent, hparent, hchild⟩ := Node.exists_parent hfirst.descend_eq
  have hpayload := Node.payload_of_mem_children (List.mem_of_getElem? hchild)
  have hindex : index < parent.children.length := (List.getElem?_eq_some_iff.mp hchild).1
  obtain ⟨t', s', happlied, hslot⟩ := insertBefore_of_donor hs (pathTo_of_isFirst hforest hfirst)
    hfirst.descend_eq (hdonors ▸ hdonor)
  rw [hdonors] at happlied
  obtain ⟨hcopy, hgrown, -, -⟩ := transplant_spec donor target s
  obtain ⟨out, hedited⟩ := hslot.editedAt
  obtain rfl : out = none := (hedited.answered hparent).2.1
  have hafter : t'.childrenAt above =
      parent.children.insertIdx index (transplant donor target s).1 :=
    hedited.childrenAt_eq hparent (by rw [hpayload]; rfl)
  rw [happlied]
  refine .inserted hfirst hregion hdonor hgrown ?_ ?_ ?_ hedited ?_ ?_ ?_
  · rw [hcopy, Node.id_withId]
  · rw [hcopy]
    exact Node.sameContent_withId donor s.next
  · exact suspicion_inserted hgraded
      (hs target (Node.mem_preorder_of_descend hfirst.descend_eq)) hedited.grown
  · rw [Node.childrenAt_of_descend hparent, hafter]
  · rw [Node.descend_append_cons, hafter, List.getElem?_insertIdx_self, if_pos hindex.le]
    rfl
  · rw [Node.descend_append_cons, hafter, List.getElem?_insertIdx_of_gt (Nat.lt_add_one index),
      Nat.add_sub_cancel, hchild]
    rfl

/-- An operator that nothing speaks against does what it is to do. -/
theorem apply_performed (hforest : s.Forest [t, target]) (hgraded : s.Graded)
    (hoperator : operator ≠ .swap) (h : ∀ e, ¬ Refused t target scope operator e) :
    Performed t target scope rng s operator (apply operator t target scope rng s) := by
  have hself : s.Forest [t] := hforest.subset (by simp)
  have hin : target ∈ t.preorder := by_contra fun hout => h _ (.missing hout)
  have hne : target ≠ t := fun hroot => h _ (.root hroot)
  obtain ⟨p, hp⟩ := Node.exists_descend_of_mem_preorder hin
  obtain ⟨first, -, hfirst⟩ := exists_first hself hp
  have hbelow : p ≠ [] := by
    rintro rfl
    exact hne (Option.some.inj hp).symm
  obtain ⟨above, index, rfl⟩ := exists_concat hbelow hfirst hp
  cases operator with
  | swap => exact absurd rfl hoperator
  | delete => exact performed_delete hself hfirst
  | insertBefore =>
    obtain ⟨region, hregion⟩ := exists_region hfirst scope
    refine performed_insertBefore hself hgraded hfirst hregion (List.length_pos_iff.mpr ?_)
    intro hempty
    refine h _ (.barren hin hne hregion fun m hm => ?_)
    simpa using List.filter_eq_nil_iff.mp hempty m hm

/-- An operator is refused for these reasons and for no other. -/
theorem apply_error_iff {e : MutationError} (hforest : s.Forest [t, target])
    (hgraded : s.Graded) (hoperator : operator ≠ .swap) :
    (apply operator t target scope rng s).1.1 = .error e ↔
      Refused t target scope operator e := by
  constructor
  · intro herror
    by_cases h : ∃ e', Refused t target scope operator e'
    · obtain ⟨e', h⟩ := h
      rw [apply_of_refused hforest hoperator h] at herror
      exact Except.error.inj herror ▸ h
    · have hperformed : Performed t target scope rng s operator
          (apply operator t target scope rng s) :=
        apply_performed hforest hgraded hoperator (not_exists.mp h)
      generalize apply operator t target scope rng s = applied at herror hperformed
      cases hperformed with
      | removed => cases herror
      | inserted => cases herror
  · intro h
    rw [apply_of_refused hforest hoperator h]

/-- Other words that choose the same donor make no difference. -/
theorem apply_of_choice {rng' : WordStream}
    (h : (rng'.below (donors t target scope).length).1 =
      (rng.below (donors t target scope).length).1) :
    (apply operator t target scope rng' s).1.1 = (apply operator t target scope rng s).1.1 ∧
      (apply operator t target scope rng' s).2 = (apply operator t target scope rng s).2 := by
  cases operator with
  | swap => exact ⟨rfl, rfl⟩
  | delete => exact ⟨rfl, rfl⟩
  | insertBefore =>
    unfold apply insertBefore
    cases slotOf t target with
    | error e => exact ⟨rfl, rfl⟩
    | ok slot =>
      simp only [h]
      cases (donors t target scope)[(rng.below (donors t target scope).length).1]? with
      | none => exact ⟨rfl, rfl⟩
      | some donor => exact ⟨rfl, rfl⟩

omit [Scalar α] in
/-- A statement is a donor for itself, so all that can be wrong with one of the program is that it is
the program. -/
theorem Refused.eq_root {e : MutationError} (h : Refused t target scope operator e)
    (hforest : s.Forest [t]) (hin : target ∈ t.preorder) (hkind : target.kind = .atomicStatement) :
    e = .targetIsRoot ∧ target = t := by
  cases h with
  | missing hout => exact absurd hin hout
  | root hroot => exact ⟨rfl, hroot⟩
  | @barren region _ _ hregion hnone =>
    obtain ⟨p, hp⟩ := Node.exists_descend_of_mem_preorder hin
    obtain ⟨first, hpath, hfirst⟩ := exists_first hforest hp
    have hdonor := target_mem_donors hpath hfirst.descend_eq hkind scope
    rw [hregion.donors_eq hforest] at hdonor
    exact absurd hkind (hnone target (List.mem_filter.mp hdonor).1)

/-- A mutation that is refused has drawn the root. -/
theorem mutate_refused_iff {operators : List Operator} {e : MutationError}
    (hforest : s.Forest [t]) (hgraded : s.Graded) (hswap : .swap ∉ operators) :
    (mutate t operators scope rng s).1.1 = .refused operator e ↔
      e = .targetIsRoot ∧ ∃ index rest, Draws s t operators rng index t operator rest := by
  have hoperator {index : Nat} {target : Node} {operator : Operator} {rest : WordStream}
      (h : Draws s t operators rng index target operator rest) : operator ≠ .swap := by
    rintro rfl
    obtain ⟨mid, choice, -, -, hchoice⟩ := h.drawn
    exact hswap (List.mem_of_getElem? hchoice)
  constructor
  · intro hrefused
    obtain ⟨rest, hsame⟩ | ⟨index, target, drawn, rest, hdraws⟩ :=
      mutate_unchanged_or_draws t operators scope rng s
    · rw [hsame] at hrefused
      cases hrefused
    · rw [mutate_of_draws hdraws scope] at hrefused
      obtain ⟨rfl, herror⟩ := eq_error_of_resultOf hrefused
      obtain ⟨hin, hsuspect⟩ := List.mem_filter.mp (List.mem_of_getElem? hdraws.target_at)
      have hkind : target.kind = .atomicStatement := by
        rw [Store.isSuspect, Bool.and_eq_true, decide_eq_true_eq] at hsuspect
        exact hsuspect.1
      have hboth : s.Forest [t, target] := hforest.of_hasNode fun n hn m hm => by
        obtain rfl | rfl := by simpa using hn
        · exact ⟨n, List.mem_singleton_self n, hm⟩
        · exact ⟨t, List.mem_singleton_self t, Node.mem_preorder_trans hm hin⟩
      obtain ⟨rfl, rfl⟩ := ((apply_error_iff hboth hgraded (hoperator hdraws)).mp herror).eq_root
        hforest hin hkind
      exact ⟨rfl, index, rest, hdraws⟩
  · rintro ⟨rfl, index, rest, hdraws⟩
    have hid : ∀ m ∈ t.preorder, m.id = t.id → m = t := fun m hm =>
      hforest.eq_program ⟨t, by simp, hm⟩ (by simp)
    rw [mutate_of_draws hdraws scope,
      apply_of_root ((Node.pathTo_eq_nil_iff hid).mpr rfl) (hoperator hdraws)]
    rfl

end

/-- An operator is refused exactly if its target is not part of the program, is the program, or has
no statement to be copied around it, and then nothing is drawn or made. Otherwise it changes one
list of children, at the least place of its target, and the words only choose the donor. A mutation
is refused only if it has drawn the root. -/
theorem apply_exact (hforest : s.Forest [t, target]) (hgraded : s.Graded) (scope : DonorScope)
    (rng : WordStream) :
    (∀ operator, operator ≠ .swap →
      (∀ e, (apply operator t target scope rng s).1.1 = .error e ↔
        Refused t target scope operator e) ∧
      (∀ e, Refused t target scope operator e →
        apply operator t target scope rng s = ((.error e, rng), s)) ∧
      ((∀ e, ¬ Refused t target scope operator e) →
        Performed t target scope rng s operator (apply operator t target scope rng s)) ∧
      ∀ region rng', Region t target scope region →
        (rng'.below region.statements.length).1 = (rng.below region.statements.length).1 →
        (apply operator t target scope rng' s).1.1 = (apply operator t target scope rng s).1.1 ∧
        (apply operator t target scope rng' s).2 = (apply operator t target scope rng s).2) ∧
    ∀ operators, .swap ∉ operators → ∀ operator e,
      (mutate t operators scope rng s).1.1 = .refused operator e ↔
        e = .targetIsRoot ∧ ∃ index rest, Draws s t operators rng index t operator rest := by
  have hself : s.Forest [t] := hforest.subset (by simp)
  refine ⟨fun operator hoperator => ⟨fun e => apply_error_iff hforest hgraded hoperator,
    fun e => apply_of_refused hforest hoperator, apply_performed hforest hgraded hoperator,
    fun region rng' hregion hchoice => ?_⟩, fun operators hswap operator e =>
    mutate_refused_iff hself hgraded hswap⟩
  rw [← hregion.donors_eq hself] at hchoice
  exact apply_of_choice hchoice

namespace TwoFiles

open Refrain (check log)

/-- Two files that share a statement; the other one is suspicious. -/
def program : Node := .make 6 .other [.make 4 .file [check], .make 5 .file [log, check]]

def marks : Store Rat := ⟨#[.fresh [], .fresh [], .fresh [], ⟨1, none, []⟩, .fresh [], .fresh [],
  .fresh []]⟩

theorem forest_program : marks.Forest [program, log] := by
  refine .of_nodes [program, .make 4 .file [check], check, .leaf 0 "check" ⟨1, 1⟩,
    .make 5 .file [log, check], log, .leaf 2 "log" ⟨2, 1⟩] (by decide) (by decide) ?_
  have hprogram : program.preorder = [program, .make 4 .file [check], check,
    .leaf 0 "check" ⟨1, 1⟩, .make 5 .file [log, check], log, .leaf 2 "log" ⟨2, 1⟩, check,
    .leaf 0 "check" ⟨1, 1⟩] := rfl
  have hlog : log.preorder = [log, .leaf 2 "log" ⟨2, 1⟩] := rfl
  intro t ht
  obtain rfl | rfl := by simpa using ht
  · rw [hprogram]
    simp
  · rw [hlog]
    simp

/-- A word that chooses the second one of two donors. -/
def words : WordStream := .ofList [0x80000000]

end TwoFiles

open Refrain (check log) in
open TwoFiles in
/-- The statement of its own file that is drawn is copied in front of the suspicious one. -/
theorem apply_exact_twoFiles : marks.Forest [program, log] ∧ marks.Graded ∧
    (∀ e, ¬ Refused program log .sameUnit .insertBefore e) ∧
    Performed program log .sameUnit words marks .insertBefore
      (apply .insertBefore program log .sameUnit words marks) ∧
    (apply .insertBefore program log .sameUnit words marks).1.1.toOption.map (·.2) =
      some "insert `check` (line 1) before `log` (line 2)" := by
  have hgraded : marks.Graded := by decide
  obtain ⟨hiff, -, hperformed, -⟩ :=
    (apply_exact forest_program hgraded .sameUnit words).1 .insertBefore (by decide)
  have hmade : (apply .insertBefore program log .sameUnit words marks).1.1.toOption.map (·.2) =
      some "insert `check` (line 1) before `log` (line 2)" := by
    decide +kernel
  have hfits : ∀ e, ¬ Refused program log .sameUnit .insertBefore e := by
    intro e h
    rw [(hiff e).mpr h] at hmade
    cases hmade
  exact ⟨forest_program, hgraded, hfits, hperformed hfits, hmade⟩

end Mutation

end GeneticRepair
