import GeneticRepair.Proofs.Syntax.Mirroring
import GeneticRepair.Suspicion.Localization

/-!
# `Proofs/Suspicion/Aligned.lean` — localizing faults side by side

A localization pass finds declarations by the names that nodes carry and statements by their lines,
and it writes to the marks of what it finds. Given the same results and the same coverage, passes
over two programs that are alike find corresponding nodes, keep the stores aligned and report the
same (`Localization.localize_aligned`). No node is made, so the pairing stays as it is.
-/

set_option autoImplicit false

namespace GeneticRepair

open List (Forall₂)
open Node (Alike)

variable {α : Type} [Scalar α] {p : Pairing} {s s' : Store α} {root root' : Node}

/-! ## Rankings -/

theorem forall₂_ranked {β γ : Type} {R : β → γ → Prop} {score : β → α} {score' : γ → α}
    {l : List β} {m : List γ} (h : Forall₂ R l m) (hscore : ∀ x y, R x y → score' y = score x) :
    Forall₂ R (ranked score l) (ranked score' m) := by
  refine List.rel_foldr (fun x y hxy l m hlm => ?_) .nil h
  induction hlm with
  | nil => exact .cons hxy .nil
  | cons hhead htail ih =>
    unfold rankInto
    rw [hscore _ _ hxy, hscore _ _ hhead]
    split
    · exact .cons hxy (.cons hhead htail)
    · exact .cons hhead ih

/-! ## Declarations and statements -/

/-- Declarations that correspond. -/
structure ClassMatch.Alike (p : Pairing) (m m' : ClassMatch) : Prop where
  unit : Node.Alike p m.unit m'.unit
  declaration : Node.Alike p m.declaration m'.declaration

theorem Pairing.Aligns.resolveClass (hs : p.Aligns s s') (h : Alike p root root')
    (name : String) :
    Option.Rel (ClassMatch.Alike p) (s.resolveClass root name) (s'.resolveClass root' name) := by
  have hdeclarations : Forall₂ (ClassMatch.Alike p) (Store.declarations root)
      (Store.declarations root') :=
    forall₂_flatMap h.units fun u u' hu =>
      List.rel_map (fun d d' hd => ⟨hu, hd⟩) (hu.ofKind .typeDeclaration)
  exact rel_or
    (find?_rel hdeclarations fun _ _ hm => by rw [hs.attribute_eq hm.declaration])
    (find?_rel hdeclarations fun _ _ hm => by rw [hs.attribute_eq hm.declaration])

namespace Localization

/-- Whether a node lies inside another one is the same on both sides. -/
theorem forall₂_innermost {matched matched' : List Node} (h : Forall₂ (Alike p) matched matched') :
    Forall₂ (Alike p) (innermost matched) (innermost matched') := by
  refine forall₂_filter h fun outer outer' houter => congrArg not ?_
  refine any_eq_of_forall₂ h fun inner inner' hinner => ?_
  have hinside : outer'.preorder.any (·.id = inner'.id) = outer.preorder.any (·.id = inner.id) :=
    any_eq_of_forall₂ houter.preorder fun m m' hm => by
      simp only [Pairing.eq_iff_eq hm.id hinner.id]
  simp only [hinside, ne_eq, Pairing.eq_iff_eq houter.id hinner.id]

theorem forall₂_statementsOn (h : Alike p root root') (line : Nat) :
    Forall₂ (Alike p) (statementsOn root line) (statementsOn root' line) :=
  forall₂_innermost (forall₂_filter h.statements fun _ _ hm => hm.coversLine_eq line)

/-- Writing to nodes that correspond, one after the other, keeps stores aligned. -/
theorem aligns_foldl (hs : p.Aligns s s') {ns ns' : List Node} (hns : Forall₂ (Alike p) ns ns')
    (write : Store α → Node → Store α) (f : Mark α → Mark α)
    (hwrite : ∀ (s : Store α) (n : Node), write s n = s.update n.id f) :
    p.Aligns (ns.foldl write s) (ns'.foldl write s') := by
  refine List.rel_foldl (fun s s' hs n n' hn => ?_) hs hns
  rw [hwrite, hwrite]
  exact hs.update hn.id f

/-! ## The passes -/

/-- Scored lines so far that are the same, on aligned stores. -/
structure Scoring.Alike (p : Pairing) (r r' : Scoring α) : Prop where
  store : p.Aligns r.store r'.store
  lines_eq : r'.lines = r.lines
  unknown_eq : r'.unknown = r.unknown

theorem alike_scoreLine [Root α] (h : Alike p root root') {r r' : Scoring α}
    (hr : Scoring.Alike p r r') (line : CodeLine × Spectrum) :
    Scoring.Alike p (scoreLine root r line) (scoreLine root' r' line) := by
  obtain ⟨location, counts⟩ := line
  unfold scoreLine
  simp only []
  split
  · exact hr
  · have hfound := hr.store.resolveClass h location.className
    generalize r.store.resolveClass root location.className = found at hfound
    generalize r'.store.resolveClass root' location.className = found' at hfound
    cases hfound with
    | none => exact ⟨hr.store, hr.lines_eq, by rw [hr.unknown_eq]⟩
    | some hm =>
      have hmatched := forall₂_statementsOn hm.declaration location.line
      refine ⟨aligns_foldl hr.store hmatched _ _ fun _ _ => rfl, ?_, hr.unknown_eq⟩
      simp only [hr.lines_eq, hmatched.length_eq]

theorem alike_scoreLines [Root α] (h : Alike p root root') (hs : p.Aligns s s')
    (lines : List (CodeLine × Spectrum)) :
    Scoring.Alike p (scoreLines root s lines) (scoreLines root' s' lines) := by
  have hstart : Scoring.Alike p (⟨s, [], ∅⟩ : Scoring α) ⟨s', [], ∅⟩ := ⟨hs, rfl, rfl⟩
  unfold scoreLines
  generalize (⟨s, [], ∅⟩ : Scoring α) = r at hstart
  generalize (⟨s', [], ∅⟩ : Scoring α) = r' at hstart
  induction lines generalizing r r' with
  | nil => exact hstart
  | cons line lines ih => exact ih _ _ (alike_scoreLine h hstart line)

theorem aligns_coverUnits (h : Alike p root root') (hs : p.Aligns s s') (test : CoveredTest) :
    p.Aligns (coverUnits root s test) (coverUnits root' s' test) := by
  unfold coverUnits
  induction (touchedClasses test.lines).toList generalizing s s' with
  | nil => exact hs
  | cons className classes ih =>
    refine ih ?_
    simp only []
    have hfound := hs.resolveClass h className
    generalize s.resolveClass root className = found at hfound
    generalize s'.resolveClass root' className = found' at hfound
    cases hfound with
    | none => exact hs
    | some hm => exact hs.update hm.unit.id _

theorem aligns_recordCoverage (h : Alike p root root') (hs : p.Aligns s s')
    (tests : List CoveredTest) :
    p.Aligns (recordCoverage root s tests) (recordCoverage root' s' tests) := by
  have hunits : p.Aligns (root.units.foldl (fun s u => s.cover u []) s)
      (root'.units.foldl (fun s u => s.cover u []) s') :=
    aligns_foldl hs h.units _ _ fun _ _ => rfl
  unfold recordCoverage
  generalize root.units.foldl (fun s u => s.cover u []) s = t at hunits
  generalize root'.units.foldl (fun s u => s.cover u []) s' = t' at hunits
  induction tests generalizing t t' with
  | nil => exact hunits
  | cons test tests ih => exact ih _ _ (aligns_coverUnits h hunits test)

/-- What is too low, and what does not fit under the limit, is cleared on both sides. -/
theorem clearLow_aligned (policy : SuspicionPolicy α) (h : Alike p root root')
    (hs : p.Aligns s s') :
    (clearLow policy root' s').1 = (clearLow policy root s).1 ∧
      p.Aligns (clearLow policy root s).2 (clearLow policy root' s').2 := by
  have hsuspects := hs.suspects h
  have hlow : Forall₂ (Alike p)
      ((s.suspects root).filter fun n => s.suspicion n < policy.threshold)
      ((s'.suspects root').filter fun n => s'.suspicion n < policy.threshold) :=
    forall₂_filter hsuspects fun _ _ hm => by rw [hs.suspicion_eq hm]
  have hhigh : Forall₂ (Alike p)
      ((s.suspects root).filter fun n => !(s.suspicion n < policy.threshold))
      ((s'.suspects root').filter fun n => !(s'.suspicion n < policy.threshold)) :=
    forall₂_filter hsuspects fun _ _ hm => by rw [hs.suspicion_eq hm]
  have hcleared := aligns_foldl hs hlow Store.clear _ fun _ _ => rfl
  -- ranked by the marks that are left after the low ones have been cleared
  have hranked := forall₂_ranked hhigh fun _ _ hm => hcleared.suspicion_eq hm
  unfold clearLow
  simp only []
  rw [← hhigh.length_eq]
  cases policy.limit with
  | none => exact ⟨rfl, hcleared⟩
  | some limit =>
    simp only []
    split
    · exact ⟨rfl, aligns_foldl hcleared (List.forall₂_drop limit hranked) _ _ fun _ _ => rfl⟩
    · exact ⟨rfl, hcleared⟩

/-- Two passes side by side report the same and keep the stores aligned. -/
theorem localize_aligned [Root α] (policy : SuspicionPolicy α) (h : Alike p root root')
    (results : List TestResult) (coverage : Coverage) (hs : p.Aligns s s') :
    (localize policy root' results coverage s').1 = (localize policy root results coverage s).1 ∧
      p.Aligns (localize policy root results coverage s).2
        (localize policy root' results coverage s').2 := by
  obtain ⟨hscored, hlines, hunknown⟩ := alike_scoreLines h hs (spectra results coverage)
  have hrecorded := aligns_recordCoverage h hscored (covered (outcomes results) coverage)
  obtain ⟨hkept, hcleared⟩ := clearLow_aligned policy h hrecorded
  unfold localize
  simp only [hlines, hunknown, hkept]
  exact ⟨trivial, hcleared⟩

end Localization

end GeneticRepair
