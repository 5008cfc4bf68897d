import GeneticRepair.Proofs.Evolution.Descent
import GeneticRepair.Proofs.Suspicion.Covering
import GeneticRepair.Syntax.Draft

/-!
# `Proofs/Evolution/Provenance.lean` — nothing in a version is made up

After any number of mutations and crossovers every token, every mark and every name in a version is
one of the program that all of it started from. Tokens are never copied, so a leaf of a version is a
leaf of the program. Suspicion is overwritten when a statement is inserted, but by that of another
node of a version, which goes back to the program as well; only clearing the copy before could bring
in a zero of its own, and it would if suspicion could be below zero or undefined. No store that the
library makes has such a mark (`Store.Graded`).

* `Lineage.provenance`: what each node of each version has from where.
-/

set_option autoImplicit false

namespace GeneticRepair

open Store (HasNode)

variable {α : Type} [Scalar α]

/-! ## Suspicion that has been raised from zero -/

/-- The suspicion is zero or above. -/
def Mark.Graded (m : Mark α) : Prop := m.suspicion = 0 ∨ 0 < m.suspicion

instance [DecidableEq α] (m : Mark α) : Decidable m.Graded :=
  inferInstanceAs (Decidable (_ ∨ _))

theorem Mark.graded_fresh (attributes : Attributes) : (fresh attributes : Mark α).Graded := .inl rfl

theorem Mark.Graded.raise (htrans : ∀ x y z : α, x < y → y < z → x < z) {m : Mark α}
    (h : m.Graded) (score : α) : (m.raise score).Graded := by
  unfold Mark.raise
  split
  · next hlt => exact .inr (h.elim (fun hzero => hzero ▸ hlt) (htrans _ _ _ · hlt))
  · exact h

namespace Store

/-- No suspicion in the store is below zero or undefined. -/
def Graded (s : Store α) : Prop := ∀ id < s.next, (s.mark id).Graded

instance [DecidableEq α] (s : Store α) : Decidable s.Graded :=
  inferInstanceAs (Decidable (∀ id < s.next, _))

namespace Graded

variable {s : Store α}

theorem empty : (empty : Store α).Graded := nofun

theorem allocate (h : s.Graded) {m : Mark α} (hm : m.Graded) : (s.allocate m).2.Graded := by
  intro id hid
  rw [next_allocate] at hid
  rw [mark_allocate]
  split
  · exact hm
  · next hne => exact h id (Nat.lt_of_le_of_ne (Nat.le_of_lt_succ hid) hne)

theorem update (h : s.Graded) (id : NodeId) {f : Mark α → Mark α}
    (hf : ∀ m : Mark α, m.Graded → (f m).Graded) : (s.update id f).Graded := by
  intro x hx
  rw [next_update] at hx
  rw [mark_update]
  split
  · exact hf _ (h x hx)
  · exact h x hx

end Graded

/-- A localization keeps suspicion at zero or above. -/
theorem writes_graded (htrans : ∀ x y z : α, x < y → y < z → x < z) (root : Node) :
    Localization.Writes root fun s s' : Store α => s.Graded → s'.Graded where
  refl _ h := h
  trans h h' hs := h' (h hs)
  raise _ n score _ h := h.update n.id fun _ hm => hm.raise htrans score
  clear _ n _ h := h.update n.id fun _ _ => .inl rfl
  cover _ n _ _ h := h.update n.id fun _ hm => hm

end Store

mutual

theorem Draft.graded_build : (d : Draft) → ∀ {s : Store α}, s.Graded → (d.build s).2.Graded
  | .leaf _ _ attributes, _, h => h.allocate (Mark.graded_fresh attributes)
  | .inner _ attributes children, _, h =>
    (graded_buildAll children h).allocate (Mark.graded_fresh attributes)
  | .existing node attributes, _, h =>
    List.foldlRecOn (motive := Store.Graded) attributes _ h fun _ h _ _ =>
      h.update node.id fun _ hm => hm

theorem Draft.graded_buildAll :
    (ds : List Draft) → ∀ {s : Store α}, s.Graded → (Draft.buildAll ds s).2.Graded
  | [], _, h => h
  | d :: ds, _, h => graded_buildAll ds (graded_build d h)

end

/-- Whatever is built from a draft and localized has no suspicion below zero. -/
theorem Draft.graded_localize [Root α] (htrans : ∀ x y z : α, x < y → y < z → x < z) (d : Draft)
    (policy : SuspicionPolicy α) (results : List TestResult) (coverage : Coverage) {s : Store α}
    (h : s.Graded) :
    (Localization.localize policy (d.build s).1 results coverage (d.build s).2).2.Graded :=
  (Store.writes_graded htrans _).localize policy results coverage _ (d.graded_build h)

/-! ## Tokens and suspicion of a version -/

/-- A leaf is one of a program, and a suspicion is that of a node of the program. -/
structure Native (base : Store α) (root : Node) (s : Store α) (m : Node) : Prop where
  leaf : m.isLeaf = true → m ∈ root.preorder
  suspicion : ∃ w ∈ root.preorder, s.suspicion m = base.suspicion w

theorem Comes.native {base s s' : Store α} {root m : Node} {sources : List Node}
    (h : Comes sources s s' m) (hroot : base.Holds root) (hgraded : base.Graded)
    (hsources : ∀ n, HasNode sources n → Native base root s n) : Native base root s' m := by
  cases h with
  | @taken was hwas _ hleaf _ hmark =>
    obtain ⟨hleaf', w, hw, hsuspicion⟩ := hsources was hwas
    refine ⟨fun h => ?_, w, hw, (congrArg Mark.suspicion hmark).trans hsuspicion⟩
    obtain rfl := hleaf h
    exact hleaf' h
  | @inserted donor place _ hplace _ hinner _ _ _ hsuspicion =>
    obtain ⟨-, w, hw, hw'⟩ := hsources place hplace
    refine ⟨fun h => absurd h (Bool.eq_false_iff.mp hinner), w, hw, ?_⟩
    rw [hsuspicion, hw']
    -- the suspicion of the place is taken over, be it zero or above
    obtain hzero | hpos := hgraded w.id (hroot w hw)
    · rw [Store.suspicion, hzero]
      exact ite_self 0
    · exact if_pos hpos

/-- Every node of every version has its kind, its attributes and its covering classes from one node
of the program and its suspicion from one. A source file has its name from a source file of the
program, with the covering classes of that file, and a leaf is a leaf of the program. -/
theorem Lineage.provenance {base s : Store α} {root : Node} {versions : List Node}
    (h : Lineage base root s versions) (hroot : base.Holds root) (hgraded : base.Graded) :
    ∀ t ∈ versions, ∀ m ∈ t.preorder,
      (∃ w ∈ root.preorder, m.kind = w.kind ∧
        (s.mark m.id).attributes = (base.mark w.id).attributes ∧
        s.coveredBy m = base.coveredBy w) ∧
      (m.kind = .file → ∃ u ∈ root.units,
        s.attribute? m Attributes.fileName = base.attribute? u Attributes.fileName ∧
        s.coveredBy m = base.coveredBy u) ∧
      (m.isLeaf = true → m ∈ root.preorder) ∧
      ∃ w ∈ root.preorder, s.suspicion m = base.suspicion w := by
  obtain ⟨-, hnative⟩ := h.inherits hroot (P := Native base root)
    (fun m hm => ⟨fun _ => hm, m, hm, rfl⟩) fun _ _ _ _ hsources h => h.native hroot hgraded hsources
  intro t ht m hm
  obtain ⟨w, hw, hkind, hattributes, hcovered⟩ := ((h.descends hroot ht).traced m hm).origin
  obtain ⟨hleaf, hsuspicion⟩ := (hnative t ht).2.2 m hm
  refine ⟨⟨w, hw, hkind, hattributes, hcovered⟩, fun hfile => ⟨w, ?_, ?_, hcovered⟩, hleaf,
    hsuspicion⟩
  · exact List.mem_filter.mpr ⟨hw, decide_eq_true (hkind.symm.trans hfile)⟩
  · unfold Store.attribute?
    rw [hattributes]

/-! ## Two methods -/

namespace TwoMethods

open Crossover.TwoMethods

/-- The program with a copy of its first statement in the second method. -/
def extended : Node :=
  .make 13 .file [.make 6 .method [opening, writing],
    .make 14 .method [opening.withId 12, closing]]

/-- The marks after the insertion. -/
def extendedMarks : Store Rat :=
  (Mutation.apply .insertBefore program closing .program (.ofList [0]) marks).2

theorem offspring_insertBefore :
    Mutation.offspring
      (Mutation.apply .insertBefore program closing .program (.ofList [0]) marks).1.1 =
        [extended] := rfl

theorem length_offspring_cross : (Crossover.offspring
    (Crossover.cross program extended (.ofList [0x80000000]) extendedMarks).1.1).length = 2 := by
  rfl

/-- A statement is inserted into the program, and the program is crossed with what comes out. -/
theorem provenance_crossed :
    ∃ s versions, marks.Holds program ∧ marks.Graded ∧ Lineage marks program s versions ∧
      extended ∈ versions ∧ versions.length = 4 ∧
      ∀ t ∈ versions, ∀ m ∈ t.preorder,
        (∃ w ∈ program.preorder, m.kind = w.kind ∧
          (s.mark m.id).attributes = (marks.mark w.id).attributes ∧
          s.coveredBy m = marks.coveredBy w) ∧
        (m.kind = .file → ∃ u ∈ program.units,
          s.attribute? m Attributes.fileName = marks.attribute? u Attributes.fileName ∧
          s.coveredBy m = marks.coveredBy u) ∧
        (m.isLeaf = true → m ∈ program.preorder) ∧
        ∃ w ∈ program.preorder, s.suspicion m = marks.suspicion w := by
  have hgraded : marks.Graded := by decide
  have hmutated : Lineage marks program extendedMarks [extended, program] := by
    have hstart : Lineage marks program marks [program] := .start
    have h := hstart.mutate List.mem_cons_self .insertBefore closing .program (.ofList [0])
    rwa [offspring_insertBefore] at h
  have hcrossed := hmutated.cross (List.mem_cons_of_mem _ List.mem_cons_self) List.mem_cons_self
    (.ofList [0x80000000])
  refine ⟨_, _, holds_program, hgraded, hcrossed, ?_, ?_,
    hcrossed.provenance holds_program hgraded⟩
  · exact List.mem_append_right _ List.mem_cons_self
  · rw [List.length_append, length_offspring_cross]
    rfl

end TwoMethods

end GeneticRepair
