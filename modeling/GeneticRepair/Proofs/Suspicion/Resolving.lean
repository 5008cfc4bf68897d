import GeneticRepair.Proofs.Numeric.Exact
import GeneticRepair.Proofs.Suspicion.Annotating
import GeneticRepair.Proofs.Syntax.Places

/-!
# `Proofs/Suspicion/Resolving.lean` — which units a test class covers

A line names a class, and what the class resolves to decides which unit its test covers. The search
for it goes through lists; what it finds is said here by places, with no list and no search
(`Store.Resolves`): the declaration of the full name that comes first, by the place of its unit and
then by its place in the unit, and one of the outer name only if no unit declares the full one. With
this the covering classes of a program after a pass are described by its nodes, the results and the
coverage alone (`coveredBy_localize_iff`).
-/

set_option autoImplicit false

namespace GeneticRepair

namespace Store

variable {α : Type} [Scalar α] {s : Store α} {root : Node} {name : String} {found : ClassMatch}

/-- At the first place stands a unit, and at the second place within it a declaration of the
class. -/
structure Declares (s : Store α) (root : Node) (name : String) (p q : ChildPath)
    (found : ClassMatch) : Prop where
  unit_at : root.descend p = some found.unit
  unit_kind : found.unit.kind = .file
  declaration_at : found.unit.descend q = some found.declaration
  declaration_kind : found.declaration.kind = .typeDeclaration
  named : s.attribute? found.declaration Attributes.className = some name

/-- The declaration of a class that comes first, unit by unit and in pre-order within a unit. -/
def DeclaresFirst (s : Store α) (root : Node) (name : String) (found : ClassMatch) : Prop :=
  ∃ p q, s.Declares root name p q found ∧
    ∀ p' q' other, s.Declares root name p' q' other → ¬ (p' < p ∨ p' = p ∧ q' < q)

/-- What a class name stands for. -/
inductive Resolves (s : Store α) (root : Node) (name : String) (found : ClassMatch) : Prop
  | full : s.DeclaresFirst root name found → Resolves s root name found
  | outer : (∀ p q other, ¬ s.Declares root name p q other) →
      s.DeclaresFirst root (outerClass name) found → Resolves s root name found

/-- The first declaration of the class within one unit. -/
theorem find?_unit_eq_some_iff {u : Node} :
    ((u.ofKind .typeDeclaration).map (ClassMatch.mk u)).find?
        (fun m => s.attribute? m.declaration Attributes.className = some name) = some found ↔
      found.unit = u ∧ ∃ q, u.descend q = some found.declaration ∧
        found.declaration.kind = .typeDeclaration ∧
        s.attribute? found.declaration Attributes.className = some name ∧
        ∀ q' d, u.descend q' = some d → d.kind = .typeDeclaration → q' < q →
          s.attribute? d Attributes.className ≠ some name := by
  rw [List.find?_map, Option.map_eq_some_iff]
  simp only [Node.find?_ofKind_eq_some_iff, Function.comp_apply, decide_eq_true_eq,
    decide_eq_false_iff_not]
  constructor
  · rintro ⟨d, hd, rfl⟩
    exact ⟨rfl, hd⟩
  · rintro ⟨rfl, hd⟩
    exact ⟨found.declaration, hd, rfl⟩

/-- There is none in a unit that does not declare the class. -/
theorem find?_unit_eq_none_iff {u : Node} :
    ((u.ofKind .typeDeclaration).map (ClassMatch.mk u)).find?
        (fun m => s.attribute? m.declaration Attributes.className = some name) = none ↔
      ∀ q d, u.descend q = some d → d.kind = .typeDeclaration →
        s.attribute? d Attributes.className ≠ some name := by
  rw [List.find?_map, Option.map_eq_none_iff, List.find?_eq_none]
  simp only [Function.comp_apply, decide_eq_true_eq, Node.mem_ofKind, and_imp, forall_exists_index]
  exact ⟨fun h q d hd hkind => h d q hd hkind, fun h d q hd hkind => h q d hd hkind⟩

theorem find?_declarations_eq_some_iff :
    (declarations root).find?
        (fun m => s.attribute? m.declaration Attributes.className = some name) = some found ↔
      s.DeclaresFirst root name found := by
  rw [declarations, List.find?_flatMap, Node.units, Node.findSome?_ofKind_eq_some_iff]
  simp only [find?_unit_eq_some_iff, find?_unit_eq_none_iff]
  constructor
  · rintro ⟨p, _, hp, hunit, ⟨rfl, q, hq, hkind, hname, hwithin⟩, hbefore⟩
    refine ⟨p, q, ⟨hp, hunit, hq, hkind, hname⟩, fun p' q' other h hlt => ?_⟩
    obtain hlt | ⟨rfl, hlt⟩ := hlt
    · exact hbefore p' _ h.unit_at h.unit_kind hlt q' _ h.declaration_at h.declaration_kind h.named
    · have hsame : other.unit = found.unit := Option.some.inj (h.unit_at.symm.trans hp)
      exact hwithin q' _ (hsame ▸ h.declaration_at) h.declaration_kind hlt h.named
  · rintro ⟨p, q, h, hleast⟩
    refine ⟨p, found.unit, h.unit_at, h.unit_kind, ⟨rfl, q, h.declaration_at, h.declaration_kind,
      h.named, fun q' d hd hkind hlt hname => ?_⟩, fun p' u hu hunit hlt q' d hd hkind hname => ?_⟩
    · exact hleast p q' ⟨found.unit, d⟩ ⟨h.unit_at, h.unit_kind, hd, hkind, hname⟩
        (.inr ⟨rfl, hlt⟩)
    · exact hleast p' q' ⟨u, d⟩ ⟨hu, hunit, hd, hkind, hname⟩ (.inl hlt)

theorem find?_declarations_eq_none_iff :
    (declarations root).find?
        (fun m => s.attribute? m.declaration Attributes.className = some name) = none ↔
      ∀ p q other, ¬ s.Declares root name p q other := by
  rw [declarations, List.find?_flatMap, List.findSome?_eq_none_iff]
  simp only [find?_unit_eq_none_iff, Node.units, Node.mem_ofKind, and_imp, forall_exists_index]
  exact ⟨fun h p q other hd => h _ p hd.unit_at hd.unit_kind q _ hd.declaration_at
      hd.declaration_kind hd.named,
    fun h u p hu hunit q d hd hkind hname => h p q ⟨u, d⟩ ⟨hu, hunit, hd, hkind, hname⟩⟩

/-- What the search finds is what the name stands for. -/
theorem resolveClass_eq_some_iff :
    s.resolveClass root name = some found ↔ s.Resolves root name found := by
  rw [resolveClass, Option.or_eq_some_iff, find?_declarations_eq_some_iff,
    find?_declarations_eq_none_iff, find?_declarations_eq_some_iff]
  constructor
  · rintro (h | ⟨hnone, h⟩)
    · exact .full h
    · exact .outer hnone h
  · rintro (h | ⟨hnone, h⟩)
    · exact .inl h
    · exact .inr ⟨hnone, h⟩

end Store

namespace Localization

variable {α : Type} [Scalar α] {root : Node} {store : Store α} {results : List TestResult}
  {coverage : Coverage}

/-- A test of the class was reported, whatever its result, and executes a line of a class that
stands for a declaration in the unit. -/
def Covers (root : Node) (store : Store α) (results : List TestResult) (coverage : Coverage)
    (unit : NodeId) (testClass : String) : Prop :=
  ∃ test ∈ results.map (·.id), test.className = testClass ∧ ∃ l, coverage.Executes test l ∧
    ∃ found, store.Resolves root l.className found ∧ found.unit.id = unit

/-- Every reported test has a last result. -/
theorem exists_listed_iff {id : TestId} :
    (∃ passed, id ∈ listed results passed) ↔ id ∈ results.map (·.id) := by
  have hkeys : id ∈ (outcomes results).map (·.1) ↔ id ∈ SortedSet.ofList (results.map (·.id)) := by
    rw [keys_outcomes]
    rfl
  rw [← SortedSet.mem_ofList, ← hkeys, List.mem_map]
  simp only [← mem_outcomes, Prod.exists, exists_and_right, exists_eq_right]

theorem reaches_iff_covers {unit : NodeId} {testClass : String} :
    Reaches root store results coverage unit testClass ↔
      Covers root store results coverage unit testClass := by
  simp only [Reaches, Covers, Store.resolveClass_eq_some_iff]
  constructor
  · rintro ⟨passed, test, htest, hclass, hline⟩
    exact ⟨test, exists_listed_iff.mp ⟨passed, htest⟩, hclass, hline⟩
  · rintro ⟨test, htest, hclass, hline⟩
    obtain ⟨passed, hpassed⟩ := exists_listed_iff.mpr htest
    exact ⟨passed, test, hpassed, hclass, hline⟩

variable [Root α]

/-- After a pass every unit has a set of covering classes: those it had and the classes of the
reported tests that execute a line of a class which stands for one in the unit. Nothing else is
covered differently. -/
theorem coveredBy_localize_iff (hs : store.Holds root) (policy : SuspicionPolicy α)
    (results : List TestResult) (coverage : Coverage) :
    let after := (localize policy root results coverage store).2
    (∀ name found, store.resolveClass root name = some found ↔ store.Resolves root name found) ∧
      (∀ u ∈ root.units, ∃ classes, after.coveredBy u = some classes ∧
        ∀ c, c ∈ classes ↔
          c ∈ (store.coveredBy u).getD ∅ ∨ Covers root store results coverage u.id c) ∧
      ∀ id, (∀ u ∈ root.units, u.id ≠ id) →
        (after.mark id).coveredBy = (store.mark id).coveredBy := by
  intro after
  refine ⟨fun _ _ => Store.resolveClass_eq_some_iff, fun u hu => ?_, fun id hid => ?_⟩
  · have hknown : u.id < store.next := hs u (List.mem_filter.mp hu).1
    simp only [← reaches_iff_covers]
    exact coveredBy_localize_unit policy results coverage hu hknown
  · exact coveredBy_localize_of_ne policy results coverage hid

end Localization

/-! ## A nested class in a unit of its own -/

namespace Fallback

def declaring (name : String) : Mark Rat := .fresh [(Attributes.className, name)]

/-- The unit of `A`, a later one of `A$B`, and one without a class. -/
def program : Node :=
  .make 5 .other [.make 1 .file [.make 0 .typeDeclaration []],
    .make 3 .file [.make 2 .typeDeclaration []], .make 4 .file []]

def marks : Store Rat :=
  ⟨#[declaring "A", ⟨0, some (.ofList ["Old"]), []⟩, declaring "A$B", .fresh [], .fresh [],
    .fresh []]⟩

def results : List TestResult := [.pass ⟨"Nested", "a"⟩, .fail ⟨"Other", "b"⟩ "broken"]

/-- One of the tests was not reported. -/
def coverage : Coverage :=
  [(⟨"Nested", "a"⟩, .ofList [⟨"A$B", 1⟩]), (⟨"Other", "b"⟩, .ofList [⟨"A$C", 2⟩, ⟨"B", 1⟩]),
    (⟨"Unknown", "c"⟩, .ofList [⟨"A", 1⟩])]

end Fallback

open GeneticRepair.Localization Fallback in
/-- `A$B` stands for the declaration in the later unit, and `A$C` for `A`. -/
theorem coveredBy_localize_fallback : ∃ _ : Root Rat, marks.Holds program ∧
    (∀ u ∈ program.units, ∃ classes,
      (localize .keepAll program results coverage marks).2.coveredBy u = some classes ∧
        ∀ c, c ∈ classes ↔
          c ∈ (marks.coveredBy u).getD ∅ ∨ Covers program marks results coverage u.id c) ∧
    program.units.map (localize .keepAll program results coverage marks).2.coveredBy =
      [some (.ofList ["Old", "Other"]), some (.ofList ["Nested"]), some ∅] := by
  let _ := quotientRoot
  have hs : marks.Holds program := by
    unfold Store.Holds
    decide +kernel
  exact ⟨quotientRoot, hs, (coveredBy_localize_iff hs .keepAll results coverage).2.1,
    by decide +kernel⟩

end GeneticRepair
