import GeneticRepair.Proofs.Suspicion.Spectra
import GeneticRepair.Proofs.Syntax.Marking
import GeneticRepair.Proofs.Suspicion.Covering

/-!
# `Proofs/Suspicion/Annotating.lean` — what a pass writes before it clears

A localization pass goes through lines and tests and writes as it goes, but what it looks up, class
names and places of nodes, is not among the things it writes. So its writes are a list that can be
read off the store before the pass: scores for nodes (`scoreLines_eq`) and test classes for units
(`recordCoverage_eq`). From the lists follows what the marks are before anything is cleared
(`annotate`): the suspicion of a node is the greatest of what it was and the scores awarded to it,
and a unit is covered by the classes it had and those of the tests that reach it.
-/

set_option autoImplicit false

namespace GeneticRepair

/-- Two outcomes of annotating one store differ in suspicion or in covering classes. -/
theorem Store.Annotates.eq_of_marks {α : Type} [Scalar α] {store s s' : Store α}
    (h : store.Annotates s) (h' : store.Annotates s')
    (hsuspicion : ∀ id < store.next, (s.mark id).suspicion = (s'.mark id).suspicion)
    (hcovered : ∀ id < store.next, (s.mark id).coveredBy = (s'.mark id).coveredBy) : s = s' := by
  have hparts : ∀ m m' : Mark α, m.suspicion = m'.suspicion → m.coveredBy = m'.coveredBy →
      m.attributes = m'.attributes → m = m' := by
    rintro ⟨_, _, _⟩ ⟨_, _, _⟩ ⟨⟩ ⟨⟩ ⟨⟩
    rfl
  refine ext_mark (h.next_eq.trans h'.next_eq.symm) fun id hid => ?_
  have hknown : id < store.next := h.next_eq ▸ hid
  exact hparts _ _ (hsuspicion id hknown) (hcovered id hknown)
    ((h.attributes_eq id).trans (h'.attributes_eq id).symm)

namespace Localization

section Scalar

variable {α : Type} [Scalar α] {root : Node} {store : Store α}

/-- A reported test of the class executes a line of a class that is found in the unit. -/
def Reaches (root : Node) (store : Store α) (results : List TestResult) (coverage : Coverage)
    (unit : NodeId) (testClass : String) : Prop :=
  ∃ passed, ∃ test ∈ listed results passed, test.className = testClass ∧
    ∃ l, coverage.Executes test l ∧
      ∃ found, store.resolveClass root l.className = some found ∧ found.unit.id = unit

/-! ## Covering -/

/-- The unit of each class that a test touches, with the test class that covers it. -/
def coveringsOf (root : Node) (store : Store α) (test : CoveredTest) : List (Node × List String) :=
  (touchedClasses test.lines).toList.filterMap fun className =>
    (store.resolveClass root className).map fun found => (found.unit, [test.id.className])

/-- What a pass adds to the covering classes, unit by unit and then test by test. -/
def coverings (root : Node) (store : Store α) (tests : List CoveredTest) :
    List (Node × List String) :=
  root.units.map (·, []) ++ tests.flatMap (coveringsOf root store)

theorem coverUnits_eq {s : Store α} (hs : store.Annotates s) (test : CoveredTest) :
    coverUnits root s test = s.coverAll (coveringsOf root store test) := by
  unfold coverUnits coveringsOf
  induction (touchedClasses test.lines).toList generalizing s with
  | nil => rfl
  | cons className classes ih =>
    rw [List.foldl_cons, List.filterMap_cons, hs.resolveClass_eq]
    cases store.resolveClass root className with
    | none => exact ih hs
    | some found => exact ih (hs.trans (s.annotates_cover found.unit _))

theorem foldl_coverUnits {s : Store α} (hs : store.Annotates s) (tests : List CoveredTest) :
    tests.foldl (coverUnits root) s = s.coverAll (tests.flatMap (coveringsOf root store)) := by
  induction tests generalizing s with
  | nil => rfl
  | cons t tests ih =>
    rw [List.foldl_cons, ih (hs.trans ((writes_annotates root).coverUnits s t)), coverUnits_eq hs,
      List.flatMap_cons]
    exact List.foldl_append.symm

/-- The covering part of a pass, as one list of writes. -/
theorem recordCoverage_eq {s : Store α} (hs : store.Annotates s) (tests : List CoveredTest) :
    recordCoverage root s tests = s.coverAll (coverings root store tests) := by
  have hunits : root.units.foldl (fun s u => s.cover u []) s =
      s.coverAll (root.units.map (·, [])) := by
    rw [Store.coverAll, Store.updateAll, List.foldl_map]
    rfl
  have hmade : store.Annotates (s.coverAll (root.units.map (·, []))) := by
    rw [← hunits]
    exact hs.trans (Store.Annotates.foldl (fun s u => s.annotates_cover u []) root.units s)
  rw [recordCoverage, hunits, foldl_coverUnits hmade]
  exact List.foldl_append.symm

theorem unit_mem_of_mem_coverings {tests : List CoveredTest} {w : Node × List String}
    (hw : w ∈ coverings root store tests) : w.1 ∈ root.units := by
  obtain hw | hw := List.mem_append.mp hw
  · obtain ⟨u, hu, rfl⟩ := List.mem_map.mp hw
    exact hu
  · obtain ⟨t, -, hw⟩ := List.mem_flatMap.mp hw
    obtain ⟨className, -, hw⟩ := List.mem_filterMap.mp hw
    obtain ⟨found, hfound, rfl⟩ := Option.map_eq_some_iff.mp hw
    exact Store.unit_mem_of_resolveClass hfound

theorem mem_coverings_iff_reaches {results : List TestResult} {coverage : Coverage} {unit : NodeId}
    {testClass : String} :
    (∃ w ∈ coverings root store (covered (outcomes results) coverage),
      w.1.id = unit ∧ testClass ∈ w.2) ↔ Reaches root store results coverage unit testClass := by
  constructor
  · rintro ⟨w, hw, hunit, hclass⟩
    obtain hw | hw := List.mem_append.mp hw
    · obtain ⟨u, -, rfl⟩ := List.mem_map.mp hw
      cases hclass
    · obtain ⟨t, ht, hw⟩ := List.mem_flatMap.mp hw
      obtain ⟨className, hname, hw⟩ := List.mem_filterMap.mp hw
      obtain ⟨found, hfound, rfl⟩ := Option.map_eq_some_iff.mp hw
      obtain ⟨l, hl, rfl⟩ := List.mem_map.mp (SortedSet.mem_ofList.mp hname)
      obtain ⟨hid, hlines⟩ := mem_covered_iff.mp ht
      exact ⟨t.passed, t.id, hid, (List.mem_singleton.mp hclass).symm, l, ⟨t.lines, hlines, hl⟩,
        found, hfound, hunit⟩
  · rintro ⟨passed, test, hid, rfl, l, ⟨lines, hlines, hl⟩, found, hfound, hunit⟩
    refine ⟨(found.unit, [test.className]), List.mem_append_right _ (List.mem_flatMap.mpr
      ⟨⟨test, passed, lines⟩, mem_covered_iff.mpr ⟨hid, hlines⟩, List.mem_filterMap.mpr
        ⟨l.className, SortedSet.mem_ofList.mpr (List.mem_map_of_mem hl), ?_⟩⟩), hunit,
      List.mem_singleton_self _⟩
    rw [hfound]
    rfl

/-! ## Scoring -/

section Root

variable [Root α]

/-- The entry of a line: there is one if the score is positive and the class is declared. -/
def entryOf (root : Node) (store : Store α) (line : CodeLine × Spectrum) : Option (LineScore α) :=
  if (line.2.ochiai : α) ≤ 0 then none
  else (store.resolveClass root line.1.className).map fun found =>
    ⟨line.1, line.2, line.2.ochiai, (statementsOn found.declaration line.1.line).length⟩

/-- The class of a line with a positive score, if the program does not declare it. -/
def undeclaredOf (root : Node) (store : Store α) (line : CodeLine × Spectrum) : Option String :=
  if (line.2.ochiai : α) ≤ 0 then none
  else if (store.resolveClass root line.1.className).isNone then some line.1.className
  else none

/-- Who gets the score of a line. -/
def awards (root : Node) (store : Store α) (line : CodeLine × Spectrum) : List (Node × α) :=
  if (line.2.ochiai : α) ≤ 0 then []
  else
    match store.resolveClass root line.1.className with
    | none => []
    | some found => (statementsOn found.declaration line.1.line).map (·, line.2.ochiai)

theorem scoreLine_eq {s : Scoring α} (hs : store.Annotates s.store) (line : CodeLine × Spectrum) :
    scoreLine root s line =
      ⟨s.store.raiseAll (awards root store line), s.lines ++ (entryOf root store line).toList,
        s.unknown.insertAll (undeclaredOf root store line).toList⟩ := by
  unfold scoreLine entryOf undeclaredOf awards
  simp only [hs.resolveClass_eq]
  split
  · simp only [Option.toList_none, List.append_nil]
    rfl
  · cases store.resolveClass root line.1.className with
    | none =>
      simp only [Option.map_none, Option.toList_none, List.append_nil, Option.isNone_none, if_true]
      rfl
    | some found =>
      simp only [Option.map_some, Option.isNone_some, Bool.false_eq_true, if_false]
      refine congrArg (Scoring.mk · _ _) ?_
      rw [Store.raiseAll, Store.updateAll, List.foldl_map]
      rfl

theorem foldl_scoreLine {s : Scoring α} (hs : store.Annotates s.store)
    (lines : List (CodeLine × Spectrum)) :
    lines.foldl (scoreLine root) s =
      ⟨s.store.raiseAll (lines.flatMap (awards root store)),
        s.lines ++ lines.filterMap (entryOf root store),
        s.unknown.insertAll (lines.filterMap (undeclaredOf root store))⟩ := by
  induction lines generalizing s with
  | nil =>
    rw [List.filterMap_nil, List.append_nil]
    rfl
  | cons line lines ih =>
    have hstep := (writes_annotates root).scoreLine s line
    rw [List.foldl_cons, ih (hs.trans hstep), scoreLine_eq hs]
    have happend {β : Type} (o : Option β) (f : CodeLine × Spectrum → Option β)
        (ho : f line = o) : o.toList ++ lines.filterMap f = (line :: lines).filterMap f := by
      rw [List.filterMap_cons, ho]
      cases o with
      | none => rfl
      | some x => rfl
    rw [← happend _ (entryOf root store) rfl, ← happend _ (undeclaredOf root store) rfl,
      List.flatMap_cons, List.append_assoc]
    exact congr (congrArg (Scoring.mk · _) List.foldl_append.symm) List.foldl_append.symm

/-- The scoring part of a pass, as one list of writes, with its entries and its unknown classes. -/
theorem scoreLines_eq (root : Node) (store : Store α) (lines : List (CodeLine × Spectrum)) :
    scoreLines root store lines =
      ⟨store.raiseAll (lines.flatMap (awards root store)), lines.filterMap (entryOf root store),
        .ofList (lines.filterMap (undeclaredOf root store))⟩ :=
  foldl_scoreLine (s := ⟨store, [], ∅⟩) (.refl store) lines

/-! ## The whole pass -/

/-- The marks after everything that a pass writes, before it clears what is too low. -/
def annotate (root : Node) (results : List TestResult) (coverage : Coverage) (store : Store α) :
    Store α :=
  recordCoverage root (scoreLines root store (spectra results coverage)).store
    (covered (outcomes results) coverage)

variable {results : List TestResult} {coverage : Coverage}

theorem annotates_annotate (root : Node) (results : List TestResult) (coverage : Coverage)
    (store : Store α) : store.Annotates (annotate root results coverage store) :=
  ((writes_annotates root).scoreLines store _).trans ((writes_annotates root).recordCoverage _ _)

theorem annotate_eq (root : Node) (results : List TestResult) (coverage : Coverage)
    (store : Store α) : annotate root results coverage store =
      (store.raiseAll ((spectra results coverage).flatMap (awards root store))).coverAll
        (coverings root store (covered (outcomes results) coverage)) := by
  have hscored := (writes_annotates root).scoreLines store (spectra results coverage)
  rw [annotate, recordCoverage_eq hscored, scoreLines_eq]

/-- After a pass each unit has its covering classes and those of the tests that reach it. -/
theorem coveredBy_annotate {u : Node} (hu : u ∈ root.units) (hid : u.id < store.next) :
    ∃ classes, (annotate root results coverage store).coveredBy u = some classes ∧
      ∀ c, c ∈ classes ↔ c ∈ (store.coveredBy u).getD ∅ ∨
        Reaches root store results coverage u.id c := by
  have hmem : (u, []) ∈ coverings root store (covered (outcomes results) coverage) :=
    List.mem_append_left _ (List.mem_map_of_mem hu)
  obtain ⟨classes, hclasses, hall⟩ := Store.coveredBy_coverAll
    (s := store.raiseAll ((spectra results coverage).flatMap (awards root store)))
    (by rwa [Store.raiseAll, Store.next_updateAll]) ⟨_, hmem, rfl⟩
  rw [← annotate_eq] at hclasses
  refine ⟨classes, hclasses, fun c => ?_⟩
  rw [hall, Store.coveredBy_raiseAll, mem_coverings_iff_reaches]
  rfl

/-- Nodes that are no units are covered as before. -/
theorem coveredBy_annotate_of_ne {id : NodeId} (h : ∀ u ∈ root.units, u.id ≠ id) :
    ((annotate root results coverage store).mark id).coveredBy = (store.mark id).coveredBy := by
  rw [annotate_eq, Store.coverAll,
    Store.mark_updateAll_of_not_mem fun w hw => h w.1 (unit_mem_of_mem_coverings hw),
    Store.coveredBy_raiseAll]

/-! ## What clearing leaves of it -/

omit [Root α] in
theorem coveredBy_clearLow (policy : SuspicionPolicy α) (root : Node) (store : Store α)
    (id : NodeId) : ((clearLow policy root store).2.mark id).coveredBy =
      (store.mark id).coveredBy := by
  have hclear (s : Store α) (l : List Node) :
      ((l.foldl Store.clear s).mark id).coveredBy = (s.mark id).coveredBy :=
    s.coveredBy_clearAll l id
  unfold clearLow
  cases policy.limit with
  | none => exact hclear _ _
  | some limit =>
    dsimp only
    split
    · exact (hclear _ _).trans (hclear _ _)
    · exact hclear _ _

/-- After a pass each unit has its covering classes and those of the tests that reach it. -/
theorem coveredBy_localize_unit (policy : SuspicionPolicy α) (results : List TestResult)
    (coverage : Coverage) {u : Node} (hu : u ∈ root.units) (hid : u.id < store.next) :
    ∃ classes, (localize policy root results coverage store).2.coveredBy u = some classes ∧
      ∀ c, c ∈ classes ↔ c ∈ (store.coveredBy u).getD ∅ ∨
        Reaches root store results coverage u.id c := by
  have hclear : (localize policy root results coverage store).2.coveredBy u =
      (annotate root results coverage store).coveredBy u := coveredBy_clearLow policy root _ u.id
  rw [hclear]
  exact coveredBy_annotate hu hid

/-- Nodes that are no units are covered as before. -/
theorem coveredBy_localize_of_ne (policy : SuspicionPolicy α) (results : List TestResult)
    (coverage : Coverage) {id : NodeId} (h : ∀ u ∈ root.units, u.id ≠ id) :
    ((localize policy root results coverage store).2.mark id).coveredBy =
      (store.mark id).coveredBy :=
  (coveredBy_clearLow policy root _ id).trans (coveredBy_annotate_of_ne h)

/-! ## Who gets a score -/

/-- A node is one of the innermost statements on a line with the given score. -/
def Awards (root : Node) (store : Store α) (results : List TestResult) (coverage : Coverage)
    (id : NodeId) (score : α) : Prop :=
  ∃ line ∈ spectra results coverage, ∃ found,
    store.resolveClass root line.1.className = some found ∧
      (∃ n ∈ statementsOn found.declaration line.1.line, n.id = id) ∧
        line.2.ochiai = score ∧ 0 < score

/-! ## Annotated stores -/

variable {store' : Store α}

/-- A store that differs in suspicion and covering classes only gets the same writes. -/
theorem entryOf_of_annotates (h : store.Annotates store') (root : Node) :
    (entryOf root store' : _ → Option (LineScore α)) = entryOf root store := by
  funext line
  unfold entryOf
  rw [h.resolveClass_eq]

theorem undeclaredOf_of_annotates (h : store.Annotates store') (root : Node) :
    undeclaredOf root store' = undeclaredOf root store := by
  funext line
  unfold undeclaredOf
  rw [h.resolveClass_eq]

theorem awards_iff_of_annotates (h : store.Annotates store') {id : NodeId} {score : α} :
    Awards root store' results coverage id score ↔ Awards root store results coverage id score := by
  simp only [Awards, h.resolveClass_eq]

end Root

theorem reaches_iff_of_annotates {store' : Store α} (h : store.Annotates store')
    {results : List TestResult} {coverage : Coverage} {unit : NodeId} {testClass : String} :
    Reaches root store' results coverage unit testClass ↔
      Reaches root store results coverage unit testClass := by
  simp only [Reaches, h.resolveClass_eq]

end Scalar

variable {α : Type} [OrderedScalar α] [Root α] {root : Node} {store : Store α}
  {results : List TestResult} {coverage : Coverage}

theorem mem_awards_iff {id : NodeId} {score : α} :
    (∃ w ∈ (spectra results coverage).flatMap (awards root store), w.1.id = id ∧ w.2 = score) ↔
      Awards root store results coverage id score := by
  constructor
  · rintro ⟨w, hw, hid, rfl⟩
    obtain ⟨line, hline, hw⟩ := List.mem_flatMap.mp hw
    unfold awards at hw
    split at hw
    · cases hw
    · next hpos =>
      split at hw
      · cases hw
      · next found hfound =>
        obtain ⟨n, hn, rfl⟩ := List.mem_map.mp hw
        exact ⟨line, hline, found, hfound, ⟨n, hn, hid⟩, rfl, lt_of_not_ge hpos⟩
  · rintro ⟨line, hline, found, hfound, ⟨n, hn, hid⟩, rfl, hpos⟩
    refine ⟨(n, line.2.ochiai), List.mem_flatMap.mpr ⟨line, hline, ?_⟩, hid, rfl⟩
    rw [awards, if_neg (not_le_of_gt hpos), hfound]
    exact List.mem_map_of_mem hn

/-- Before anything is cleared, the suspicion of a node is the greatest of what it was and the
scores awarded to it. -/
theorem isGreatest_annotate {id : NodeId} (hid : id < store.next) :
    IsGreatest (insert (store.mark id).suspicion {x | Awards root store results coverage id x})
      ((annotate root results coverage store).mark id).suspicion := by
  have hraised := Store.isGreatest_raiseAll hid
    ((spectra results coverage).flatMap (awards root store))
  simp only [mem_awards_iff] at hraised
  rw [annotate_eq, Store.suspicion_coverAll]
  exact hraised

/-- Scores go to statements only. -/
theorem statement_of_awards {id : NodeId} {score : α}
    (h : Awards root store results coverage id score) : ∃ n ∈ root.statements, n.id = id := by
  obtain ⟨line, -, found, hfound, ⟨n, hn, hid⟩, -⟩ := h
  obtain ⟨hmem, hkind⟩ := List.mem_filter.mp (List.mem_filter.mp (List.mem_filter.mp hn).1).1
  have hroot := Node.mem_preorder_trans hmem (Store.declaration_mem_of_resolveClass hfound)
  exact ⟨n, List.mem_filter.mpr ⟨hroot, hkind⟩, hid⟩

theorem suspicion_annotate_of_not_awards {id : NodeId}
    (h : ∀ score, ¬ Awards root store results coverage id score) :
    ((annotate root results coverage store).mark id).suspicion = (store.mark id).suspicion := by
  by_cases hid : id < store.next
  · exact (isGreatest_annotate hid).1.resolve_right (h _)
  · have hle := Nat.le_of_not_lt hid
    have hnext := (annotates_annotate root results coverage store).next_eq
    rw [Store.mark_of_next_le hle, Store.mark_of_next_le (hnext.symm ▸ hle)]

end Localization

end GeneticRepair
