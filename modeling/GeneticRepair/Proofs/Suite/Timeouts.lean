import GeneticRepair.Proofs.Suite.Outcomes

/-!
# `Proofs/Suite/Timeouts.lean` — completing a run that ran out of time

The classes of a suite fall in three groups when one of them hangs: the one that hung, those with a
result and those with none. The first is filled up, the last is added whole if it was selected, and
the second is left as it is. What is added is therefore new and its own: the completed list repeats
a test only if the partial one did (`nodup_filled`), and a selected class can only be incomplete if
it is of the second group (`covers_filled_iff`).

* `completeTimeout_spec`: what completing returns, and when the check accepts it.
-/

set_option autoImplicit false

namespace GeneticRepair

namespace Universe

variable {u : Universe} {className : String} {completed : List TestResult} {selection : Selection}

/-! ## The tests of a class -/

theorem mem_testsOf {id : TestId} :
    id ∈ u.testsOf className ↔ id ∈ u.all ∧ id.className = className := by
  simp [testsOf]

theorem nodup_testsOf (u : Universe) (className : String) : (u.testsOf className).Nodup :=
  u.nodup.filter _

theorem mem_classes : className ∈ u.classes ↔ ∃ id ∈ u.all, id.className = className := by
  simp [classes]

theorem isEmpty_testsOf : (u.testsOf className).isEmpty = true ↔ className ∉ u.classes := by
  rw [List.isEmpty_iff, List.eq_nil_iff_forall_not_mem, mem_classes]
  simp only [mem_testsOf, not_and, not_exists]

/-! ## What is added -/

/-- The tests of the class that hung without a result. -/
def hung (u : Universe) (className : String) (completed : List TestResult) : List TestId :=
  (u.testsOf className).filter (· ∉ completed.map (·.id))

/-- The other selected classes without any result. -/
def notBegun (u : Universe) (className : String) (completed : List TestResult)
    (selection : Selection) : List String :=
  u.classes.toList.filter fun c =>
    c ≠ className && selection.selects c && c ∉ (completed.map (·.id)).map (·.className)

/-- The tests that completing adds. -/
def filled (u : Universe) (className : String) (completed : List TestResult)
    (selection : Selection) : List TestId :=
  u.hung className completed ++ (u.notBegun className completed selection).flatMap u.testsOf

theorem mem_hung {id : TestId} :
    id ∈ u.hung className completed ↔
      id ∈ u.all ∧ id.className = className ∧ id ∉ completed.map (·.id) := by
  rw [hung, List.mem_filter, mem_testsOf, decide_eq_true_eq, and_assoc]

theorem mem_notBegun {c : String} :
    c ∈ u.notBegun className completed selection ↔
      c ∈ u.classes ∧ c ≠ className ∧ selection.selects c = true ∧
        c ∉ completed.map (·.id.className) := by
  rw [notBegun, List.mem_filter, ← SortedSet.mem_iff]
  simp [and_assoc]

/-- An added test is one of the class that hung, or its whole class is added. -/
theorem mem_filled {id : TestId} :
    id ∈ u.filled className completed selection ↔
      id ∈ u.all ∧
        (id.className = className ∧ id ∉ completed.map (·.id) ∨
          id.className ≠ className ∧ selection.selects id.className = true ∧
            id.className ∉ completed.map (·.id.className)) := by
  rw [filled, List.mem_append, mem_hung, List.mem_flatMap]
  simp only [mem_testsOf, mem_notBegun]
  constructor
  · rintro (⟨hall, hc⟩ | ⟨c, ⟨-, hc⟩, hall, rfl⟩)
    · exact ⟨hall, .inl hc⟩
    · exact ⟨hall, .inr hc⟩
  · rintro ⟨hall, hc | hc⟩
    · exact .inl ⟨hall, hc⟩
    · exact .inr ⟨id.className, ⟨mem_classes.mpr ⟨id, hall, rfl⟩, hc⟩, hall, rfl⟩

/-- Completing adds no test that has a result. -/
theorem not_mem_of_mem_filled {id : TestId} (h : id ∈ u.filled className completed selection) :
    id ∉ completed.map (·.id) := by
  obtain ⟨-, ⟨-, hnew⟩ | ⟨-, -, hnew⟩⟩ := mem_filled.mp h
  · exact hnew
  · intro hmem
    obtain ⟨r, hr, rfl⟩ := List.mem_map.mp hmem
    exact hnew (List.mem_map.mpr ⟨r, hr, rfl⟩)

/-- Completing adds no test twice: each is added with its class, and no class comes twice. -/
theorem nodup_filled (u : Universe) (className : String) (completed : List TestResult)
    (selection : Selection) : (u.filled className completed selection).Nodup := by
  have hdisjoint : (u.notBegun className completed selection).Pairwise
      (fun c d => List.Disjoint (u.testsOf c) (u.testsOf d)) := by
    refine (u.classes.nodup_toList.filter _).imp fun hcd id hc hd => hcd ?_
    exact (mem_testsOf.mp hc).2.symm.trans (mem_testsOf.mp hd).2
  refine List.nodup_append.mpr ⟨(u.nodup_testsOf className).filter _, ?_, ?_⟩
  · exact List.nodup_flatMap.mpr ⟨fun c _ => u.nodup_testsOf c, hdisjoint⟩
  · rintro id hid _ hid' rfl
    obtain ⟨c, hc, hid'⟩ := List.mem_flatMap.mp hid'
    have hsame : c = className := (mem_testsOf.mp hid').2.symm.trans (mem_hung.mp hid).2.1
    exact (mem_notBegun.mp hc).2.1 hsame

/-- The completed list covers the selected classes if the classes begun before the timeout were
finished. -/
theorem covers_filled_iff :
    (∀ id ∈ u.all, selection.selects id.className = true →
        id ∈ completed.map (·.id) ++ u.filled className completed selection) ↔
      ∀ c, selection.selects c = true → c ≠ className → c ∈ completed.map (·.id.className) →
        ∀ id ∈ u.testsOf c, id ∈ completed.map (·.id) := by
  simp only [List.mem_append, mem_filled]
  constructor
  · intro h c hsel hne hbegun id hid
    obtain ⟨hall, rfl⟩ := mem_testsOf.mp hid
    refine (h id hall hsel).resolve_right ?_
    rintro ⟨-, ⟨hc, -⟩ | ⟨-, -, hnot⟩⟩
    · exact hne hc
    · exact hnot hbegun
  · intro h id hall hsel
    -- a test without a result is added, unless its class was begun
    by_cases hreported : id ∈ completed.map (·.id)
    · exact .inl hreported
    refine .inr ⟨hall, ?_⟩
    by_cases hc : id.className = className
    · exact .inl ⟨hc, hreported⟩
    · refine .inr ⟨hc, hsel, fun hbegun => hreported ?_⟩
      exact h id.className hsel hc hbegun id (mem_testsOf.mpr ⟨hall, rfl⟩)

/-! ## Completing and checking -/

/-- Completing keeps the results it is given and adds a failure for each test of `filled`. -/
theorem completeTimeout_eq (hc : className ∈ u.classes) (elapsed : Elapsed)
    (completed : List TestResult) (selection : Selection) :
    ∃ added, u.completeTimeout className elapsed completed selection = .ok (completed ++ added) ∧
      (∀ r ∈ added, r.hasPassed = false) ∧
      added.map (·.id) = u.filled className completed selection := by
  rw [completeTimeout, if_neg (mt isEmpty_testsOf.mp (not_not_intro hc))]
  refine ⟨_, congrArg Except.ok (List.append_assoc ..), ?_, ?_⟩
  · intro r hr
    rw [List.mem_append, List.mem_map, List.mem_map] at hr
    obtain ⟨id, -, rfl⟩ | ⟨id, -, rfl⟩ := hr
    · rfl
    · rfl
  · simp [filled, hung, notBegun, TestResult.fail, Function.comp_def]

theorem completeTimeout_of_unknown (hc : className ∉ u.classes) (elapsed : Elapsed)
    (completed : List TestResult) (selection : Selection) :
    u.completeTimeout className elapsed completed selection = .error (.unknownTimeout className) :=
  if_pos (isEmpty_testsOf.mpr hc)

/-- Completing a run in which a class of the universe ran out of time always succeeds, keeps the
results and adds failures only. The check accepts the completed list if the results were known and
unrepeated, and every other selected class with a result was finished. A class that the universe
does not know cannot run out of time. -/
theorem completeTimeout_spec (u : Universe) (className : String) (elapsed : Elapsed)
    (completed : List TestResult) (selection : Selection) :
    if className ∈ u.classes then
      ∃ added, u.completeTimeout className elapsed completed selection = .ok (completed ++ added) ∧
        (∀ r ∈ added, r.hasPassed = false) ∧
        (u.validate (completed ++ added) selection = .ok () ↔
          (∀ r ∈ completed, r.id ∈ u.all) ∧ (completed.map (·.id)).Nodup ∧
            ∀ c, selection.selects c = true → c ≠ className →
              c ∈ completed.map (·.id.className) →
                ∀ id ∈ u.testsOf c, id ∈ completed.map (·.id))
    else
      u.completeTimeout className elapsed completed selection =
        .error (.unknownTimeout className) := by
  split
  next hc =>
    obtain ⟨added, heq, hfail, hids⟩ := completeTimeout_eq hc elapsed completed selection
    have hknown : ∀ r ∈ added, r.id ∈ u.all := fun r hr =>
      (mem_filled.mp (hids ▸ List.mem_map_of_mem hr)).1
    refine ⟨added, heq, hfail, ?_⟩
    rw [validate_eq_ok_iff, List.map_append, hids, covers_filled_iff, List.nodup_append]
    simp only [List.mem_append, or_imp, forall_and]
    constructor
    · rintro ⟨⟨hn, -, -⟩, ⟨hk, -⟩, hfinished⟩
      exact ⟨hk, hn, hfinished⟩
    · rintro ⟨hk, hn, hfinished⟩
      refine ⟨⟨hn, u.nodup_filled .., ?_⟩, ⟨hk, hknown⟩, hfinished⟩
      rintro id hid _ hid' rfl
      exact not_mem_of_mem_filled hid' hid
  next hc => exact completeTimeout_of_unknown hc elapsed completed selection

end Universe

end GeneticRepair
