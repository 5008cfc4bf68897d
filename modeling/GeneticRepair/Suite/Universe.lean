import GeneticRepair.Suite.TestRun

/-!
# `Suite/Universe.lean` — the test universe

The first run of a program records which tests exist and which of them fail. Every later run is held
to that universe: it may report no other test, no test twice, and all tests of the selected classes.
The tests that failed at first are the negative ones; a repair makes them pass and keeps the
positive ones passing.

* `mem_negative`, `mem_positive`, `mem_all`: the three sets in terms of the recorded outcomes.
-/

set_option autoImplicit false

namespace GeneticRepair

/-- How test results contradict the universe. -/
inductive IntegrityFault where
  | baselineRepeats (id : TestId)
  /-- A test that the universe does not know. -/
  | unknownTest (id : TestId)
  | repeatedTest (id : TestId)
  | missingTest (id : TestId)
  /-- A pass of a test that the universe does not know. -/
  | unknownPass (id : TestId)
  /-- More passes of negative tests than there are negative tests. -/
  | negativeOvercount (passing existing : Nat)
  /-- More passes of positive tests than there are positive tests. -/
  | positiveOvercount (passing existing : Nat)
  | unknownTimeout (className : String)
  /-- A fitness, as text, above the maximum, as text. -/
  | fitnessAboveMaximum (fitness maximum : String)
  /-- A contradiction that the test run noticed itself. -/
  | reported (detail : String)
deriving DecidableEq

namespace IntegrityFault

def message : IntegrityFault → String
  | .baselineRepeats id => "baseline reported " ++ id.text ++ " twice"
  | .unknownTest id => "unknown test " ++ id.text ++ " reported"
  | .repeatedTest id => "test " ++ id.text ++ " reported more than once"
  | .missingTest id => "expected test " ++ id.text ++ " was not reported"
  | .unknownPass id => "unknown test " ++ id.text ++ " passed"
  | .negativeOvercount passing existing =>
    s!"{passing} originally failing tests pass, but only {existing} exist"
  | .positiveOvercount passing existing =>
    s!"{passing} originally passing tests pass, but only {existing} exist"
  | .unknownTimeout className => s!"timeout reported for unknown test class {className}"
  | .fitnessAboveMaximum fitness maximum => s!"fitness {fitness} exceeds maximum {maximum}"
  | .reported detail => detail

end IntegrityFault

/-- The tests of a program with their outcome in the first run. -/
structure Universe where
  /-- Each test with whether it passed, in the order reported. -/
  outcomes : List (TestId × Bool)
  nodup : (outcomes.map (·.1)).Nodup

namespace Universe

/-- The first test of a list that has been seen before. -/
def firstRepeat : List TestId → List TestId → Option TestId
  | _, [] => none
  | seen, id :: ids => if id ∈ seen then some id else firstRepeat (id :: seen) ids

theorem nodup_of_firstRepeat_eq_none {seen ids : List TestId} (h : firstRepeat seen ids = none) :
    ids.Nodup ∧ ∀ id ∈ ids, id ∉ seen := by
  induction ids generalizing seen with
  | nil => simp
  | cons a ids ih =>
    unfold firstRepeat at h
    split at h
    · cases h
    · rename_i ha
      have ⟨hn, hs⟩ := ih h
      refine ⟨List.nodup_cons.2 ⟨fun hm => hs a hm (List.mem_cons_self ..), hn⟩, fun id hid => ?_⟩
      rcases List.mem_cons.1 hid with rfl | hid
      · exact ha
      · exact fun hm => hs id hid (List.mem_cons_of_mem _ hm)

/-- The universe of the results of a first run, unless they report a test twice. -/
def ofFirstRun (results : List TestResult) : Except IntegrityFault Universe :=
  match h : firstRepeat [] (results.map (·.id)) with
  | some id => .error (.baselineRepeats id)
  | none => .ok ⟨results.map fun r => (r.id, r.hasPassed), by
      simpa [Function.comp_def] using (nodup_of_firstRepeat_eq_none h).1⟩

def withOutcome (u : Universe) (passed : Bool) : SortedSet TestId :=
  .ofList ((u.outcomes.filter (·.2 = passed)).map (·.1))

/-- The tests that failed at first. -/
def negative (u : Universe) : SortedSet TestId := u.withOutcome false

/-- The tests that passed at first. -/
def positive (u : Universe) : SortedSet TestId := u.withOutcome true

def all (u : Universe) : SortedSet TestId := .ofList (u.outcomes.map (·.1))

def size (u : Universe) : Nat := u.outcomes.length

def classes (u : Universe) : SortedSet String := .ofList (u.outcomes.map (·.1.className))

/-- The tests of a class in the order reported. -/
def testsOf (u : Universe) (className : String) : List TestId :=
  (u.outcomes.map (·.1)).filter (·.className = className)

/-- Whether a test passed at first. -/
def passedAtFirst (u : Universe) (id : TestId) : Bool := id ∈ u.positive

@[simp] theorem mem_all {u : Universe} {id : TestId} : id ∈ u.all ↔ ∃ b, (id, b) ∈ u.outcomes := by
  simp [all]

theorem mem_withOutcome {u : Universe} {b : Bool} {id : TestId} :
    id ∈ u.withOutcome b ↔ (id, b) ∈ u.outcomes := by
  simp only [withOutcome, SortedSet.mem_ofList, List.mem_map, List.mem_filter, decide_eq_true_eq]
  constructor
  · rintro ⟨⟨i, c⟩, ⟨h, rfl⟩, rfl⟩
    exact h
  · exact fun h => ⟨(id, b), ⟨h, rfl⟩, rfl⟩

@[simp] theorem mem_negative {u : Universe} {id : TestId} :
    id ∈ u.negative ↔ (id, false) ∈ u.outcomes := mem_withOutcome

@[simp] theorem mem_positive {u : Universe} {id : TestId} :
    id ∈ u.positive ↔ (id, true) ∈ u.outcomes := mem_withOutcome

/-! ## Holding results to the universe -/

/-- The first result that is unknown or repeated, given the tests seen before it. -/
def firstOffence (u : Universe) : List TestId → List TestResult → Option IntegrityFault
  | _, [] => none
  | seen, r :: rs =>
    if r.id ∉ u.all then some (.unknownTest r.id)
    else if r.id ∈ seen then some (.repeatedTest r.id)
    else u.firstOffence (r.id :: seen) rs

/-- Checks that the results are those of the selected classes: no unknown test, none twice, and none
missing. -/
def validate (u : Universe) (results : List TestResult) (selection : Selection) :
    Except IntegrityFault Unit :=
  match u.firstOffence [] results with
  | some fault => .error fault
  | none =>
    let missing := u.all.toList.find? fun id =>
      selection.selects id.className && id ∉ results.map (·.id)
    match missing with
    | some id => .error (.missingTest id)
    | none => .ok ()

/-- How many tests of either sort pass. -/
structure PassCounts where
  negative : Nat
  positive : Nat
deriving DecidableEq

/-- Adds up the passes of an outcome list. -/
def tally (u : Universe) (counts : PassCounts) :
    List (TestId × Bool) → Except IntegrityFault PassCounts
  | [] => .ok counts
  | (id, passed) :: rest =>
    if !passed then u.tally counts rest
    else if id ∈ u.negative then u.tally { counts with negative := counts.negative + 1 } rest
    else if id ∈ u.positive then u.tally { counts with positive := counts.positive + 1 } rest
    else .error (.unknownPass id)

/-- Counts the passes of either sort; there cannot be more than tests. -/
def passCounts (u : Universe) (outcomes : List (TestId × Bool)) :
    Except IntegrityFault PassCounts := do
  let counts ← u.tally ⟨0, 0⟩ outcomes
  if u.negative.size < counts.negative then
    throw (.negativeOvercount counts.negative u.negative.size)
  if u.positive.size < counts.positive then
    throw (.positiveOvercount counts.positive u.positive.size)
  return counts

/-- Completes the results of a run in which a class ran out of time. Its unreported tests fail; so
do all tests of the other selected classes that were not begun. -/
def completeTimeout (u : Universe) (className : String) (elapsed : Elapsed)
    (completed : List TestResult) (selection : Selection) :
    Except IntegrityFault (List TestResult) :=
  if (u.testsOf className).isEmpty then .error (.unknownTimeout className)
  else
    let reported := completed.map (·.id)
    let hung := (u.testsOf className).filter (· ∉ reported)
    let notRun := u.classes.toList.filter fun c =>
      c ≠ className && selection.selects c && c ∉ reported.map (·.className)
    .ok (completed
      ++ hung.map (TestResult.fail · ("timeout after " ++ elapsed.text))
      ++ (notRun.flatMap u.testsOf).map
          (TestResult.fail · ("not run: " ++ className ++ " timed out")))

/-! ## Outcomes of all tests -/

/-- The outcomes of all tests: the executed ones, then those that keep the outcome recorded at
first. -/
def mergedOutcomes (u : Universe) (executed : List TestResult) : List (TestId × Bool) :=
  let ran := executed.map (·.id)
  executed.map (fun r => (r.id, r.hasPassed)) ++
    (u.all.toList.filter (· ∉ ran)).map fun id => (id, u.passedAtFirst id)

/-- The tests whose last outcome is a failure. -/
def failures (outcomes : List (TestId × Bool)) : SortedSet TestId :=
  (SortedSet.ofList (outcomes.map (·.1))).filter fun id => outcomes.reverse.lookup id = some false

end Universe

end GeneticRepair
