import GeneticRepair.Collection.Ranking
import GeneticRepair.Suspicion.Policy
import GeneticRepair.Suspicion.Coverage
import GeneticRepair.Suspicion.Spectrum
import GeneticRepair.Syntax.Classes

/-!
# `Suspicion/Localization.lean` — localizing faults

A localization pass scores every line that a failing test executes, raises the suspicion of the
innermost statements on it, records which test classes cover which compilation unit, and clears the
statements that are not suspicious enough. It writes to the marks of the program's nodes and reports
what it found.
-/

set_option autoImplicit false

namespace GeneticRepair

/-- A line with a positive score. -/
structure LineScore (α : Type) where
  location : CodeLine
  counts : Spectrum
  score : α
  /-- The number of statements that the score went to. -/
  statements : Nat

/-- What a localization pass found. -/
structure SuspicionReport (α : Type) where
  /-- The scored lines, the highest score first. -/
  lines : List (LineScore α)
  /-- Classes with scored lines that the program does not declare. -/
  unknownClasses : SortedSet String
  bareLines : List CodeLine
  /-- The number of distinct lines that each test class covers. -/
  linesPerTestClass : List (String × Nat)
  /-- The number of statements that got a score, line by line. -/
  raised : Nat
  kept : Nat

namespace Localization

/-! ## What the tests say about a line -/

/-- The tests that were reported, each with its last result, in order. -/
def outcomes (results : List TestResult) : List (TestId × Bool) :=
  (SortedSet.ofList (results.map (·.id))).toList.map fun id =>
    (id, ((results.reverse.find? (·.id = id)).map TestResult.hasPassed).getD true)

/-- A reported test with coverage. -/
structure CoveredTest where
  id : TestId
  passed : Bool
  lines : SortedSet CodeLine

/-- The reported tests with coverage. -/
def covered (outcomes : List (TestId × Bool)) (coverage : Coverage) : List CoveredTest :=
  outcomes.filterMap fun o => (coverage.linesOf o.1).map fun lines => ⟨o.1, o.2, lines⟩

/-- The lines that one of the tests executes. -/
def coveredLines (tests : List CoveredTest) : SortedSet CodeLine :=
  tests.foldl (fun s t => s.union t.lines) ∅

/-- The number of tests with one outcome that execute a line. -/
def covering (tests : List CoveredTest) (passed : Bool) (l : CodeLine) : Nat :=
  tests.countP fun t => t.passed = passed && l ∈ t.lines

/-- The tests around each line that a reported test executes, in the order of the lines. -/
def spectra (results : List TestResult) (coverage : Coverage) : List (CodeLine × Spectrum) :=
  let outcomes := outcomes results
  let tests := covered outcomes coverage
  let failing := outcomes.countP (!·.2)
  let passing := outcomes.length - failing
  (coveredLines tests).toList.map fun l =>
    (l, .ofTotals (covering tests false l) failing (covering tests true l) passing)

/-! ## The statements on a line -/

/-- The matched nodes without those that contain another matched node. -/
def innermost (matched : List Node) : List Node :=
  matched.filter fun outer =>
    !matched.any fun inner =>
      outer.id ≠ inner.id && outer.preorder.any (·.id = inner.id)

/-- The innermost statements of a declaration on a line. -/
def statementsOn (declaration : Node) (line : Nat) : List Node :=
  innermost (declaration.statements.filter (·.coversLine line))

variable {α : Type} [Scalar α]

/-! ## Scores -/

structure Scoring (α : Type) where
  store : Store α
  /-- The scored lines in the order of the lines. -/
  lines : List (LineScore α)
  unknown : SortedSet String

/-- Scores one line: a positive score goes to the innermost statements on it. -/
def scoreLine [Root α] (root : Node) (s : Scoring α) (line : CodeLine × Spectrum) : Scoring α :=
  let (location, counts) := line
  let score : α := counts.ochiai
  if score ≤ 0 then s
  else
    match s.store.resolveClass root location.className with
    | none => { s with unknown := s.unknown.insert location.className }
    | some found =>
      let matched := statementsOn found.declaration location.line
      { s with
        store := matched.foldl (fun store n => store.raise n score) s.store
        lines := s.lines ++ [⟨location, counts, score, matched.length⟩] }

def scoreLines [Root α] (root : Node) (store : Store α) (lines : List (CodeLine × Spectrum)) :
    Scoring α :=
  lines.foldl (scoreLine root) ⟨store, [], ∅⟩

/-! ## Covering test classes -/

/-- The classes whose lines a test executes. -/
def touchedClasses (lines : SortedSet CodeLine) : SortedSet String :=
  .ofList (lines.toList.map (·.className))

/-- Records that a test class covers the units of the classes that one of its tests touches. -/
def coverUnits (root : Node) (store : Store α) (test : CoveredTest) : Store α :=
  (touchedClasses test.lines).toList.foldl (fun store className =>
    match store.resolveClass root className with
    | none => store
    | some found => store.cover found.unit [test.id.className]) store

/-- Records which test classes cover which unit; a unit that none covers gets the empty set. -/
def recordCoverage (root : Node) (store : Store α) (tests : List CoveredTest) : Store α :=
  tests.foldl (coverUnits root) (root.units.foldl (fun s u => s.cover u []) store)

/-- The number of distinct lines of each test class. -/
def linesPerTestClass (tests : List CoveredTest) : List (String × Nat) :=
  (SortedSet.ofList (tests.map (·.id.className))).toList.map fun c =>
    (c, (coveredLines (tests.filter (·.id.className = c))).size)

/-! ## Clearing what is not suspicious enough -/

/-- Clears the statements below the threshold and, if there is a limit, all but the highest ones;
says how many stay. -/
def clearLow (policy : SuspicionPolicy α) (root : Node) (store : Store α) : Nat × Store α :=
  let suspicious := store.suspects root
  let low := suspicious.filter fun n => store.suspicion n < policy.threshold
  let high := suspicious.filter fun n => !(store.suspicion n < policy.threshold)
  let store := low.foldl Store.clear store
  match policy.limit with
  | none => (high.length, store)
  | some limit =>
    if limit < high.length then
      -- a statement at two places may be kept at one and cleared at the other; clearing wins
      let ranking := ranked store.suspicion high
      (limit, (ranking.drop limit).foldl Store.clear store)
    else (high.length, store)

def localize [Root α] (policy : SuspicionPolicy α) (root : Node) (results : List TestResult)
    (coverage : Coverage) (store : Store α) : SuspicionReport α × Store α :=
  let tests := covered (outcomes results) coverage
  let scoring := scoreLines root store (spectra results coverage)
  let store := recordCoverage root scoring.store tests
  let (kept, store) := clearLow policy root store
  ({ lines := ranked LineScore.score scoring.lines
     unknownClasses := scoring.unknown
     bareLines := (scoring.lines.filter (·.statements = 0)).map (·.location)
     linesPerTestClass := linesPerTestClass tests
     raised := scoring.lines.foldl (fun raised line => raised + line.statements) 0
     kept := kept }, store)

end Localization

end GeneticRepair
