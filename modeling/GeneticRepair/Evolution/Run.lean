import GeneticRepair.Evolution.Breeding

/-!
# `Evolution/Run.lean` — running a search

A run evaluates the program under repair and then generation after generation, until a variant
passes all tests, the generations are used up, or it is cancelled. The variants of a generation are
evaluated one after the other, stopping at a fix, or as one batch.
-/

set_option autoImplicit false

namespace GeneticRepair.Search

variable {α ω : Type} [Scalar α]

/-- Whether a variant has the fitness of a repair. -/
def isRepair (maximum : α) (v : Variant α) : Bool := v.fitness.any (maximum - Scalar.tolerance ≤ ·)

/-- Ends a run with a variant. -/
def conclude (outcome : Outcome) (best : Variant α) (maximum : α) :
    StateM (Search α ω) (RunReport α) := fun s =>
  let s := { s with phase := .ended outcome }
  (⟨outcome, best, fitnessOrZero best, maximum, s.stats⟩, s)

/-- The best variant offered so far, or the given one. -/
def bestOr (v : Variant α) : StateM (Search α ω) (Variant α) := do
  return (← get).bench.evaluator.best.getD v

/-- A generation after its evaluation, with the fix if there is one. -/
abbrev Evaluated (α : Type) := List (Variant α) × Option (Variant α)

variable [Root α]

/-- Evaluates the variants without fitness one after the other and stops at a fix. -/
def evaluateInTurn (c : Collaborators α ω) (maximum : α) :
    List (Variant α) → StateM (Search α ω) (Except RepairFault (Evaluated α))
  | [] => return .ok ([], none)
  | v :: vs => do
    if v.fitness.isSome then
      let rest ← evaluateInTurn c maximum vs
      return rest.map fun (vs, fix) => (v :: vs, fix)
    else
      match ← onBench (Bench.evaluate c.executor v) with
      | .error e => return .error e
      | .ok (_, v) =>
        record fun t => { t with evaluations := t.evaluations + 1 }
        onBench fun b => ((), b.offer v)
        if isRepair maximum v then return .ok (v :: vs, some v)
        else
          let rest ← evaluateInTurn c maximum vs
          return rest.map fun (vs, fix) => (v :: vs, fix)

/-- Evaluates some numbered variants and keeps what came out under their numbers. -/
def evaluateJobs (c : Collaborators α ω) :
    List (Nat × Variant α) → StateM (Search α ω) (List (Nat × Except RepairFault (Variant α)))
  | [] => return []
  | (job, v) :: jobs => do
    let result ← onBench (Bench.evaluate c.executor v)
    let rest ← evaluateJobs c jobs
    return (job, result.map (·.2)) :: rest

/-- Puts the results of a batch into the places of the variants without fitness; the first error in
the order of the generation counts. -/
def settle (results : List (Nat × Except RepairFault (Variant α))) :
    Nat → List (Variant α) → Except RepairFault (List (Variant α))
  | _, [] => .ok []
  | job, v :: vs =>
    if v.fitness.isSome then (settle results job vs).map (v :: ·)
    else
      match results.lookup job with
      | some (.error e) => .error e
      | some (.ok v) => (settle results (job + 1) vs).map (v :: ·)
      | none => (settle results (job + 1) vs).map (v :: ·)

/-- Evaluates all variants of the numbered generation without fitness as one batch, then offers
every variant and looks for a fix. -/
def evaluateBatch (c : Collaborators α ω) (maximum : α) (number : Nat)
    (generation : List (Variant α)) :
    StateM (Search α ω) (Except RepairFault (Evaluated α)) := do
  let unscored := generation.filter (·.fitness.isNone)
  let order := c.schedule.order number unscored.length
  let results ← evaluateJobs c (order.filterMap fun job => unscored[job]?.map (job, ·))
  record fun t => { t with evaluations := t.evaluations + unscored.length }
  match settle results 0 generation with
  | .error e => return .error e
  | .ok evaluated =>
    onBench fun b => ((), evaluated.foldl Bench.offer b)
    return .ok (evaluated, evaluated.find? (isRepair maximum))

def evaluateGeneration (settings : Settings α) (c : Collaborators α ω) (maximum : α)
    (number : Nat) (generation : List (Variant α)) :
    StateM (Search α ω) (Except RepairFault (Evaluated α)) :=
  if settings.parallel then evaluateBatch c maximum number generation
  else evaluateInTurn c maximum generation

/-- Appends the best fitness so far to the history. -/
def recordBest : StateM (Search α ω) Unit := fun s =>
  let best := (s.bench.evaluator.best.map fitnessOrZero).getD 0
  record (fun t => { t with history := t.history ++ [best] }) s

def enter (generation : Nat) : StateM (Search α ω) Unit := fun s =>
  record (fun t => { t with generations := generation })
    { s with phase := .evolving generation }

/-- Works on the remaining generations, given the population that the last one left. -/
def evolve (settings : Settings α) (c : Collaborators α ω) (baseline : Variant α) (maximum : α)
    (generation : Nat) (population : List (Variant α)) :
    (remaining : Nat) → StateM (Search α ω) (Except RepairFault (RunReport α))
  | 0 => do
    let best ← bestOr baseline
    return .ok (← conclude .exhausted best maximum)
  | remaining + 1 => do
    if ← isCancelled c then
      let best ← bestOr baseline
      return .ok (← conclude .cancelled best maximum)
    else
      enter generation
      let next ← nextGeneration settings c baseline population
      match ← evaluateGeneration settings c maximum generation next with
      | .error e => return .error e
      | .ok (_, some fix) => return .ok (← conclude .repaired fix maximum)
      | .ok (next, none) =>
        recordBest
        evolve settings c baseline maximum (generation + 1) next remaining

/-- Starts the search from a program that has been evaluated. -/
def searchFrom (settings : Settings α) (c : Collaborators α ω) (baseline : Variant α)
    (maximum : α) : StateM (Search α ω) (Except RepairFault (RunReport α)) := do
  onBench fun b => ((), b.offer baseline)
  record fun t => { t with history := t.history ++ [fitnessOrZero baseline] }
  if isRepair maximum baseline then return .ok (← conclude .repaired baseline maximum)
  else evolve settings c baseline maximum 1 [] settings.maxGenerations

/-- Runs a search for a repair of a program. Settings out of range are refused before anything
changes. -/
def run (settings : Settings α) (c : Collaborators α ω) (root : Node) :
    StateM (Search α ω) (Except RepairFault (RunReport α)) := do
  match settings.validate with
  | .error fault => return .error (.badSetting fault)
  | .ok () =>
    modify (restart (settings.seed.getD c.seed))
    let baseline := Variant.new (← nextNumber) root
    match ← onBench (Bench.establish c.executor root) with
    -- a program that cannot be tested ends the run; every other fault is passed on
    | .error (.unfitBaseline _) => return .ok (← conclude .unfit baseline 0)
    | .error e => return .error e
    | .ok assessment =>
      match (← get).bench.evaluator.baseline with
      | none => return .error .noBaseline
      | some base =>
        searchFrom settings c (baseline.assess assessment.fitness assessment.failing)
          base.maximum

end GeneticRepair.Search
