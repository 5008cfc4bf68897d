import GeneticRepair.Assessment.Evaluator
import GeneticRepair.Evolution.Crossover
import GeneticRepair.Evolution.Mutation
import GeneticRepair.Evolution.Oracle

/-!
# `Evolution/Search.lean` — state and collaborators of a search

A search owns its evaluator, its random words and its book-keeping, and keeps them from run to run.
It works with an executor and, if one is attached, an oracle; between generations it looks whether
it has been cancelled.
-/

set_option autoImplicit false

namespace GeneticRepair

inductive Outcome where
  | repaired
  | exhausted
  | unfit
  | cancelled
deriving DecidableEq, Repr

inductive Phase where
  | idle
  | evolving (generation : Nat)
  | ended (outcome : Outcome)
deriving DecidableEq, Repr

/-- What happened in a run. -/
structure Tally (α : Type) where
  generations : Nat
  evaluations : Nat
  insertions : Nat
  deletions : Nat
  refusedMutations : Nat
  /-- Mutations that found nothing to change. -/
  idleMutations : Nat
  oracleCalls : Nat
  /-- Questions that brought no proposal. -/
  oracleMisses : Nat
  crossings : Nat
  /-- Pairs of parents that do not diverge. -/
  missedCrossings : Nat
  /-- The best fitness at the start and after each generation. -/
  history : List α

def Tally.zero {α : Type} : Tally α := ⟨0, 0, 0, 0, 0, 0, 0, 0, 0, 0, []⟩

structure RunReport (α : Type) where
  outcome : Outcome
  /-- The best variant, or the fix. -/
  best : Variant α
  bestFitness : α
  maxFitness : α
  stats : Tally α

def RunReport.isRepaired {α : Type} (r : RunReport α) : Bool := r.outcome = .repaired

/-- The orders in which the batches of a run are done. -/
structure Schedule where
  /-- The numbers of the jobs of a generation, for a batch of the given size. -/
  order : (generation size : Nat) → List Nat
  /-- Every job is done once. -/
  perm : ∀ generation size, (order generation size).Perm (List.range size)

def Schedule.inOrder : Schedule := ⟨fun _ => List.range, fun _ _ => .refl _⟩

/-- What a search works with. -/
structure Collaborators (α ω : Type) where
  executor : Executor α ω
  /-- Proposes patches, if attached. -/
  oracle : Option (Oracle α ω)
  cancelled : ω → Bool × ω
  schedule : Schedule
  /-- The seed of runs whose settings have none. -/
  seed : UInt64

/-- A search with everything that lasts from run to run. -/
structure Search (α ω : Type) where
  bench : Bench α ω
  rng : WordStream
  nextId : Nat
  phase : Phase
  stats : Tally α

namespace Search

variable {α ω : Type}

def new (bench : Bench α ω) : Search α ω := ⟨bench, .ofList [], 0, .idle, .zero⟩

/-- Forgets the previous run, except for what the evaluator keeps, and takes up a seed. -/
def restart (seed : UInt64) (s : Search α ω) : Search α ω :=
  { s with rng := .ofSeed seed, nextId := 0, phase := .idle, stats := .zero }

def record (f : Tally α → Tally α) : StateM (Search α ω) Unit :=
  modify fun s => { s with stats := f s.stats }

def nextNumber : StateM (Search α ω) Nat := fun s => (s.nextId, { s with nextId := s.nextId + 1 })

/-- Computes with random words. -/
def withWords {β : Type} (f : WordStream → β × WordStream) : StateM (Search α ω) β := fun s =>
  let (result, rng) := f s.rng
  (result, { s with rng := rng })

/-- Computes with random words on the marks. -/
def withStore {β : Type} (f : WordStream → StoreM α (β × WordStream)) : StateM (Search α ω) β :=
  fun s =>
    let ((result, rng), store) := f s.rng s.bench.store
    (result, { s with rng := rng, bench := { s.bench with store := store } })

/-- Computes on the evaluator and its surroundings. -/
def onBench {β : Type} (f : Bench α ω → β × Bench α ω) : StateM (Search α ω) β := fun s =>
  let (result, bench) := f s.bench
  (result, { s with bench := bench })

def isCancelled (c : Collaborators α ω) : StateM (Search α ω) Bool :=
  onBench fun b =>
    let (yes, memory) := c.cancelled b.memory
    (yes, { b with memory := memory })

end Search

end GeneticRepair
