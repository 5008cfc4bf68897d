import GeneticRepair.Collection.Ranking
import GeneticRepair.Evolution.Search

/-!
# `Evolution/Breeding.lean` — from one generation to the next

The viable variants of a generation are parents in proportion to their fitness. Each pair of parents
goes on and is crossed; copies of the program under repair fill up the generation. Then every
variant is mutated, or shown to the oracle.
-/

set_option autoImplicit false

namespace GeneticRepair.Search

variable {α ω : Type} [Scalar α]

def fitnessOrZero (v : Variant α) : α := v.fitness.getD 0

/-- The variants that may be parents, the fittest first. -/
def viable (population : List (Variant α)) : List (Variant α) :=
  ranked fitnessOrZero (population.filter Variant.isViable)

@[simp] theorem mem_viable {population : List (Variant α)} {v : Variant α} :
    v ∈ viable population ↔ v ∈ population ∧ v.isViable = true := by
  rw [viable, mem_ranked, List.mem_filter]

/-- Whatever places are drawn, a viable variant stands there. -/
theorem mem_of_drawn {population : List (Variant α)} {picks : List Nat} {v : Variant α}
    (h : v ∈ picks.filterMap ((viable population)[·]?)) :
    v ∈ population ∧ v.isViable = true := by
  obtain ⟨i, -, hi⟩ := List.mem_filterMap.mp h
  exact mem_viable.mp (List.mem_of_getElem? hi)

/-- Each variant under a number of its own. -/
def renumber : List (Variant α) → StateM (Search α ω) (List (Variant α))
  | [] => return []
  | v :: vs => do
    let id ← nextNumber
    let rest ← renumber vs
    return v.copyAs id :: rest

def selectParents (settings : Settings α) (population : List (Variant α)) :
    StateM (Search α ω) (List (Variant α)) := do
  let candidates := viable population
  let k := min (settings.populationSize / 2) candidates.length
  if k = 0 then return []
  else
    let bounds := Roulette.bounds (candidates.map fitnessOrZero)
    let picks ← withWords (Roulette.drawMany bounds k)
    renumber (picks.filterMap (candidates[·]?))

/-- Crosses two parents; they go on, and so do their children if they diverge. -/
def crossPair (a b : Variant α) : StateM (Search α ω) (List (Variant α)) := do
  match ← withStore (Crossover.cross a.root b.root) with
  | .offspring first second blocks =>
    record fun t => { t with crossings := t.crossings + 1 }
    let description := s!"crossover of #{a.id} and #{b.id} ({blocks} blocks)"
    let firstId ← nextNumber
    let secondId ← nextNumber
    return [a, b, (a.copyAs firstId).become first description,
      (b.copyAs secondId).become second description]
  | .alike =>
    record fun t => { t with missedCrossings := t.missedCrossings + 1 }
    return [a, b]

/-- Crosses the parents pair by pair; one that is left over goes on alone. -/
def crossPairs : List (Variant α) → StateM (Search α ω) (List (Variant α))
  | a :: b :: rest => do
    let family ← crossPair a b
    let others ← crossPairs rest
    return family ++ others
  | rest => return rest

/-- The parents and children that open the next generation. -/
def breed (settings : Settings α) (population : List (Variant α)) :
    StateM (Search α ω) (List (Variant α)) := do
  crossPairs (← selectParents settings population)

/-- Fills a generation up with copies of the program under repair. -/
def refill (settings : Settings α) (baseline : Variant α) (next : List (Variant α)) :
    StateM (Search α ω) (List (Variant α)) := do
  let copies ← renumber (List.replicate (settings.populationSize - next.length) baseline)
  return next ++ copies

/-- Shows a variant to the oracle. A proposal replaces the program, and its faults have to be
localized anew. -/
def consult (oracle : Oracle α ω) (v : Variant α) : StateM (Search α ω) (Variant α) := do
  record fun t => { t with oracleCalls := t.oracleCalls + 1 }
  let answer ← onBench fun b =>
    let (answer, store, memory) := oracle.propose v.root v.failing (b.store, b.memory)
    (answer, { b with store := store, memory := memory })
  match answer with
  | .ok (some root) => return (v.become root "oracle patch").markStale
  | _ =>
    record fun t => { t with oracleMisses := t.oracleMisses + 1 }
    return v

def mutateByOperator (settings : Settings α) (v : Variant α) :
    StateM (Search α ω) (Variant α) := do
  match ← withStore (Mutation.mutate v.root settings.operators settings.donorScope) with
  | .changed root operator description =>
    record fun t =>
      match operator with
      | .delete => { t with deletions := t.deletions + 1 }
      | .insertBefore => { t with insertions := t.insertions + 1 }
      | .swap => t
    return v.become root description
  | .unchanged =>
    record fun t => { t with idleMutations := t.idleMutations + 1 }
    return v
  | .refused _ _ =>
    record fun t => { t with refusedMutations := t.refusedMutations + 1 }
    return v

/-- Changes a variant. With an oracle, chance decides whether it is asked instead of mutating. -/
def vary (settings : Settings α) (c : Collaborators α ω) (v : Variant α) :
    StateM (Search α ω) (Variant α) := do
  match c.oracle with
  | none => mutateByOperator settings v
  | some oracle =>
    if ← withWords (WordStream.chance settings.oracleProbability) then consult oracle v
    else mutateByOperator settings v

/-- Changes every variant of a generation in order. -/
def varyAll (settings : Settings α) (c : Collaborators α ω) :
    List (Variant α) → StateM (Search α ω) (List (Variant α))
  | [] => return []
  | v :: vs => do
    let v ← vary settings c v
    let vs ← varyAll settings c vs
    return v :: vs

/-- The next generation, ready to be evaluated. -/
def nextGeneration (settings : Settings α) (c : Collaborators α ω) (baseline : Variant α)
    (population : List (Variant α)) : StateM (Search α ω) (List (Variant α)) := do
  let bred ← breed settings population
  let full ← refill settings baseline bred
  varyAll settings c full

end GeneticRepair.Search
