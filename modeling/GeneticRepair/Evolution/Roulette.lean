import GeneticRepair.Random.WordStream

/-!
# `Evolution/Roulette.lean` — drawing in proportion to weights

Weights are turned into the ascending bounds of slots on the unit interval; a negative or undefined
weight counts as zero, and if no weight is positive all slots are equally wide. A single draw looks
up the slot of a random pointer. Several draws at once use equally spaced pointers with one random
offset, which spreads them as evenly as the weights allow, and find all slots in one pass.
-/

set_option autoImplicit false

namespace GeneticRepair.Roulette

variable {α : Type} [Scalar α]

/-- A weight as it counts. -/
def clean (w : α) : α := if 0 < w then w else 0

/-- The sums of the first one, two and so on of some shares, behind what has been summed up. -/
def runningSums (sum : α) : List α → List α
  | [] => []
  | x :: xs => (sum + x) :: runningSums (sum + x) xs

/-- Sets the last entry to one. -/
def closeAtOne : List α → List α
  | [] => []
  | [_] => [1]
  | x :: y :: l => x :: closeAtOne (y :: l)

/-- The upper bounds of the slots; the last one is one. -/
def bounds (weights : List α) : List α :=
  let weights := weights.map clean
  let total := weights.foldl (· + ·) 0
  let n := weights.length
  closeAtOne <|
    if 0 < total then runningSums 0 (weights.map (· / total))
    else (List.range n).map fun (i : Nat) => ((i + 1 : Nat) : α) / (n : α)

/-- The slot of a pointer: the first one whose bound is above it, or the last one. -/
def slot (bounds : List α) (pointer : α) : Nat :=
  (bounds.findIdx? (pointer < ·)).getD (bounds.length - 1)

/-- Draws a slot; nothing is drawn if there are no weights. -/
def draw (weights : List α) (rng : WordStream) : Option Nat × WordStream :=
  if weights.isEmpty then (none, rng)
  else
    let (pointer, rng) : α × WordStream := rng.unit
    (some (slot (bounds weights) pointer), rng)

/-- Equally spaced pointers from an offset on. -/
def pointers (k : Nat) (offset : α) : List α :=
  let step := 1 / (k : α)
  (List.range k).map fun (i : Nat) => offset + (i : α) * step

/-- How many slots, from the first one on, have to be passed to get to the slot of a pointer; the
last slot is never passed. -/
def passed (pointer : α) : List α → Nat
  | [] => 0
  | [_] => 0
  | b :: c :: l => if b ≤ pointer then passed pointer (c :: l) + 1 else 0

/-- The slots of pointers, found in one pass that never goes back. -/
def scan (index : Nat) (bounds : List α) : List α → List Nat
  | [] => []
  | p :: ps =>
    let steps := passed p bounds
    (index + steps) :: scan (index + steps) (bounds.drop steps) ps

/-- The slots of `k` equally spaced pointers. -/
def spread (bounds : List α) (k : Nat) (offset : α) : List Nat :=
  if k = 0 || bounds.isEmpty then [] else scan 0 bounds (pointers k offset)

/-- Draws `k` slots at once by one random offset below the spacing. -/
def drawMany (bounds : List α) (k : Nat) (rng : WordStream) : List Nat × WordStream :=
  if k = 0 || bounds.isEmpty then ([], rng)
  else
    let (u, rng) : α × WordStream := rng.unit
    (spread bounds k (u * (1 / (k : α))), rng)

end GeneticRepair.Roulette
