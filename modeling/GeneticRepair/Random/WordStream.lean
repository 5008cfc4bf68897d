import GeneticRepair.Numeric.Scalar
import GeneticRepair.Random.ChaCha

/-!
# `Random/WordStream.lean` — random words and what is drawn from them

A random generator is an endless stream of 32-bit words with a reading position. All draws are
defined on the stream, so a run is a function of it, and how much a step has drawn can be read off
the position.
-/

set_option autoImplicit false

namespace GeneticRepair

/-- An endless stream of words, and how many of them have been read. -/
structure WordStream where
  /-- The word at each place. -/
  word : Nat → UInt32
  position : Nat

namespace WordStream

/-- The given words, then zeros for ever. -/
def ofList (words : List UInt32) : WordStream := ⟨fun i => words.getD i 0, 0⟩

/-- The stream of a seed: the words of its blocks with six double rounds, block after block. -/
def ofSeed (seed : UInt64) : WordStream :=
  let key := ChaCha.keyOfSeed seed
  ⟨fun i => (ChaCha.block 6 key (i / 16).toUInt64).toList.getD (i % 16) 0, 0⟩

/-- The first two blocks of the stream, each under its number. -/
theorem ofSeed_eq (seed : UInt64) :
    ofSeed seed = ⟨fun i =>
      if i < 16 then (ChaCha.block 6 (ChaCha.keyOfSeed seed) 0).toList.getD i 0
      else if i < 32 then (ChaCha.block 6 (ChaCha.keyOfSeed seed) 1).toList.getD (i - 16) 0
      else (ofSeed seed).word i, 0⟩ := by
  refine congrArg (WordStream.mk · 0) (funext fun i => ?_)
  split
  · next h =>
    rw [Nat.div_eq_of_lt h, Nat.mod_eq_of_lt h]
    rfl
  · split
    · next h h' =>
      rw [show i / 16 = 1 by omega, show i % 16 = i - 16 by omega]
      rfl
    · rfl

def next32 (s : WordStream) : UInt32 × WordStream :=
  (s.word s.position, { s with position := s.position + 1 })

/-- Reads two words; the first one is the low half. -/
def next64 (s : WordStream) : UInt64 × WordStream :=
  let (low, s) := s.next32
  let (high, s) := s.next32
  (low.toUInt64 ||| (high.toUInt64 <<< 32), s)

/-- Draws a natural number below `n`, where `1 ≤ n < 2 ^ 32`. One word is scaled to the range; only
if its fraction could still be carried over by the next word, that word is read as well. -/
def below (n : Nat) (s : WordStream) : Nat × WordStream :=
  let (w, s) := s.next32
  let scaled := w.toNat * n
  let whole := scaled / Nat.pow 2 32
  let fraction := scaled % Nat.pow 2 32
  -- the next word can add less than `n` to the fraction
  if Nat.pow 2 32 - n < fraction then
    let (w, s) := s.next32
    (if Nat.pow 2 32 ≤ fraction + w.toNat * n / Nat.pow 2 32 then whole + 1 else whole, s)
  else (whole, s)

variable {α : Type} [Scalar α]

/-- Draws a number from zero up to but not including one, a multiple of `2 ^ -52`. -/
def unit (s : WordStream) : α × WordStream :=
  let (w, s) := s.next64
  ((((w >>> 12).toNat : Nat) : α) / ((Nat.pow 2 52 : Nat) : α), s)

/-- Says yes with probability `p`. Certainty takes no word; every other probability takes two. -/
def chance (p : α) (s : WordStream) : Bool × WordStream :=
  if 1 ≤ p then (true, s)
  else
    let (w, s) := s.next64
    (w.toNat < Scalar.floor (p * ((Nat.pow 2 64 : Nat) : α)), s)

end WordStream

end GeneticRepair
