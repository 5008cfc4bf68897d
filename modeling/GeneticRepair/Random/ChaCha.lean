/-!
# `Random/ChaCha.lean` — the ChaCha block function

A block of sixteen words from a key of eight words and a block number: constants, key, number and
a zero nonce are mixed by double rounds and added to what they were. The number of double rounds is
a parameter. A 64-bit seed is spread over the key by a linear congruential step whose output is
permuted.
-/

set_option autoImplicit false

namespace GeneticRepair.ChaCha

/-- The sixteen words that are mixed. -/
abbrev Block := Vector UInt32 16

/-- Rotation towards the high end, by less than the width. -/
def rotateLeft (x n : UInt32) : UInt32 := (x <<< n) ||| (x >>> (32 - n))

/-- Mixes four words of the block. -/
def quarterRound (v : Block) (a b c d : Fin 16) : Block :=
  let v := v.set a (v[a] + v[b])
  let v := v.set d (rotateLeft (v[d] ^^^ v[a]) 16)
  let v := v.set c (v[c] + v[d])
  let v := v.set b (rotateLeft (v[b] ^^^ v[c]) 12)
  let v := v.set a (v[a] + v[b])
  let v := v.set d (rotateLeft (v[d] ^^^ v[a]) 8)
  let v := v.set c (v[c] + v[d])
  v.set b (rotateLeft (v[b] ^^^ v[c]) 7)

/-- Mixes the four columns, then the four diagonals. -/
def doubleRound (v : Block) : Block :=
  let v := quarterRound v 0 4 8 12
  let v := quarterRound v 1 5 9 13
  let v := quarterRound v 2 6 10 14
  let v := quarterRound v 3 7 11 15
  let v := quarterRound v 0 5 10 15
  let v := quarterRound v 1 6 11 12
  let v := quarterRound v 2 7 8 13
  quarterRound v 3 4 9 14

/-- The double rounds of a block. -/
def mix : Nat → Block → Block
  | 0, v => v
  | n + 1, v => mix n (doubleRound v)

/-- The block before mixing: the words of "expand 32-byte k", the key, the number of the block in
two words and a zero nonce. -/
def initial (key : Vector UInt32 8) (number : UInt64) : Block :=
  #v[0x61707865, 0x3320646e, 0x79622d32, 0x6b206574,
    key[0], key[1], key[2], key[3], key[4], key[5], key[6], key[7],
    number.toUInt32, (number >>> 32).toUInt32, 0, 0]

/-- A mixed block, added word by word to what it was made from. -/
def block (doubleRounds : Nat) (key : Vector UInt32 8) (number : UInt64) : Block :=
  let start := initial key number
  start.zipWith (· + ·) (mix doubleRounds start)

/-- One step of the congruential generator that spreads a seed. -/
def advance (state : UInt64) : UInt64 := state * 6364136223846793005 + 11634580027462260723

/-- The word read off a state: its high bits folded and rotated by the topmost five. -/
def output (state : UInt64) : UInt32 :=
  let x := (((state >>> 18) ^^^ state) >>> 27).toUInt32
  let r := (state >>> 59).toUInt32
  (x >>> r) ||| (x <<< ((32 - r) &&& 31))

/-- The next words of a key. -/
def spread : Nat → UInt64 → List UInt32
  | 0, _ => []
  | n + 1, state => output (advance state) :: spread n (advance state)

theorem length_spread (n : Nat) (state : UInt64) : (spread n state).length = n := by
  induction n generalizing state with
  | zero => rfl
  | succ n ih => simp [spread, ih]

/-- The key of a seed. -/
def keyOfSeed (seed : UInt64) : Vector UInt32 8 :=
  ⟨(spread 8 seed).toArray, by simp [length_spread]⟩

end GeneticRepair.ChaCha
