/-!
# The keystream of random words

Twelve rounds of the ChaCha permutation, keyed from a 64-bit seed. The words of the block with
counter zero come first, then those of counter one, and so on; a `Keystream` is a key with a
position in that sequence.
-/

namespace Assay

namespace Keystream

/-- The words of one block. -/
abbrev Block := Vector UInt32 16

/-- A word rotated to the left. -/
def rotateLeft (x : UInt32) (n : UInt32) : UInt32 := (x <<< n) ||| (x >>> (32 - n))

/-- A word rotated to the right, by less than its width. -/
def rotateRight (x : UInt32) (n : UInt32) : UInt32 := if n = 0 then x else rotateLeft x (32 - n)

/-- The quarter round on four words of a block. -/
def quarterRound (s : Block) (a b c d : Fin 16) : Block :=
  let s := s.set a (s[a] + s[b])
  let s := s.set d (rotateLeft (s[d] ^^^ s[a]) 16)
  let s := s.set c (s[c] + s[d])
  let s := s.set b (rotateLeft (s[b] ^^^ s[c]) 12)
  let s := s.set a (s[a] + s[b])
  let s := s.set d (rotateLeft (s[d] ^^^ s[a]) 8)
  let s := s.set c (s[c] + s[d])
  s.set b (rotateLeft (s[b] ^^^ s[c]) 7)

/-- A round on the columns and one on the diagonals. -/
def doubleRound (s : Block) : Block :=
  let s := quarterRound s 0 4 8 12
  let s := quarterRound s 1 5 9 13
  let s := quarterRound s 2 6 10 14
  let s := quarterRound s 3 7 11 15
  let s := quarterRound s 0 5 10 15
  let s := quarterRound s 1 6 11 12
  let s := quarterRound s 2 7 8 13
  quarterRound s 3 4 9 14

/-- The words before the rounds: constants, key, counter, and two zeros. -/
def initialBlock (key : Vector UInt32 8) (counter : UInt64) : Block :=
  #v[0x61707865, 0x3320646e, 0x79622d32, 0x6b206574,
    key[0], key[1], key[2], key[3], key[4], key[5], key[6], key[7],
    counter.toUInt32, (counter >>> 32).toUInt32, 0, 0]

/-- The block with a counter. -/
def block (key : Vector UInt32 8) (counter : UInt64) : Block :=
  let start := initialBlock key counter
  Vector.zipWith (· + ·) (Nat.repeat doubleRound 6 start) start

/-- One step of the generator that fills the key. -/
def stepSeed (state : UInt64) : UInt64 := state * 6364136223846793005 + 11634580027462260723

/-- The key word of a state. -/
def seedWord (state : UInt64) : UInt32 :=
  rotateRight (((state >>> 18) ^^^ state) >>> 27).toUInt32 (state >>> 59).toUInt32

/-- The key of a seed: the words of the eight states that follow it. -/
def keyOfSeed (seed : UInt64) : Vector UInt32 8 :=
  Vector.ofFn fun i : Fin 8 => seedWord (Nat.repeat stepSeed (i + 1) seed)

end Keystream

/-- A sequence of random words, of which the first `position` are used. -/
structure Keystream where
  key : Vector UInt32 8
  position : Nat := 0

namespace Keystream

def ofSeed (seed : UInt64) : Keystream := ⟨keyOfSeed seed, 0⟩

/-- The word at a position of the sequence. -/
def wordAt (key : Vector UInt32 8) (position : Nat) : UInt32 :=
  (block key (UInt64.ofNat (position / 16)))[Fin.ofNat 16 position]

/-- The next 32 bits. -/
def next32 : StateM Keystream UInt32 := fun stream =>
  (wordAt stream.key stream.position, { stream with position := stream.position + 1 })

/-- The next 64 bits, of which the first word is the low half. -/
def next64 : StateM Keystream UInt64 := do
  let low ← next32
  let high ← next32
  return low.toUInt64 ||| (high.toUInt64 <<< 32)

end Keystream

end Assay
