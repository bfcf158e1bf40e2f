import DiceEngine.Random.Source

/-!
# The ChaCha keystream as a source of words

The blocks of a ChaCha keystream, one after another from block zero, read as words of 64 bits with
their low half first. A block is made of a key and the number of the block by some rounds of
additions, rotations and exclusive ors on sixteen words of 32 bits.

A source is a key, a number of double rounds and a place in the stream. The block at that place is
kept beside it (`block_eq`), so that it is made once for its eight words.
-/

namespace DiceEngine

namespace ChaCha

/-- The words that a block is made of. -/
abbrev Cells := Vector UInt32 16

/-- The constants in front of the key: the ASCII text `expand 32-byte k`. -/
def constants : Vector UInt32 4 := #v[0x61707865, 0x3320646e, 0x79622d32, 0x6b206574]

def rotateLeft (x : UInt32) (n : UInt32) : UInt32 := x <<< n ||| x >>> (32 - n)

/-- Mix four of the words. -/
def quarterRound (a b c d : Fin 16) (s : Cells) : Cells :=
  let xa := s[a] + s[b]
  let xd := rotateLeft (s[d] ^^^ xa) 16
  let xc := s[c] + xd
  let xb := rotateLeft (s[b] ^^^ xc) 12
  let xa := xa + xb
  let xd := rotateLeft (xd ^^^ xa) 8
  let xc := xc + xd
  let xb := rotateLeft (xb ^^^ xc) 7
  (((s.set a xa).set b xb).set c xc).set d xd

/-- Mix the columns, then the diagonals. -/
def doubleRound (s : Cells) : Cells :=
  s |> quarterRound 0 4 8 12 |> quarterRound 1 5 9 13 |> quarterRound 2 6 10 14
    |> quarterRound 3 7 11 15 |> quarterRound 0 5 10 15 |> quarterRound 1 6 11 12
    |> quarterRound 2 7 8 13 |> quarterRound 3 4 9 14

/-- The words of a block before the rounds: constants, key, the number of the block, and zeros. -/
def start (key : Vector UInt32 8) (index : UInt64) : Cells :=
  constants ++ key ++ #v[index.toUInt32, (index >>> 32).toUInt32, 0, 0]

/-- A block of the keystream. -/
def block (doubleRounds : Nat) (key : Vector UInt32 8) (index : Nat) : Vector UInt64 8 :=
  let s := start key index.toUInt64
  let mixed := Nat.repeat doubleRound doubleRounds s
  let cells := s.zipWith (· + ·) mixed
  Vector.ofFn fun i : Fin 8 => cells[2 * i.val].toUInt64 ||| cells[2 * i.val + 1].toUInt64 <<< 32

end ChaCha

/-- A ChaCha keystream from some place on. -/
structure ChaCha where
  doubleRounds : Nat
  key : Vector UInt32 8
  /-- How many words have been drawn. -/
  position : Nat
  /-- The block that holds the next word. -/
  buffer : Vector UInt64 8
  block_eq : buffer = ChaCha.block doubleRounds key (position / 8)

namespace ChaCha

/-- The stream of a key from its beginning. -/
def ofKey (doubleRounds : Nat) (key : Vector UInt32 8) : ChaCha where
  doubleRounds
  key
  position := 0
  buffer := block doubleRounds key 0
  block_eq := rfl

/-- The next word. -/
def word (s : ChaCha) : UInt64 := s.buffer[s.position % 8]

/-- The stream without its next word. -/
def advance (s : ChaCha) : ChaCha where
  doubleRounds := s.doubleRounds
  key := s.key
  position := s.position + 1
  buffer :=
    if (s.position + 1) % 8 = 0 then block s.doubleRounds s.key ((s.position + 1) / 8)
    else s.buffer
  block_eq := by
    split
    · rfl
    · rw [s.block_eq, show (s.position + 1) / 8 = s.position / 8 by omega]

/-- A stream has 2^64 blocks of eight words, and begins again after them. -/
instance : WordSource ChaCha where
  next s := some (s.word, s.advance)
  horizon _ := Nat.pow 2 67

/-- The states of the generator that stretches a seed to a key: each is made of the one before. -/
def stretch (state : UInt64) : UInt64 := state * 6364136223846793005 + 11634580027462260723

/-- The word of a key that a state of that generator gives. -/
def keyWord (state : UInt64) : UInt32 :=
  let x := (((state >>> 18) ^^^ state) >>> 27).toUInt32
  let turn := (state >>> 59).toUInt32
  x >>> turn ||| x <<< ((32 - turn) % 32)

/-- The key of a seed of 64 bits. -/
def keyOfSeed (seed : UInt64) : Vector UInt32 8 :=
  Vector.ofFn fun i => keyWord (Nat.repeat stretch (i + 1) seed)

/-- The stream of a seed. -/
def ofSeed (doubleRounds : Nat) (seed : UInt64) : ChaCha := ofKey doubleRounds (keyOfSeed seed)

/-- The stream of eight rounds. -/
abbrev ofSeed8 : UInt64 → ChaCha := ofSeed 4

/-- The stream of twenty rounds. -/
abbrev ofSeed20 : UInt64 → ChaCha := ofSeed 10

end ChaCha

end DiceEngine
