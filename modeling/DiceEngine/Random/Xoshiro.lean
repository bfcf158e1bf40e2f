import DiceEngine.Random.Source

/-!
# The generator xoshiro256++

A small generator of four words. A step is one to one on its states, and the state of four zeros,
which no step leaves, is never chosen: its place is taken by the state that SplitMix64 gives.
-/

namespace DiceEngine

/-- A state of the generator. -/
structure Xoshiro where
  s0 : UInt64
  s1 : UInt64
  s2 : UInt64
  s3 : UInt64
  deriving DecidableEq, Repr

namespace Xoshiro

def rotateLeft (x n : UInt64) : UInt64 := x <<< n ||| x >>> (64 - n)

/-- The word that a state gives. -/
def word (s : Xoshiro) : UInt64 := rotateLeft (s.s0 + s.s3) 23 + s.s0

/-- The state behind a state. -/
def advance (s : Xoshiro) : Xoshiro :=
  let s2 := s.s2 ^^^ s.s0
  let s3 := s.s3 ^^^ s.s1
  ⟨s.s0 ^^^ s3, s.s1 ^^^ s2, s2 ^^^ s.s1 <<< 17, rotateLeft s3 45⟩

/-- Four words of 64 bits have 2^256 states. -/
instance : WordSource Xoshiro where
  next s := some (s.word, s.advance)
  horizon _ := Nat.pow 2 256

/-- The output of SplitMix64 for a state of its counter. -/
def splitMix (counter : UInt64) : UInt64 :=
  let z := (counter ^^^ counter >>> 30) * 0xbf58476d1ce4e5b9
  let z := (z ^^^ z >>> 27) * 0x94d049bb133111eb
  z ^^^ z >>> 31

/-- The step of the counter of SplitMix64. -/
def goldenGamma : UInt64 := 0x9e3779b97f4a7c15

/-- The state of four words, or the first four outputs of SplitMix64 in place of zeros. -/
def ofWords (a b c d : UInt64) : Xoshiro :=
  if a = 0 ∧ b = 0 ∧ c = 0 ∧ d = 0 then
    ⟨splitMix goldenGamma, splitMix (2 * goldenGamma), splitMix (3 * goldenGamma),
      splitMix (4 * goldenGamma)⟩
  else ⟨a, b, c, d⟩

end Xoshiro

end DiceEngine
