import DiceEngine.Fault
import DiceEngine.Random.Source

/-!
# Faces from words

A word of 64 bits is multiplied by the number of sides. The high half of the product chooses the
face, and words whose low half lies beyond a bound are drawn again. The bound leaves the same
number of words to each face.

A draw is a computation on a source that keeps the words drawn also where it ends in a fault.
-/

namespace DiceEngine

/-- A computation that draws words from a source. -/
abbrev Draw (σ : Type) := ExceptT Fault (StateM σ)

namespace Draw

variable {σ : Type} [WordSource σ]

/-- Draw one word. -/
def word : Draw σ UInt64 := ExceptT.mk fun s =>
  match WordSource.next s with
  | some (w, s') => (.ok w, s')
  | none => (.error .outOfWords, s)

/-- The words whose product with the number of sides has a low half up to this are accepted. -/
def acceptedUpTo (sides : Nat) : Nat := UInt64.size - 1 - (UInt64.size - sides) % sides

/-- The face that a word chooses, if it is accepted. -/
def faceOf (sides : Nat) (w : UInt64) : Option Nat :=
  let product := w.toNat * sides
  if product % UInt64.size ≤ acceptedUpTo sides then some (1 + product / UInt64.size) else none

/-- Draw words until one is accepted, at most `tries` of them. -/
def faceWithin (sides : Nat) : (tries : Nat) → Draw σ Nat
  | 0 => throw .neverAccepted
  | tries + 1 => do
    match faceOf sides (← word) with
    | some face => pure face
    | none => faceWithin sides tries

/-- Draw a face. Giving up at the horizon of the source gives up only what would never end. -/
def face (sides : Nat) : Draw σ Nat := do
  faceWithin sides (WordSource.horizon (← get))

/-- Draw the faces of some dice. -/
def faces (sides : Nat) : (quantity : Nat) → Draw σ (List Int)
  | 0 => pure []
  | quantity + 1 => do
    let f ← face sides
    let fs ← faces sides quantity
    pure (Int.ofNat f :: fs)

end Draw

end DiceEngine
