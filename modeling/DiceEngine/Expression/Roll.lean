import DiceEngine.Expression
import DiceEngine.Random.Face

/-!
# Rolling

The value of an expression on words from a source. The dice of a group are thrown one after
another, and all of them before any is dropped; the terms are evaluated from left to right, each
joining the total before the next one is thrown.
-/

namespace DiceEngine

variable {σ : Type} [WordSource σ]

/-- Throw all dice of the group. -/
def DieGroup.throw (g : DieGroup) : Draw σ (List Int) := Draw.faces g.sides g.quantity

/-- Throw the dice and add up those that are kept. -/
def DieGroup.roll (g : DieGroup) : Draw σ Int := do
  return g.keptSum (← g.throw)

/-- The value of a throw together with all its faces. -/
def DieGroup.rollShown (g : DieGroup) : Draw σ (Int × List Int) := do
  let faces ← g.throw
  return (g.keptSum faces, faces)

/-- The value of a term. -/
def Term.roll : Term → Draw σ Int
  | literal value => pure value
  | dice g => g.roll

/-- The value of a term together with all faces thrown for it. -/
def Term.rollShown : Term → Draw σ (Int × List Int)
  | literal value => pure (value, [])
  | dice g => g.rollShown

/-- The total of an expression. -/
def Expression.roll (e : Expression) : Draw σ Int := do
  (← e.steps).foldlM (fun total (op, t) => do op.apply total (← t.roll)) 0

end DiceEngine
