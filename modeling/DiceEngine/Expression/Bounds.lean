import DiceEngine.Expression

/-!
# Bounds of a total

The least and the greatest total of an expression, folded over its terms from left to right. A
subtracted term takes part with its other bound.
-/

namespace DiceEngine.Expression

/-- The least total. -/
def minimum (e : Expression) : Except Fault Int := do
  (← e.steps).foldlM (fun total (op, t) =>
    match op with
    | .add => Total.add total t.low
    | .sub => Total.sub total t.high) 0

/-- The greatest total. -/
def maximum (e : Expression) : Except Fault Int := do
  (← e.steps).foldlM (fun total (op, t) =>
    match op with
    | .add => Total.add total t.high
    | .sub => Total.sub total t.low) 0

end DiceEngine.Expression
