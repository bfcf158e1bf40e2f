import DiceEngine.Expression
import DiceEngine.OrderStatistic

/-!
# Expected totals

The expected total of an expression, from the expected values of its terms. As expectation is
linear this is exact, rounding aside, and so it is stated for any kind of numbers.
-/

namespace DiceEngine

instance instNatCastFloat : NatCast Float := ⟨Float.ofNat⟩

instance instIntCastFloat : IntCast Float := ⟨Float.ofInt⟩

variable {α : Type} [Add α] [Sub α] [Mul α] [Div α] [NatCast α] [IntCast α]

/-- The operation on numbers of any kind. -/
def Operator.combine : Operator → α → α → α
  | add, a, b => a + b
  | sub, a, b => a - b

/-- The expected value of a throw of which all dice count. -/
def DieGroup.expectedAll (g : DieGroup) : α :=
  (g.quantity : α) * ((g.sides + 1 : Nat) : α) / ((2 : Nat) : α)

/-- The expected value of a throw. -/
def DieGroup.expected (g : DieGroup) : Except Fault α :=
  match g.keep with
  | some k =>
    if k.count < g.quantity then
      match k.selector with
      | .highest => OrderStatistic.expectedHighest g.quantity g.sides k.count
      | .lowest => OrderStatistic.expectedLowest g.quantity g.sides k.count
    else .ok g.expectedAll
  | none => .ok g.expectedAll

/-- The expected value of a term. -/
def Term.expected : Term → Except Fault α
  | literal value => .ok (value : α)
  | dice g => g.expected

/-- The expected total. -/
def Expression.expected (e : Expression) : Except Fault α := do
  (← e.steps).foldlM (fun total (op, t) => do return op.combine total (← t.expected))
    ((0 : Nat) : α)

end DiceEngine
