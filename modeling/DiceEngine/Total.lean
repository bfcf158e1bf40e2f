import DiceEngine.Fault

/-!
# Totals

A total is a signed number of 64 bits. Its sums and differences are exact, and one that leaves the
range is a fault.
-/

namespace DiceEngine.Total

/-- The least total. -/
def least : Int := -0x8000000000000000

/-- The greatest total. -/
def greatest : Int := 0x7fffffffffffffff

/-- The integers that are totals. -/
def InRange (n : Int) : Prop := least ≤ n ∧ n ≤ greatest

instance (n : Int) : Decidable (InRange n) := inferInstanceAs (Decidable (_ ∧ _))

/-- The sum of two totals. -/
def add (a b : Int) : Except Fault Int :=
  if InRange (a + b) then .ok (a + b) else .error .addOverflow

/-- The difference of two totals. -/
def sub (a b : Int) : Except Fault Int :=
  if InRange (a - b) then .ok (a - b) else .error .subOverflow

theorem add_eq_ok_iff {a b c : Int} : add a b = .ok c ↔ InRange (a + b) ∧ a + b = c := by
  unfold add; split <;> simp_all

theorem sub_eq_ok_iff {a b c : Int} : sub a b = .ok c ↔ InRange (a - b) ∧ a - b = c := by
  unfold sub; split <;> simp_all

end DiceEngine.Total
