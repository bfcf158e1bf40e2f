import DiceEngine.Fault

/-!
# Binomial coefficients

A coefficient is climbed to along its row, from each coefficient to the next by one product and one
exact quotient. The products have 128 bits, and a product that does not fit is a fault.
-/

namespace DiceEngine.Binomial

/-- Products are below this bound. -/
def limit : Nat := Nat.pow 2 128

/-- The coefficient `steps` places behind the coefficient `c`, which is at place `i` of row `n`. -/
def climb (n : Nat) : (steps i c : Nat) → Except Fault Nat
  | 0, _, c => .ok c
  | steps + 1, i, c =>
    if c * (n - i) < limit then climb n steps (i + 1) (c * (n - i) / (i + 1))
    else .error .mulOverflow

/-- How many ways there are to choose `r` of `n`. A row reads the same from both ends, and the
nearer end is the one to climb from. -/
def choose (n r : Nat) : Except Fault Nat :=
  if n < r then .ok 0 else climb n (min r (n - r)) 0 1

/-- The coefficients of row `n` at `count` places from place `i` on. -/
def rowFrom (n : Nat) : (count i : Nat) → Except Fault (List Nat)
  | 0, _ => .ok []
  | count + 1, i => do
    let c ← choose n i
    let cs ← rowFrom n count (i + 1)
    .ok (c :: cs)

/-- The whole row `n`, which has one coefficient more than `n`. -/
def row (n : Nat) : Except Fault (List Nat) := rowFrom n (n + 1) 0

end DiceEngine.Binomial
