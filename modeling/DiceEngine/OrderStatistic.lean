import DiceEngine.Binomial

/-!
# Order statistics of fair dice

The expected sum of the few highest or lowest of `n` dice. It is computed in any kind of numbers
that has the four operations: in floating point when a program asks, in rationals when a theorem
does. The order of the operations is fixed, so that rounding is too.

The chance that the `k`-th highest die, counted from zero, shows exactly a face is the sum of the
entries `0` to `k` of `faceMass`.
-/

namespace DiceEngine.OrderStatistic

variable {α : Type} [Add α] [Sub α] [Mul α] [Div α] [NatCast α]

/-- The power of a number, by squaring: `m` is the part of the result that is done. -/
def powerOnto (m a : α) (b : Nat) : α :=
  let m := if b % 2 = 1 then m * a else m
  if b / 2 = 0 then m else powerOnto m (a * a) (b / 2)
termination_by b
decreasing_by omega

def power (a : α) (b : Nat) : α := powerOnto ((1 : Nat) : α) a b

/-- The sum of a list, from left to right. -/
def sum (xs : List α) : α := xs.foldl (· + ·) ((0 : Nat) : α)

/-- The sums of all beginnings of a list that are not empty, each added to `start`. -/
def runningSums (start : α) : List α → List α
  | [] => []
  | x :: xs => (start + x) :: runningSums (start + x) xs

/-- For each `i`, the chance that exactly `i` of the dice show more than `face`, less the chance
that exactly `i` of them show `face` or more. The row holds the binomial coefficients of the number
of dice. -/
def faceMass (row : List α) (sides face : Nat) : List α :=
  let n := row.length - 1
  let above : α := ((sides - face : Nat) : α) / (sides : α)
  let atMost : α := (face : α) / (sides : α)
  let aboveOrAt : α := ((sides - face + 1 : Nat) : α) / (sides : α)
  let below : α := ((face - 1 : Nat) : α) / (sides : α)
  row.mapIdx fun i c =>
    c * (power above i * power atMost (n - i) - power aboveOrAt i * power below (n - i))

/-- The expected sum of the dice at the given ranks, rank zero being the highest die. -/
def expectedAt (row : List α) (sides : Nat) (ranks : List Nat) : α :=
  sum <| (List.range' 1 sides).map fun face =>
    let masses := runningSums ((0 : Nat) : α) (faceMass row sides face)
    (face : α) * sum (ranks.map fun k => masses.getD k ((0 : Nat) : α))

/-- The binomial coefficients of `n` dice. -/
def coefficients (n : Nat) : Except Fault (List α) :=
  (Binomial.row n).map fun row => row.map fun (c : Nat) => (c : α)

/-- The expected sum of the `keep` highest of `n` dice. -/
def expectedHighest (n sides keep : Nat) : Except Fault α := do
  let row ← coefficients n
  .ok (expectedAt row sides (List.range (min keep n)))

/-- The expected sum of the `keep` lowest of `n` dice. -/
def expectedLowest (n sides keep : Nat) : Except Fault α := do
  let row ← coefficients n
  .ok (expectedAt row sides ((List.range' 1 (min keep n)).map (n - ·)))

end DiceEngine.OrderStatistic
