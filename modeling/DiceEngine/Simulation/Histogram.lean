import DiceEngine.Expression.Bounds

/-!
# Histograms of totals

A histogram is an array of numbers: the least total of the expression, and behind it a counter for
each total from the least to the greatest.
-/

namespace DiceEngine.Simulation

/-- A histogram without any totals in it. Where the bounds leave no room for a counter there is
still the first entry. -/
def emptyHistogram (least greatest : Int) : Except Fault (Array Int) := do
  let size ← Total.add (← Total.sub greatest least) 2
  .ok (#[least] ++ Array.replicate (size.toNat - 1) 0)

/-- The place of a total in a histogram. -/
def slot (least total : Int) : Except Fault Int := do
  Total.add (← Total.sub total least) 1

/-- Count one at a place, if it is a place of the histogram. -/
def countAt (counts : Array Int) (i : Int) : Except Fault (Array Int) :=
  if h : 0 ≤ i ∧ i.toNat < counts.size then do
    let n ← Total.add counts[i.toNat] 1
    .ok (counts.set i.toNat n)
  else .ok counts

/-- The histogram of a list of totals. -/
def histogram (e : Expression) (totals : List Int) : Except Fault (Array Int) := do
  let least ← e.minimum
  let greatest ← e.maximum
  totals.foldlM (fun counts total => do countAt counts (← slot least total))
    (← emptyHistogram least greatest)

end DiceEngine.Simulation
