import DiceEngine.Decimal.Fixed
import DiceEngine.Expression.Expectation
import DiceEngine.Expression.Reader
import DiceEngine.Simulation.Histogram
import DiceEngine.Simulation.Totals

/-!
# Reports of simulations

A simulation is asked for by an expression and a number of rolls. Its report sets the mean of the
totals beside the expected total, and the totals themselves go into a histogram.
-/

namespace DiceEngine.Simulation

/-- Why there is no report. -/
inductive Failure where
  /-- No expression is given. -/
  | noExpression
  | malformed (m : Malformed)
  | fault (f : Fault)
  deriving DecidableEq, Repr

namespace Failure

def message : Failure → String
  | noExpression => "first arg should be a dice expression"
  | malformed m => m.message
  | fault f => f.message

end Failure

/-- A number of rolls: digits, perhaps behind a plus sign, for a number of 32 bits. -/
def count? (s : String) : Option Nat :=
  let digits := match s.toList with
    | '+' :: rest => rest
    | s => s
  if digits.isEmpty || !digits.all Char.isDigit then none
  else (some (Nat.ofDigitChars 10 digits 0)).filter (· < UInt32.size)

structure Report where
  /-- What is printed. -/
  text : String
  histogram : Array Int

/-- Expected and simulated means have four decimals. -/
def meanFormat : Decimal.Format := { places := 4 }

/-- Deviations have three decimals and always a sign. -/
def deviationFormat : Decimal.Format := { places := 3, plus := true }

/-- The mean of the totals of so many rolls. -/
def mean (totals : List Int) (rolls : Nat) : Except Fault Float := do
  return Float.ofInt (← totals.foldlM Total.add 0) / Float.ofNat (max rolls 1)

/-- The line on the deviation of a mean, in percent of the expected total. There is none where
nothing is expected. -/
def deviationLine (expected mean : Float) : String :=
  if expected == 0 then ""
  else "deviation:  " ++ deviationFormat.text ((mean - expected) / expected.abs * 100) ++ "%\n"

/-- The report on so many rolls of an expression. -/
def report (e : Expression) (rolls : Nat) (master : ChaCha) : Except Fault Report := do
  let totals ← (totals e rolls master).1
  let mean ← mean totals rolls
  let expected : Float ← e.expected
  let least ← e.minimum
  let greatest ← e.maximum
  let histogram ← histogram e totals
  return {
    text :=
      "expression: " ++ e.text ++ "\n" ++
      "range:      " ++ toString least ++ " ..= " ++ toString greatest ++ "\n" ++
      "analytic:   " ++ meanFormat.text expected ++ "\n" ++
      "simulated:  " ++ meanFormat.text mean ++ " over " ++ toString rolls ++ " rolls\n" ++
      deviationLine expected mean
    histogram }

/-- The report that a list of arguments asks for: an expression and a number of rolls, which is one
where it is missing or no number. -/
def reportOf (args : List String) (master : ChaCha) : Except Failure Report :=
  match args with
  | [] => .error .noExpression
  | text :: rest =>
    match Expression.parse text with
    | .error m => .error (.malformed m)
    | .ok e => (report e ((rest.head?.bind count?).getD 1) master).mapError .fault

end DiceEngine.Simulation
