import DiceEngine.Decimal.Fixed

/-!
# The shortest decimal of a floating-point number

Of all decimals that read back as the number, the one with the fewest digits, and of those the one
nearest to it; of two that are equally near, the one whose last digit is even. A decimal reads back as
the number if it lies between the two points halfway to the number's neighbours; the points
themselves count where the significand is even.

The decimals are looked for on coarse grids first: on each grid only the two neighbours of the number
can lie close enough.
-/

namespace DiceEngine.Decimal

/-- A decimal: `digits * 10 ^ exponent`. -/
structure Scaled where
  digits : Nat
  exponent : Int
  deriving DecidableEq, Repr

namespace Binary

/-- Of the two multiples of `10 ^ k` around the absolute value, the nearer one that reads back, or on
a tie the even one. -/
def onGrid? (b : Binary) (k : Int) : Option Scaled :=
  -- a quarter of the last place of the number, in units of the grid, is `num / den`
  let num := Nat.pow 2 b.exponent.toNat * Nat.pow 10 (-k).toNat
  let den := 4 * Nat.pow 2 (-b.exponent).toNat * Nat.pow 10 k.toNat
  let quarters := 4 * b.significand
  let low := quarters - if b.significand = Nat.pow 2 52 && -1074 < b.exponent then 1 else 2
  let high := quarters + 2
  let below := quarters * num / den
  let readsBack (n : Nat) : Bool :=
    if b.significand % 2 = 0 then low * num ≤ n * den && n * den ≤ high * num
    else low * num < n * den && n * den < high * num
  let near := roundDiv (quarters * num) den
  let far := if near = below then below + 1 else below
  ([near, far].find? fun n => n != 0 && readsBack n).map fun n => ⟨n, k⟩

/-- The shortest decimal of the absolute value. The grids reach from the greatest numbers to the
least ones. -/
def shortest (b : Binary) : Scaled :=
  if b.significand = 0 then ⟨0, 0⟩
  else ((List.range 650).findSome? fun i => b.onGrid? (309 - Int.ofNat i)).getD ⟨0, 0⟩

end Binary

namespace Scaled

/-- The power of ten of the first digit. -/
def power (d : Scaled) : Int := d.exponent + (toString d.digits).length - 1

/-- The digits with a point among them, and at least one digit on either side of it. -/
def positional (d : Scaled) : String :=
  if 0 ≤ d.exponent then toString (d.digits * Nat.pow 10 d.exponent.toNat) ++ ".0"
  else placed d.digits d.exponent.natAbs

/-- The first digit, a point and the others where there are more, and the power of ten with its
sign. -/
def scientific (d : Scaled) : String :=
  let digits := (toString d.digits).toList
  let others := digits.drop 1
  String.ofList (digits.take 1 ++ if others.isEmpty then [] else '.' :: others) ++
    (if d.power < 0 then "e-" else "e+") ++ toString d.power.natAbs

/-- Numbers from `10 ^ (-5)` up to `10 ^ 16` are written with all their places, all others with a
power of ten. -/
def text (d : Scaled) : String :=
  if -5 ≤ d.power ∧ d.power < 16 then d.positional else d.scientific

end Scaled

/-- The shortest text of a finite number that has a point or a power of ten. -/
def shortestText (x : Float) : String :=
  match Binary.ofFloat? x with
  | some b => (if b.negative then "-" else "") ++ b.shortest.text
  | none => ({ places := 0 } : Format).text x

end DiceEngine.Decimal
