/-!
# Numbers with a fixed number of decimals

The exact value of a floating-point number, rounded to some decimals; a tie goes to the even
neighbour. Everything is computed in natural numbers from the bits.
-/

namespace DiceEngine.Decimal

/-- The quotient rounded to the nearest natural number, a tie to the even one. -/
def roundDiv (num den : Nat) : Nat :=
  let q := num / den
  let twice := 2 * (num % den)
  if twice < den then q
  else if twice = den then q + q % 2
  else q + 1

/-- How numbers are written. -/
structure Format where
  /-- The number of decimals. -/
  places : Nat
  /-- Whether numbers that are not negative get a plus sign. -/
  plus : Bool := false
  /-- Whether a negative number keeps its sign where it is written as zero. -/
  signedZero : Bool := true

/-- A finite number as sign, significand and power of two. -/
structure Binary where
  negative : Bool
  significand : Nat
  exponent : Int
  deriving DecidableEq, Repr

/-- The parts of a number, or nothing where it is infinite or not a number. -/
def Binary.ofFloat? (x : Float) : Option Binary :=
  let bits : Nat := x.toBits.toNat
  let negative := bits / Nat.pow 2 63 == 1
  let biased : Nat := bits / Nat.pow 2 52 % Nat.pow 2 11
  let fraction : Nat := bits % Nat.pow 2 52
  if biased = 2047 then none
  else if biased = 0 then some ⟨negative, fraction, -1074⟩
  else some ⟨negative, Nat.pow 2 52 + fraction, Int.ofNat biased - 1075⟩

/-- The absolute value in units of the last decimal, rounded. -/
def Binary.units (b : Binary) (places : Nat) : Nat :=
  if 0 ≤ b.exponent then b.significand * Nat.pow 2 b.exponent.toNat * Nat.pow 10 places
  else roundDiv (b.significand * Nat.pow 10 places) (Nat.pow 2 (-b.exponent).toNat)

/-- The digits of a number of units, with a point in front of the decimals. -/
def placed (units places : Nat) : String :=
  let whole := toString (units / Nat.pow 10 places)
  if places = 0 then whole
  else
    let decimals := toString (units % Nat.pow 10 places)
    whole ++ "." ++ "".pushn '0' (places - decimals.length) ++ decimals

namespace Format

def sign (f : Format) (negative : Bool) (units : Nat) : String :=
  if negative && (f.signedZero || units != 0) then "-"
  else if f.plus then "+"
  else ""

/-- The text of a number. -/
def text (f : Format) (x : Float) : String :=
  match Binary.ofFloat? x with
  | some b =>
    let units := b.units f.places
    f.sign b.negative units ++ placed units f.places
  | none =>
    if x == x then f.sign (x < 0) 1 ++ "inf" else "NaN"

end Format

end DiceEngine.Decimal
