import DiceEngine.Toml.Token

/-!
# Numbers of TOML documents

An integer may have a sign, single underscores between its digits and no zeros in front, or it is
written in another base behind `0x`, `0o` or `0b`. It has 64 bits. A float has a fraction, an
exponent or both, and is finite; infinities and what is not a number have names.

The dot of a fraction and the plus of an exponent are tokens of their own, so a number may take
several tokens.
-/

namespace DiceEngine.Toml.Number

/-- The value of a digit in a base. -/
def digit? (base : Nat) (c : Char) : Option Nat :=
  (Token.hexValue? c).filter (· < base)

/-- The digits that go on a number, each of them with at most one underscore in front, and the text
behind them. -/
def moreDigits (base : Nat) : List Char → List Nat × List Char
  | '_' :: c :: rest =>
    match digit? base c with
    | some d =>
      let (ds, rest) := moreDigits base rest
      (d :: ds, rest)
    | none => ([], '_' :: c :: rest)
  | c :: rest =>
    match digit? base c with
    | some d =>
      let (ds, rest) := moreDigits base rest
      (d :: ds, rest)
    | none => ([], c :: rest)
  | [] => ([], [])

/-- The digits of a number, and the text behind them, which is no underscore. -/
def digits (base : Nat) (zerosInFront : Bool) : List Char → Option (List Nat × List Char)
  | [] => none
  | c :: rest => do
    let d ← digit? base c
    let (ds, rest) := moreDigits base rest
    if rest.head? = some '_' then none
    else if d = 0 && !ds.isEmpty && !zerosInFront then none
    else some (d :: ds, rest)

def valueOf (base : Nat) (ds : List Nat) : Nat := ds.foldl (fun n d => base * n + d) 0

/-- A sign, `true` for a minus, and the text behind it. -/
def sign : List Char → Bool × List Char
  | '-' :: rest => (true, rest)
  | '+' :: rest => (false, rest)
  | s => (false, s)

def negateIf (negative : Bool) (n : Nat) : Int := if negative then -n else n

/-- An integer of 64 bits. -/
def inRange (n : Int) : Option Int := if -0x8000000000000000 ≤ n && n ≤ 0x7fffffffffffffff then some n else none

def decimalInteger (s : List Char) : Option Int := do
  let (negative, s) := sign s
  let (ds, rest) ← digits 10 false s
  if rest.isEmpty then inRange (negateIf negative (valueOf 10 ds)) else none

def integerIn (base : Nat) (s : List Char) : Option Int := do
  let (ds, rest) ← digits base true s
  if rest.isEmpty then inRange (valueOf base ds) else none

/-- The number `significand * 10 ^ exponent`, if it is finite. A number far out of the range is not
computed. -/
def finite (negative : Bool) (significand : Nat) (exponent : Int) : Option Float :=
  let size := (toString significand).length + exponent
  let x : Float :=
    if significand = 0 || size < -400 then 0
    else if 400 < size then 1 / 0
    else Float.ofScientific significand (exponent < 0) exponent.natAbs
  if x.isInf then none else some (if negative then -x else x)

/-- The exponent of a float, where the text begins with its letter, and the tokens behind it. -/
def exponent (s : List Char) (ts : List Token) : Option (Int × List Token) :=
  match s with
  | [] => some (0, ts)
  | e :: s =>
    if e != 'e' && e != 'E' then none
    else do
      let (negative, s, ts) ← match s with
        | [] =>
          match ts with
          | .plus :: .bare s :: ts => some (false, s, ts)
          | .bare s :: ts => some (false, s, ts)
          | _ => none
        | s =>
          let (negative, s) := sign s
          some (negative, s, ts)
      let (ds, rest) ← digits 10 true s
      if rest.isEmpty then some (negateIf negative (valueOf 10 ds), ts) else none

/-- A float of its text up to a dot and, where there is a dot, the text behind that. -/
def float (s : List Char) (afterDot : Option (List Char)) (ts : List Token) :
    Option (Float × List Token) := do
  let (negative, s) := sign s
  let (whole, rest) ← digits 10 false s
  let (fraction, rest) ← match afterDot with
    | none => some ([], rest)
    | some s => if rest.isEmpty then digits 10 true s else none
  let (e, ts) ← exponent rest ts
  let x ← finite negative (valueOf 10 (whole ++ fraction)) (e - fraction.length)
  some (x, ts)

end DiceEngine.Toml.Number
