/-!
# Faults

What stops the construction of a die group or the evaluation of an expression. A malformed text is
not a fault: see `Malformed`.
-/

namespace DiceEngine

/-- Why a die group cannot be made or an evaluation cannot go on. -/
inductive Fault where
  /-- A die group without dice. -/
  | noDice
  /-- A die group of more dice than one group may throw. -/
  | tooManyDice (quantity : Nat)
  /-- Dice without faces. -/
  | noSides
  /-- Dice with more faces than a die may have. -/
  | tooManySides (sides : Nat)
  /-- An expression that does not end on a term has no value. -/
  | incomplete (terms operators : Nat)
  /-- A sum that is no total. -/
  | addOverflow
  /-- A difference that is no total. -/
  | subOverflow
  /-- A product beyond the working range of a binomial coefficient. -/
  | mulOverflow
  /-- A source of words that has run dry. -/
  | outOfWords
  /-- A source of words that offers no word which a die accepts. -/
  | neverAccepted
  deriving DecidableEq, Repr

namespace Fault

/-- The text of a fault. -/
def message : Fault → String
  | noDice => "die group without dice"
  | tooManyDice quantity => "too many dice in group: " ++ toString quantity
  | noSides => "die group with zero-sided dice"
  | tooManySides sides => "too many sides: " ++ toString sides
  | incomplete terms operators =>
    "evaluating an incomplete expression: " ++ toString terms ++ " terms, " ++
      toString operators ++ " operators"
  | addOverflow => "attempt to add with overflow"
  | subOverflow => "attempt to subtract with overflow"
  | mulOverflow => "attempt to multiply with overflow"
  | outOfWords => "out of words"
  | neverAccepted => "no word is accepted"

end Fault

end DiceEngine
