import DiceEngine.Expression

/-!
# Malformed texts

What is said of a text that is no expression: where reading stopped, why, and what had been read
until then.
-/

namespace DiceEngine

/-- Why a text is no expression. -/
inductive Reason where
  /-- There is no term at all. -/
  | empty
  /-- The text ends on an operator. -/
  | danglingOperator
  /-- What comes next cannot be appended. -/
  | rejected (why : Rejection)
  deriving DecidableEq, Repr

namespace Rejection

def message : Rejection → String
  | expectedTerm => "expected a dice group or a number"
  | expectedOperator => "expected '+' or '-'"
  | tooManyDice => "more than 100 dice in total"

end Rejection

namespace Reason

def message : Reason → String
  | empty => "empty expression"
  | danglingOperator => "operator without a following term"
  | rejected why => why.message

end Reason

/-- The fault of a text: the place in bytes, the reason, and the expression read so far. -/
structure Malformed where
  position : Nat
  reason : Reason
  soFar : Expression
  deriving DecidableEq, Repr

namespace Malformed

def message (m : Malformed) : String :=
  "malformed dice expression at position " ++ toString m.position ++ ": " ++ m.reason.message ++
    " (parsed so far: \"" ++ m.soFar.text ++ "\")"

end Malformed

end DiceEngine
