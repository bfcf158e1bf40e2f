import DiceEngine.DieGroup
import DiceEngine.Total

/-!
# Expressions

An expression is a sum and difference of terms, written and evaluated from left to right. It is
built by appending terms and operators in turn, so it may stand unfinished: without a term, or with
an operator at its end. At most a hundred dice take part in one expression.

* `pushTerm` and `pushOperator` either append or say why not, and leave nothing half done;
* `steps` pairs each term of a complete expression with the operator in front of it;
* `text` is the canonical spelling, of unfinished expressions too.
-/

namespace DiceEngine

/-- How a term joins the total of the terms before it. -/
inductive Operator where
  | add
  | sub
  deriving DecidableEq, Repr

namespace Operator

def symbol : Operator → Char
  | add => '+'
  | sub => '-'

/-- The operation on totals. -/
def apply : Operator → Int → Int → Except Fault Int
  | add => Total.add
  | sub => Total.sub

end Operator

/-- A number or a throw of dice. -/
inductive Term where
  | literal (value : Int)
  | dice (group : DieGroup)
  deriving DecidableEq, Repr

namespace Term

/-- How many dice the term throws. -/
def diceCount : Term → Nat
  | literal _ => 0
  | dice g => g.quantity

/-- The least value of the term. -/
def low : Term → Int
  | literal value => value
  | dice g => g.low

/-- The greatest value of the term. -/
def high : Term → Int
  | literal value => value
  | dice g => g.high

def text : Term → String
  | literal value => toString value
  | dice g => g.text

end Term

/-- Why a term or an operator cannot be appended to an expression. -/
inductive Rejection where
  | expectedTerm
  | expectedOperator
  | tooManyDice
  deriving DecidableEq, Repr

/-- Terms and the operators between them, in the order of writing. -/
structure Expression where
  terms : List Term
  operators : List Operator
  /-- How many dice the terms throw together. -/
  diceCount : Nat
  deriving DecidableEq, Repr

namespace Expression

/-- The most dice that one expression throws. -/
def maxDice : Nat := 100

/-- The expression before its first term. -/
def empty : Expression := ⟨[], [], 0⟩

/-- Whether a term has to come next. -/
def expectsTerm (e : Expression) : Bool := e.terms.length == e.operators.length

/-- Whether the expression ends on a term, and so has a value. -/
def isComplete (e : Expression) : Bool :=
  !e.terms.isEmpty && e.terms.length == e.operators.length + 1

/-- Append a term. -/
def pushTerm (e : Expression) (t : Term) : Except Rejection Expression :=
  if !e.expectsTerm then .error .expectedOperator
  else if maxDice < e.diceCount + t.diceCount then .error .tooManyDice
  else .ok ⟨e.terms ++ [t], e.operators, e.diceCount + t.diceCount⟩

/-- Append an operator. -/
def pushOperator (e : Expression) (op : Operator) : Except Rejection Expression :=
  if e.expectsTerm then .error .expectedTerm
  else .ok { e with operators := e.operators ++ [op] }

/-- The expression of one term. -/
def ofTerm (t : Term) : Except Rejection Expression := empty.pushTerm t

/-- Append an operator and the term it applies to. -/
def append (e : Expression) (op : Operator) (t : Term) : Except Rejection Expression := do
  (← e.pushOperator op).pushTerm t

/-- Each term with the operator in front of it. The first term is added to zero. -/
def steps (e : Expression) : Except Fault (List (Operator × Term)) :=
  if e.isComplete then .ok ((Operator.add :: e.operators).zip e.terms)
  else .error (.incomplete e.terms.length e.operators.length)

/-- The text of terms with an operator before each, and of an operator left at the end. -/
def tailText : List Term → List Operator → String
  | [], [] => ""
  | [], op :: _ => " " ++ op.symbol.toString
  | t :: ts, [] => t.text ++ tailText ts []
  | t :: ts, op :: ops => " " ++ op.symbol.toString ++ " " ++ t.text ++ tailText ts ops

/-- The canonical text: one blank on either side of each operator that has a term behind it. -/
def text (e : Expression) : String :=
  match e.terms with
  | [] => tailText [] e.operators
  | t :: ts => t.text ++ tailText ts e.operators

end Expression

end DiceEngine
