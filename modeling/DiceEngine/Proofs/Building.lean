import DiceEngine.Expression
import Mathlib.Algebra.Ring.Nat

/-!
# The state of an expression under construction

Terms and operators are appended in turn, and the dice are counted as the
terms come. What both operations keep, and every expression made of them
satisfies, is `Expression.WellFormed`; what each of them does is stated once,
for success (`pushTerm_eq_ok_iff`, `pushOperator_eq_ok_iff`) and for refusal
(`pushTerm_eq_error_iff`, `pushOperator_eq_error_iff`).
-/

namespace DiceEngine.Expression

/-- Terms and operators alternate, beginning with a term, and the dice are
counted and not too many. -/
structure WellFormed (e : Expression) : Prop where
  alternates : e.terms.length = e.operators.length ∨ e.terms.length = e.operators.length + 1
  counted : e.diceCount = (e.terms.map Term.diceCount).sum
  capped : e.diceCount ≤ maxDice

/-- The last thing appended is an operator. -/
def EndsOnOperator (e : Expression) : Prop :=
  e.terms ≠ [] ∧ e.terms.length = e.operators.length

theorem expectsTerm_iff {e : Expression} :
    e.expectsTerm = true ↔ e.terms.length = e.operators.length := by
  simp only [expectsTerm, beq_iff_eq]

theorem expectsTerm_eq_false_iff {e : Expression} :
    e.expectsTerm = false ↔ e.terms.length ≠ e.operators.length := by
  simp only [expectsTerm, beq_eq_false_iff_ne]

theorem isComplete_iff {e : Expression} :
    e.isComplete = true ↔ e.terms.length = e.operators.length + 1 := by
  simp only [isComplete, Bool.and_eq_true, Bool.not_eq_true', List.isEmpty_eq_false_iff,
    beq_iff_eq, and_iff_right_iff_imp]
  intro h
  exact List.ne_nil_of_length_eq_add_one h

theorem pushTerm_eq_ok_iff {e e' : Expression} {t : Term} :
    e.pushTerm t = .ok e' ↔ e.terms.length = e.operators.length ∧
      e.diceCount + t.diceCount ≤ maxDice ∧
      e' = ⟨e.terms ++ [t], e.operators, e.diceCount + t.diceCount⟩ := by
  rw [← expectsTerm_iff, ← Nat.not_lt]
  unfold pushTerm
  cases e.expectsTerm
  · simp
  · by_cases hd : maxDice < e.diceCount + t.diceCount <;> simp [hd, eq_comm]

theorem pushTerm_eq_error_iff {e : Expression} {t : Term} {why : Rejection} :
    e.pushTerm t = .error why ↔
      (e.terms.length ≠ e.operators.length ∧ why = .expectedOperator) ∨
      (e.terms.length = e.operators.length ∧ maxDice < e.diceCount + t.diceCount ∧
        why = .tooManyDice) := by
  rw [← expectsTerm_iff, ← expectsTerm_eq_false_iff]
  unfold pushTerm
  cases e.expectsTerm
  · simp [eq_comm]
  · by_cases hd : maxDice < e.diceCount + t.diceCount <;> simp [hd, eq_comm]

theorem pushOperator_eq_ok_iff {e e' : Expression} {op : Operator} :
    e.pushOperator op = .ok e' ↔ e.terms.length ≠ e.operators.length ∧
      e' = ⟨e.terms, e.operators ++ [op], e.diceCount⟩ := by
  rw [← expectsTerm_eq_false_iff]
  unfold pushOperator
  cases e.expectsTerm <;> simp [eq_comm]

theorem pushOperator_eq_error_iff {e : Expression} {op : Operator} {why : Rejection} :
    e.pushOperator op = .error why ↔
      e.terms.length = e.operators.length ∧ why = .expectedTerm := by
  rw [← expectsTerm_iff]
  unfold pushOperator
  cases e.expectsTerm <;> simp [eq_comm]

/-- Only a complete expression has steps: its terms in order, with their operators. -/
theorem steps_eq_ok_iff {e : Expression} {steps : List (Operator × Term)} :
    e.steps = .ok steps ↔ e.isComplete = true ∧ (Operator.add :: e.operators).zip e.terms = steps := by
  unfold Expression.steps
  cases e.isComplete <;> simp

theorem map_snd_of_steps {e : Expression} {steps : List (Operator × Term)}
    (h : e.steps = .ok steps) : steps.map Prod.snd = e.terms := by
  obtain ⟨hc, rfl⟩ := steps_eq_ok_iff.mp h
  exact List.map_snd_zip (Nat.le_of_eq (isComplete_iff.mp hc))

theorem map_fst_of_steps {e : Expression} {steps : List (Operator × Term)}
    (h : e.steps = .ok steps) : steps.map Prod.fst = .add :: e.operators := by
  obtain ⟨hc, rfl⟩ := steps_eq_ok_iff.mp h
  refine List.map_fst_zip ?_
  rw [List.length_cons, isComplete_iff.mp hc]

namespace WellFormed

theorem empty : Expression.empty.WellFormed := ⟨.inl rfl, rfl, Nat.zero_le _⟩

theorem pushTerm {e e' : Expression} {t : Term} (h : e.WellFormed) (hp : e.pushTerm t = .ok e') :
    e'.WellFormed := by
  obtain ⟨hl, hd, rfl⟩ := pushTerm_eq_ok_iff.mp hp
  refine ⟨.inr ?_, ?_, hd⟩
  · simp only [List.length_append, List.length_singleton, hl]
  · simp only [List.map_append, List.map_singleton, List.sum_append, List.sum_singleton, h.counted]

theorem pushOperator {e e' : Expression} {op : Operator} (h : e.WellFormed)
    (hp : e.pushOperator op = .ok e') : e'.WellFormed := by
  obtain ⟨hl, rfl⟩ := pushOperator_eq_ok_iff.mp hp
  refine ⟨.inl ?_, h.counted, h.capped⟩
  simp only [List.length_append, List.length_singleton]
  exact h.alternates.resolve_left hl

/-- A well-formed expression expects a term or is complete. -/
theorem isComplete_iff_not_expectsTerm {e : Expression} (h : e.WellFormed) :
    e.isComplete = true ↔ e.expectsTerm = false := by
  rw [isComplete_iff, expectsTerm_eq_false_iff]
  have := h.alternates
  omega

/-- What is neither complete nor without terms ends on an operator. -/
theorem endsOnOperator {e : Expression} (h : e.WellFormed) (hc : e.isComplete = false)
    (hn : e.terms ≠ []) : e.EndsOnOperator := by
  refine ⟨hn, h.alternates.resolve_right fun hl => ?_⟩
  rw [isComplete_iff.mpr hl] at hc
  cases hc

end WellFormed

end DiceEngine.Expression
