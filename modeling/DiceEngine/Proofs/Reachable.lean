import DiceEngine.Proofs.Malformed

/-!
# Expressions that can be held

An expression is made of a first term, or read from a text, or kept from a text
of which only a part could be read, and then extended. `Expression.Reachable`
says that an expression is made in this way; all of them are well-formed
(`Expression.Reachable.wellFormed`).
-/

namespace DiceEngine.Expression

/-- The expressions that can be made: of one term, by extension, and by reading, also where
reading stops. -/
inductive Reachable : Expression → Prop
  | ofTerm {t : Term} {e : Expression} (h : ofTerm t = .ok e) : Reachable e
  | append {e e' : Expression} {op : Operator} {t : Term} (he : Reachable e)
      (h : e.append op t = .ok e') : Reachable e'
  | parse {text : String} {e : Expression} (h : parse text = .ok e) : Reachable e
  | soFar {text : String} {m : Malformed} (h : Expression.parse text = .error m) :
      Reachable m.soFar

theorem append_eq_ok_iff {e e' : Expression} {op : Operator} {t : Term} :
    e.append op t = .ok e' ↔ ∃ e₁, e.pushOperator op = .ok e₁ ∧ e₁.pushTerm t = .ok e' := by
  unfold append
  cases e.pushOperator op with
  | error why => exact iff_of_false (fun h => nomatch h) fun ⟨_, h, _⟩ => nomatch h
  | ok e₁ => exact ⟨fun h => ⟨e₁, rfl, h⟩, fun ⟨_, h, ht⟩ => by cases h; exact ht⟩

theorem Reachable.wellFormed {e : Expression} (h : e.Reachable) : e.WellFormed := by
  induction h with
  | ofTerm h => exact WellFormed.empty.pushTerm h
  | append _ h ih =>
    obtain ⟨e₁, hop, ht⟩ := append_eq_ok_iff.mp h
    exact (ih.pushOperator hop).pushTerm ht
  | parse h => exact (parse_eq_ok_iff.mp h).1.2
  | soFar h =>
    obtain ⟨_, _, _, _, hs, _⟩ := parse_eq_error h
    exact hs.2

end DiceEngine.Expression
