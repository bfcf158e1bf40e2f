import DiceEngine.Proofs.Reachable
import DiceEngine.Proofs.Throw

/-!
# Expressions changed in place

An expression that is held is extended in place, one change after another, and
what an edit has changed before it is refused stays changed. `Edit.term` and
`Edit.operator` make all their checks before their first change, so each comes
to what `pushTerm` or `pushOperator` says, and where it is refused it leaves the
expression as it was (`Edit.run_term`, `Edit.run_operator`). Of an expression
that can be held this is one of the facts gathered in `Expression.Sound`
(`Expression.sound_of_reachable`).
-/

namespace DiceEngine

open Expression (maxDice)

/-- A change of an expression in place. What is changed before a refusal stays changed. -/
abbrev Edit := ExceptT Rejection (StateM Expression)

namespace Edit

/-- Refuse an expression of this kind. -/
def refuse (bad : Expression → Prop) [DecidablePred bad] (why : Rejection) : Edit Unit := do
  if bad (← get) then throw why

/-- Append a term. Its dice are counted before the term is there. -/
def term (t : Term) : Edit Unit := do
  refuse (fun e => e.expectsTerm = false) .expectedOperator
  match t with
  | .literal _ => pure ()
  | .dice g =>
    refuse (fun e => maxDice < e.diceCount + g.quantity) .tooManyDice
    modify fun e => { e with diceCount := e.diceCount + g.quantity }
  modify fun e => { e with terms := e.terms ++ [t] }

/-- Append an operator. -/
def operator (op : Operator) : Edit Unit := do
  refuse (fun e => e.expectsTerm = true) .expectedTerm
  modify fun e => { e with operators := e.operators ++ [op] }

/-- What an edit comes to that has this outcome: the new expression, or a refusal and the
expression as it was. -/
def settled (e : Expression) : Except Rejection Expression → Except Rejection Unit × Expression
  | .ok e' => (.ok (), e')
  | .error why => (.error why, e)

variable {bad : Expression → Prop} [DecidablePred bad] {e : Expression}

theorem run_refuse (why : Rejection) (k : Edit Unit) : (refuse bad why >>= fun _ => k).run e =
    if bad e then (.error why, e) else k.run e := by
  have hrefuse : (refuse bad why).run e = (if bad e then .error why else .ok (), e) := by
    show (if bad e then throw why else pure () : Edit Unit).run e = _
    split <;> rfl
  show ExceptT.bindCont (fun _ => k) ((refuse bad why).run e).1 ((refuse bad why).run e).2 = _
  rw [hrefuse]
  split <;> rfl

/-- A term is appended as `pushTerm` appends it, and where it is refused nothing has changed. -/
theorem run_term (h : e.diceCount ≤ maxDice) (t : Term) :
    (term t).run e = settled e (e.pushTerm t) := by
  rw [term, run_refuse, Expression.pushTerm]
  cases he : e.expectsTerm with
  | false => rfl
  | true =>
    cases t with
    | literal v =>
      -- A number has no dice to count, and those of the expression are not too many.
      simp only [Term.diceCount, Nat.add_zero, Nat.not_lt.mpr h]
      rfl
    | dice g =>
      simp only [run_refuse, Term.diceCount]
      by_cases hd : maxDice < e.diceCount + g.quantity
      · simp only [hd]
        rfl
      · simp only [hd]
        rfl

/-- An operator is appended as `pushOperator` appends it, and where it is refused nothing has
changed. -/
theorem run_operator (e : Expression) (op : Operator) :
    (operator op).run e = settled e (e.pushOperator op) := by
  rw [operator, run_refuse, Expression.pushOperator]
  cases e.expectsTerm <;> rfl

end Edit

namespace Expression

/-- What holds of every expression that can be held. -/
structure Sound (e : Expression) : Prop where
  alternates : e.terms.length = e.operators.length ∨ e.terms.length = e.operators.length + 1
  isComplete_iff : e.isComplete = true ↔ e.terms.length = e.operators.length + 1
  counted : e.diceCount = (e.terms.map Term.diceCount).sum
  capped : e.diceCount ≤ 100
  /-- The numbers of each group are within their limits, and `create` takes them as they are. -/
  group : ∀ g, Term.dice g ∈ e.terms → (1 ≤ g.quantity ∧ g.quantity ≤ 99) ∧
    (1 ≤ g.sides ∧ g.sides ≤ 100) ∧ g.keepCount ≤ g.quantity ∧
    DieGroup.create g.quantity g.sides g.keep = .ok g
  /-- A term is appended in place, or it is refused and the expression is as it was. -/
  edit_term : ∀ t, (Edit.term t).run e = Edit.settled e (e.pushTerm t)
  /-- An operator is appended in place, or it is refused and the expression is as it was. -/
  edit_operator : ∀ op, (Edit.operator op).run e = Edit.settled e (e.pushOperator op)
  steps_of_incomplete : e.isComplete = false →
    e.steps = .error (.incomplete e.terms.length e.operators.length)
  /-- Every term comes once, in order, and the first one is added. -/
  steps_of_complete : e.isComplete = true → ∃ steps, e.steps = .ok steps ∧
    steps.map Prod.snd = e.terms ∧ steps.map Prod.fst = .add :: e.operators

/-- Whatever an expression was made of, and however often that was refused, it is sound. -/
theorem sound_of_reachable {e : Expression} (h : e.Reachable) : e.Sound := by
  have hw := h.wellFormed
  constructor
  case alternates => exact hw.alternates
  case isComplete_iff => exact Expression.isComplete_iff
  case counted => exact hw.counted
  case capped => exact hw.capped
  case group =>
    intro g _
    have hkeep : g.keep = g.keep.map fun k => { k with count := min k.count g.quantity } := by
      rcases hk : g.keep with _ | k
      · rfl
      · rw [Option.map_some, Nat.min_eq_left (g.count_le k hk)]
    exact ⟨⟨g.quantity_pos, g.quantity_le⟩, ⟨g.sides_pos, g.sides_le⟩, g.keepCount_le,
      DieGroup.create_eq_ok_iff.mpr ⟨rfl, rfl, hkeep⟩⟩
  case edit_term => exact Edit.run_term hw.capped
  case edit_operator => exact Edit.run_operator e
  case steps_of_incomplete =>
    intro hc
    rw [steps, hc]
    rfl
  case steps_of_complete =>
    intro hc
    have hs := steps_eq_ok_iff.mpr ⟨hc, rfl⟩
    exact ⟨_, hs, map_snd_of_steps hs, map_fst_of_steps hs⟩

/-- What could be read of a text is extended to a hundred dice, and is sound. -/
theorem sound_of_reachable_hundred_dice :
    let e := ofParts [
      .dice ⟨99, 6, some ⟨.lowest, 50⟩, by decide, by decide, by decide, by decide, by decide⟩]
      []
    let d : Term := .dice ⟨1, 4, none, by decide, by decide, by decide, by decide, by decide⟩
    let e' := ofParts (e.terms ++ [d]) [.sub]
    parse "99d6v50 4" = .error ⟨8, .rejected .expectedOperator, e⟩ ∧ e.append .sub d = .ok e' ∧
      e'.diceCount = 100 ∧ e'.Sound := by
  intro e d e'
  have hread : parse "99d6v50 4" = .error ⟨8, .rejected .expectedOperator, e⟩ := by decide +kernel
  have happend : e.append .sub d = .ok e' := rfl
  exact ⟨hread, happend, rfl, sound_of_reachable (.append (.soFar hread) happend)⟩

end Expression

end DiceEngine
