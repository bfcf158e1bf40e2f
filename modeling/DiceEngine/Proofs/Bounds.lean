import DiceEngine.Expression.Bounds
import DiceEngine.Proofs.Dry

/-!
# Bounds hold

Both bounds of an expression are folded over its terms as its totals are. Where
the running total lies between the two running bounds, so does the next one
(`join_between`), and as both bounds are totals, what lies between them is one:
no evaluation overflows. By induction on the terms this holds of whole
evaluations, whatever the source (`ends_foldlM_join`), and for lists of words
it is `totals_within_bounds`. Where an evaluation ends for lack of words, it has
drawn the whole list (`eq_nil_of_outOfWords`).
-/

namespace DiceEngine.Expression

/-- A term joins the least total. -/
def joinLow (total : Int) (step : Operator × Term) : Except Fault Int :=
  match step.1 with
  | .add => Total.add total step.2.low
  | .sub => Total.sub total step.2.high

/-- A term joins the greatest total. -/
def joinHigh (total : Int) (step : Operator × Term) : Except Fault Int :=
  match step.1 with
  | .add => Total.add total step.2.high
  | .sub => Total.sub total step.2.low

theorem minimum_eq (e : Expression) :
    e.minimum = e.steps >>= fun steps => steps.foldlM joinLow 0 := rfl

theorem maximum_eq (e : Expression) :
    e.maximum = e.steps >>= fun steps => steps.foldlM joinHigh 0 := rfl

theorem bind_eq_ok_iff {α β : Type} {x : Except Fault α} {f : α → Except Fault β} {b : β} :
    x >>= f = .ok b ↔ ∃ a, x = .ok a ∧ f a = .ok b := by
  cases x with
  | error _ => exact iff_of_false (fun h => nomatch h) fun ⟨_, h, _⟩ => nomatch h
  | ok a => exact ⟨fun h => ⟨a, rfl, h⟩, fun ⟨_, h, hf⟩ => by cases h; exact hf⟩

/-- A fold has a result where each step has one and keeps what the steps behind it need. -/
theorem exists_foldlM_ok {α β : Type} {f : β → α → Except Fault β} {P : List α → β → Prop}
    (hstep : ∀ x xs b, P (x :: xs) b → ∃ b', f b x = .ok b' ∧ P xs b') (xs : List α) :
    ∀ b, P xs b → ∃ b', xs.foldlM f b = .ok b' ∧ P [] b' := by
  induction xs with
  | nil => exact fun b h => ⟨b, rfl, h⟩
  | cons x xs ih =>
    intro b h
    obtain ⟨b₁, hfirst, hrest⟩ := hstep x xs b h
    rw [List.foldlM_cons, hfirst]
    exact ih b₁ hrest

/-- The bounds are folded over the same steps. -/
theorem exists_steps_of_bounds {e : Expression} {lo hi : Int} (hlo : e.minimum = .ok lo)
    (hhi : e.maximum = .ok hi) : ∃ steps, e.steps = .ok steps ∧
      steps.foldlM joinLow 0 = .ok lo ∧ steps.foldlM joinHigh 0 = .ok hi := by
  rw [minimum_eq] at hlo
  rw [maximum_eq] at hhi
  obtain ⟨steps, hs, hlo⟩ := bind_eq_ok_iff.mp hlo
  obtain ⟨steps', hs', hhi⟩ := bind_eq_ok_iff.mp hhi
  rw [hs] at hs'
  cases hs'
  exact ⟨steps, hs, hlo, hhi⟩

/-- How far a term moves the least total. -/
def moveLow : Operator × Term → Int
  | (.add, t) => t.low
  | (.sub, t) => -t.high

/-- How far a term moves the greatest total. -/
def moveHigh : Operator × Term → Int
  | (.add, t) => t.high
  | (.sub, t) => -t.low

/-- Each term moves the total by an amount of its own, and the total stays in range. -/
def Moves (f : Int → Operator × Term → Except Fault Int) (move : Operator × Term → Int) : Prop :=
  ∀ total step total', f total step = .ok total' →
    Total.InRange total' ∧ total' = total + move step

theorem moves_joinLow : Moves joinLow moveLow := by
  rintro total ⟨_ | _, t⟩ total' h
  · obtain ⟨hrange, rfl⟩ := Total.add_eq_ok_iff.mp h
    exact ⟨hrange, rfl⟩
  · obtain ⟨hrange, rfl⟩ := Total.sub_eq_ok_iff.mp h
    exact ⟨hrange, Int.sub_eq_add_neg⟩

theorem moves_joinHigh : Moves joinHigh moveHigh := by
  rintro total ⟨_ | _, t⟩ total' h
  · obtain ⟨hrange, rfl⟩ := Total.add_eq_ok_iff.mp h
    exact ⟨hrange, rfl⟩
  · obtain ⟨hrange, rfl⟩ := Total.sub_eq_ok_iff.mp h
    exact ⟨hrange, Int.sub_eq_add_neg⟩

/-- Terms in a row move the total by the sum of their amounts. -/
theorem Moves.foldlM {f : Int → Operator × Term → Except Fault Int}
    {move : Operator × Term → Int} (hf : Moves f move) {steps : List (Operator × Term)} :
    ∀ {total total' : Int}, Total.InRange total → steps.foldlM f total = .ok total' →
    Total.InRange total' ∧ total' = total + (steps.map move).sum := by
  induction steps with
  | nil =>
    intro total total' htotal h
    cases h
    exact ⟨htotal, (Int.add_zero _).symm⟩
  | cons step steps ih =>
    intro total total' htotal h
    rw [List.foldlM_cons] at h
    obtain ⟨total₁, hstep, hrest⟩ := bind_eq_ok_iff.mp h
    obtain ⟨hrange₁, hfirst⟩ := hf total step total₁ hstep
    obtain ⟨hrange, hsum⟩ := ih hrange₁ hrest
    rw [List.map_cons, List.sum_cons]
    exact ⟨hrange, by omega⟩

section Sums

variable {e : Expression} {steps : List (Operator × Term)} (hs : e.steps = .ok steps)

include hs

/-- The least total is in range, and the terms have moved it there from zero. -/
theorem minimum_eq_sum {lo : Int} (h : e.minimum = .ok lo) :
    Total.InRange lo ∧ lo = (steps.map moveLow).sum := by
  rw [minimum_eq, hs] at h
  rw [← Int.zero_add (steps.map moveLow).sum]
  exact moves_joinLow.foldlM (by decide) h

theorem maximum_eq_sum {hi : Int} (h : e.maximum = .ok hi) :
    Total.InRange hi ∧ hi = (steps.map moveHigh).sum := by
  rw [maximum_eq, hs] at h
  rw [← Int.zero_add (steps.map moveHigh).sum]
  exact moves_joinHigh.foldlM (by decide) h

end Sums

/-- What lies between two totals is a total. -/
theorem inRange_between {a b c : Int} (ha : Total.InRange a) (hc : Total.InRange c) (hab : a ≤ b)
    (hbc : b ≤ c) : Total.InRange b :=
  ⟨Int.le_trans ha.1 hab, Int.le_trans hbc hc.2⟩

/-- A running total between the running bounds stays there, whatever the next term counts for. -/
theorem join_between {op : Operator} {t : Term} {total lo hi lo' hi' v : Int}
    (hl : lo ≤ total) (hh : total ≤ hi) (hlow : joinLow lo (op, t) = .ok lo')
    (hhigh : joinHigh hi (op, t) = .ok hi') (hv : t.low ≤ v ∧ v ≤ t.high) :
    ∃ total', op.apply total v = .ok total' ∧ lo' ≤ total' ∧ total' ≤ hi' := by
  cases op with
  | add =>
    obtain ⟨hrl, rfl⟩ := Total.add_eq_ok_iff.mp hlow
    obtain ⟨hrh, rfl⟩ := Total.add_eq_ok_iff.mp hhigh
    have h1 : lo + t.low ≤ total + v := by omega
    have h2 : total + v ≤ hi + t.high := by omega
    exact ⟨total + v, Total.add_eq_ok_iff.mpr ⟨inRange_between hrl hrh h1 h2, rfl⟩, h1, h2⟩
  | sub =>
    obtain ⟨hrl, rfl⟩ := Total.sub_eq_ok_iff.mp hlow
    obtain ⟨hrh, rfl⟩ := Total.sub_eq_ok_iff.mp hhigh
    have h1 : lo - t.high ≤ total - v := by omega
    have h2 : total - v ≤ hi - t.low := by omega
    exact ⟨total - v, Total.sub_eq_ok_iff.mpr ⟨inRange_between hrl hrh h1 h2, rfl⟩, h1, h2⟩

section Rolls

variable {σ : Type} [WordSource σ] {E : Fault → Prop}
  (hface : ∀ sides, 1 ≤ sides →
    Draw.Ends E (fun f => 1 ≤ f ∧ f ≤ sides) (Draw.face sides : Draw σ Nat))

include hface

/-- The terms of an evaluation, one after another. -/
theorem ends_foldlM_join (steps : List (Operator × Term)) : ∀ {total lo hi lo' hi' : Int},
    lo ≤ total → total ≤ hi → steps.foldlM joinLow lo = .ok lo' →
    steps.foldlM joinHigh hi = .ok hi' →
    Draw.Ends E (fun t => lo' ≤ t ∧ t ≤ hi') (steps.foldlM join total : Draw σ Int) := by
  induction steps with
  | nil =>
    intro total lo hi lo' hi' hl hh hlow hhigh
    cases hlow
    cases hhigh
    exact Draw.Ends.pure ⟨hl, hh⟩
  | cons step steps ih =>
    intro total lo hi lo' hi' hl hh hlow hhigh
    obtain ⟨op, t⟩ := step
    rw [List.foldlM_cons] at hlow hhigh ⊢
    obtain ⟨lo₁, hlow₁, hlow⟩ := bind_eq_ok_iff.mp hlow
    obtain ⟨hi₁, hhigh₁, hhigh⟩ := bind_eq_ok_iff.mp hhigh
    rw [join, bind_assoc]
    refine (t.ends_roll hface).bind fun v hv => ?_
    obtain ⟨total', happly, hl', hh'⟩ := join_between hl hh hlow₁ hhigh₁ hv
    rw [happly]
    exact ih hl' hh' hlow hhigh

/-- An evaluation ends between the bounds, or because the source has no face to give. -/
theorem ends_roll {e : Expression} {lo hi : Int} (hlo : e.minimum = .ok lo)
    (hhi : e.maximum = .ok hi) :
    Draw.Ends E (fun t => lo ≤ t ∧ t ≤ hi) (e.roll : Draw σ Int) := by
  obtain ⟨steps, hs, hlow, hhigh⟩ := exists_steps_of_bounds hlo hhi
  rw [roll_eq, hs]
  exact ends_foldlM_join hface steps (Int.le_refl 0) (Int.le_refl 0) hlow hhigh

end Rolls

/-- An evaluation that ran out of words, or a total between the bounds. -/
def DryOrWithin (lo hi : Int) (r : Except Fault Int) : Prop :=
  r = .error .outOfWords ∨ ∃ t, r = .ok t ∧ lo ≤ t ∧ t ≤ hi

/-- An evaluation of a list that ends for lack of words has drawn all of them, in each of the three
ways to roll. -/
theorem eq_nil_of_outOfWords (e : Expression) (words : List UInt64) :
    ((e.roll.run words).1 = .error .outOfWords → (e.roll.run words).2 = []) ∧
      ((e.rollBrief.run words).1 = .error .outOfWords → (e.rollBrief.run words).2 = []) ∧
      ((e.rollFull.run words).1 = .error .outOfWords → (e.rollFull.run words).2 = []) :=
  ⟨e.dry_roll.eq_nil, e.dry_rollBrief.eq_nil, e.dry_rollFull.eq_nil⟩

/-- Where an expression has both bounds, no evaluation of it on a list of words overflows or stops
for any other reason than a lack of words, and every total lies between the bounds, in each of the
three ways to roll. -/
theorem totals_within_bounds {e : Expression} {lo hi : Int} (hlo : e.minimum = .ok lo)
    (hhi : e.maximum = .ok hi) (ws : List UInt64) :
    DryOrWithin lo hi (e.roll.run ws).1 ∧
      DryOrWithin lo hi ((e.rollBrief.run ws).1.map Prod.fst) ∧
      DryOrWithin lo hi ((e.rollFull.run ws).1.map Prod.fst) := by
  have hbrief := congrArg (fun d : Draw (List UInt64) Int => (d.run ws).1) e.fst_rollBrief
  have hfull := congrArg (fun d : Draw (List UInt64) Int => (d.run ws).1) e.fst_rollFull
  simp only [Draw.run_map] at hbrief hfull
  rw [hbrief, hfull]
  have h : DryOrWithin lo hi (e.roll.run ws).1 := by
    have h := ends_roll (fun _ => Draw.ends_face) hlo hhi ws
    revert h
    cases (e.roll.run ws).1 with
    | ok t => exact fun h => .inr ⟨t, rfl, h⟩
    | error f => exact fun h => .inl (congrArg _ h)
  exact ⟨h, h, h⟩

/-- The greatest literal, less the higher of two dice: the bounds exist, so every total does. -/
theorem totals_within_bounds_greatest_literal :
    let e : Expression := ⟨[.literal 9223372036854775807,
      .dice ⟨2, 20, some ⟨.highest, 1⟩, by decide, by decide, by decide, by decide, by decide⟩],
      [.sub], 2⟩
    let ws : List UInt64 := [0, 0x8000000000000000]
    e.minimum = .ok 9223372036854775787 ∧ e.maximum = .ok 9223372036854775806 ∧
      DryOrWithin 9223372036854775787 9223372036854775806 (e.roll.run ws).1 ∧
      DryOrWithin 9223372036854775787 9223372036854775806 ((e.rollBrief.run ws).1.map Prod.fst) ∧
      DryOrWithin 9223372036854775787 9223372036854775806 ((e.rollFull.run ws).1.map Prod.fst) :=
  ⟨rfl, rfl, totals_within_bounds rfl rfl _⟩

end DiceEngine.Expression
