import DiceEngine.Proofs.Capped
import DiceEngine.Proofs.Cost
import DiceEngine.Proofs.Expectation
import DiceEngine.Proofs.Magnitude

/-!
# Expressions joined by an operator

An operator between two texts joins the expressions of both
(`Expression.joined`): reading goes on behind the operator as it would from the
start of a text, with the dice of the first expression counted already. It is
refused in the second text where these dice leave too little room for its own
(`Spells.exists_over`).

An evaluation goes on in the same way, from the total of the first expression
where it would begin with zero. A fold that begins with another total has the
same steps, and both come to totals that are as far apart as those they began
with, if none of them leaves the range (`run_foldlM_join_add`). So everything that
is folded over the terms of a sum is the sum of what its two parts come to
(`Adds`, `parse_joined`).
-/

namespace DiceEngine

namespace Draw

variable {σ α β : Type}

/-- From this source the draw ends because a total is out of range. -/
def Overflows (d : Draw σ α) (s : σ) : Prop := ∃ f, f.OutOfRange ∧ (d.run s).1 = .error f

/-- A draw that has a result goes on behind it. -/
theorem run_bind_of_ok {d : Draw σ α} {s s' : σ} {a : α} (h : d.run s = (.ok a, s'))
    (k : α → Draw σ β) : (d >>= k).run s = (k a).run s' := by
  rw [run_bind, h]

theorem overflows_bind_of_ok {d : Draw σ α} {s s' : σ} {a : α} (h : d.run s = (.ok a, s'))
    (k : α → Draw σ β) : Overflows (d >>= k) s ↔ Overflows (k a) s' := by
  rw [Overflows, Overflows, run_bind_of_ok h]

/-- A draw that overflows has no result to go on with. -/
theorem Overflows.bind {d : Draw σ α} {s : σ} (h : Overflows d s) (k : α → Draw σ β) :
    Overflows (d >>= k) s := by
  obtain ⟨f, hf, hrun⟩ := h
  refine ⟨f, hf, ?_⟩
  rw [run_bind]
  revert hrun
  rcases d.run s with ⟨f' | a, s'⟩
  · exact fun h => congrArg Except.error (Except.error.inj h)
  · exact nofun

theorem Ends.not_overflows {P : α → Prop} {d : Draw σ α} (h : Ends (¬ Fault.OutOfRange ·) P d)
    (s : σ) : ¬ Overflows d s := by
  rintro ⟨f, hf, hrun⟩
  have hs := h s
  rw [hrun] at hs
  exact hs hf

end Draw

namespace Expression

/-- An expression, an operator, and the expression that goes on behind it. -/
def joined (e : Expression) (op : Operator) (e' : Expression) : Expression :=
  ⟨e.terms ++ e'.terms, e.operators ++ op :: e'.operators, e.diceCount + e'.diceCount⟩

variable {e₁ e₂ : Expression} {op : Operator}

/-! ## Texts -/

theorem joined_eq_ofParts (h₁ : e₁.WellFormed) (h₂ : e₂.WellFormed) :
    e₁.joined op e₂ = ofParts (e₁.terms ++ e₂.terms) (e₁.operators ++ op :: e₂.operators) := by
  simp only [joined, ofParts, List.map_append, List.sum_append, h₁.counted, h₂.counted]

theorem isComplete_joined (h₁ : e₁.isComplete = true) (h₂ : e₂.isComplete = true)
    (op : Operator) : (e₁.joined op e₂).isComplete = true := by
  rw [isComplete_iff] at h₁ h₂ ⊢
  simp only [joined, List.length_append, List.length_cons]
  omega

/-- A text that spells a complete expression, an operator, and another text. -/
theorem spells_joined {s₁ s₂ : String} (h₁ : e₁.SpelledBy s₁.toList) (hc : e₁.isComplete = true)
    (op : Operator) (h₂ : e₂.SpelledBy s₂.toList) :
    Spells (s₁ ++ op.symbol.toString ++ s₂).toList (e₁.terms ++ e₂.terms)
      (e₁.operators ++ op :: e₂.operators) := by
  have hl := isComplete_iff.mp hc
  have hop : Spells (s₁.toList ++ [op.symbol]) e₁.terms (e₁.operators ++ [op]) :=
    .operator h₁.1 hl .nil
  have hnext := hop.append (by simp [hl]) h₂.1
  rw [List.append_assoc e₁.operators] at hnext
  simpa using hnext

/-- Where the dice of a text are too many on top of some others, there is a first term with which
they are, and a part of the text in front of it. -/
theorem Spells.exists_over {k : Nat} {s : List Char} {ts : List Term} {ops : List Operator}
    (h : Spells s ts ops) (hk : k ≤ maxDice)
    (hover : maxDice < k + (ts.map Term.diceCount).sum) :
    ∃ (p : Expression) (read spelling rest : List Char) (t : Term),
      s = read ++ (spelling ++ rest) ∧ p.SpelledBy read ∧ p.terms.length = p.operators.length ∧
      t.Spelled spelling ∧ k + p.diceCount ≤ maxDice ∧
      maxDice < k + p.diceCount + t.diceCount := by
  induction h with
  | blank _ => exact absurd hk (Nat.not_le.mpr hover)
  | @term s cs b ts ops t h hl ht hb ih =>
    rw [List.map_append, List.sum_append, List.map_singleton, List.sum_singleton] at hover
    by_cases hfits : k + (ts.map Term.diceCount).sum ≤ maxDice
    · have hw : (ofParts ts ops).WellFormed := ⟨.inl hl, rfl, by
        show (ts.map Term.diceCount).sum ≤ maxDice
        omega⟩
      exact ⟨ofParts ts ops, s, cs, b, t, List.append_assoc _ _ _, ⟨h, hw⟩, hl, ht, hfits, by
        show maxDice < k + (ts.map Term.diceCount).sum + t.diceCount
        omega⟩
    · obtain ⟨p, read, spelling, rest, t', rfl, hp⟩ := ih (Nat.not_le.mp hfits)
      exact ⟨p, read, spelling, rest ++ (cs ++ b), t', by simp only [List.append_assoc], hp⟩
  | @operator s b ts ops op h hl hb ih =>
    obtain ⟨p, read, spelling, rest, t', rfl, hp⟩ := ih hover
    exact ⟨p, read, spelling, rest ++ op.symbol :: b, t', by simp only [List.append_assoc], hp⟩

section Texts

variable {s₁ s₂ : String} (h₁ : parse s₁ = .ok e₁) (h₂ : parse s₂ = .ok e₂)

include h₁ h₂

/-- Two expressions that have no more than a hundred dice together are read as joined. -/
theorem parse_joined_eq_ok (op : Operator) (hfits : e₁.diceCount + e₂.diceCount ≤ maxDice) :
    parse (s₁ ++ op.symbol.toString ++ s₂) = .ok (e₁.joined op e₂) := by
  obtain ⟨hs₁, hc₁⟩ := parse_eq_ok_iff.mp h₁
  obtain ⟨hs₂, hc₂⟩ := parse_eq_ok_iff.mp h₂
  have hc := isComplete_joined hc₁ hc₂ op
  have hcounted : (e₁.joined op e₂).diceCount =
      ((e₁.terms ++ e₂.terms).map Term.diceCount).sum := by
    rw [joined_eq_ofParts hs₁.2 hs₂.2]
    rfl
  exact parse_eq_ok_iff.mpr ⟨⟨spells_joined hs₁ hc₁ op hs₂, .inr (isComplete_iff.mp hc), hcounted,
    hfits⟩, hc⟩

/-- Otherwise reading stops in the second text, at the first term that has too many dice, and what
has been read until there is joined to the first expression. -/
theorem parse_joined_eq_error (op : Operator) (hover : maxDice < e₁.diceCount + e₂.diceCount) :
    ∃ read unread p, s₂ = read ++ unread ∧ unread ≠ "" ∧ p.SpelledBy read.toList ∧
      parse (s₁ ++ op.symbol.toString ++ s₂) =
        .error ⟨(s₁ ++ op.symbol.toString ++ read).utf8ByteSize, .rejected .tooManyDice,
          e₁.joined op p⟩ := by
  obtain ⟨hs₁, hc₁⟩ := parse_eq_ok_iff.mp h₁
  obtain ⟨hs₂, -⟩ := parse_eq_ok_iff.mp h₂
  rw [hs₂.2.counted] at hover
  obtain ⟨p, read, spelling, rest, t, hs, hp, hl, ht, hfits, hover⟩ :=
    hs₂.1.exists_over hs₁.2.capped hover
  have hread : p.SpelledBy (String.ofList read).toList := by rwa [String.toList_ofList]
  have hspelling : t.Spelled (String.ofList spelling).toList := by rwa [String.toList_ofList]
  have hs₂' : s₂ = String.ofList read ++ (String.ofList spelling ++ String.ofList rest) := by
    rw [← String.ofList_append, ← String.ofList_append, ← hs, String.ofList_toList]
  have hcounted : ((e₁.terms ++ p.terms).map Term.diceCount).sum = e₁.diceCount + p.diceCount := by
    rw [List.map_append, List.sum_append, hs₁.2.counted, hp.2.counted]
  have hlen : (e₁.terms ++ p.terms).length = (e₁.operators ++ op :: p.operators).length := by
    have hl₁ := isComplete_iff.mp hc₁
    simp only [List.length_append, List.length_cons]
    omega
  have hstop := parse_eq_tooManyDice (spells_joined hs₁ hc₁ op hread) hlen (hcounted ▸ hfits)
    hspelling (hcounted ▸ hover) (String.ofList rest)
  refine ⟨String.ofList read, String.ofList spelling ++ String.ofList rest, p, hs₂', ?_, hread, ?_⟩
  · obtain ⟨c, cs, hcs, -⟩ := ht.head
    simp [hcs]
  · rw [joined_eq_ofParts hs₁.2 hp.2, ← hstop, hs₂']
    simp only [String.append_assoc]

end Texts

/-! ## Folds over the terms of a sum -/

/-- The terms of a sum, with their operators, are those of its parts. -/
theorem steps_joined {steps₁ steps₂ : List (Operator × Term)} (h₁ : e₁.steps = .ok steps₁)
    (h₂ : e₂.steps = .ok steps₂) : (e₁.joined .add e₂).steps = .ok (steps₁ ++ steps₂) := by
  obtain ⟨hc₁, rfl⟩ := steps_eq_ok_iff.mp h₁
  obtain ⟨hc₂, rfl⟩ := steps_eq_ok_iff.mp h₂
  refine steps_eq_ok_iff.mpr ⟨isComplete_joined hc₁ hc₂ .add, ?_⟩
  rw [joined, ← List.cons_append, List.zip_append]
  rw [List.length_cons, isComplete_iff.mp hc₁]

/-- An operation that has a total, has the exact one. -/
theorem Operator.apply_add {op : Operator} {a b v c d : Int} (h : op.apply (a + b) v = .ok c)
    (h' : op.apply b v = .ok d) : c = a + d := by
  cases op with
  | add =>
    obtain ⟨-, rfl⟩ := Total.add_eq_ok_iff.mp h
    obtain ⟨-, rfl⟩ := Total.add_eq_ok_iff.mp h'
    omega
  | sub =>
    obtain ⟨-, rfl⟩ := Total.sub_eq_ok_iff.mp h
    obtain ⟨-, rfl⟩ := Total.sub_eq_ok_iff.mp h'
    omega

section Rolls

variable {σ : Type} [WordSource σ]

/-- Two evaluations of the same terms draw the same words, and their totals stay as far apart as
they were, unless one of them overflows. -/
theorem run_foldlM_join_add (steps : List (Operator × Term)) : ∀ (a b : Int) (s : σ),
    Draw.Overflows (steps.foldlM join (a + b)) s ∨ Draw.Overflows (steps.foldlM join b) s ∨
      (steps.foldlM join (a + b) : Draw σ Int).run s = ((a + ·) <$> steps.foldlM join b).run s := by
  induction steps with
  | nil => exact fun _ _ _ => .inr (.inr rfl)
  | cons step steps ih =>
    intro a b s
    obtain ⟨op, t⟩ := step
    have hcons : ∀ total : Int, (((op, t) :: steps).foldlM join total : Draw σ Int) =
        t.roll >>= fun v => liftM (op.apply total v) >>= fun total' => steps.foldlM join total' := by
      intro total
      rw [List.foldlM_cons, join, bind_assoc]
    simp only [Draw.Overflows, hcons, Draw.run_map, Draw.run_bind]
    rcases (t.roll : Draw σ Int).run s with ⟨f | v, s'⟩
    · exact .inr (.inr rfl)
    -- The value of the term is the same for both, and each of them joins it to its own total.
    have hends := fun total => op.ending_apply (E := Fault.OutOfRange) .add .sub total v
    cases hc : op.apply (a + b) v with
    | error f =>
      have hf := hends (a + b)
      rw [hc] at hf
      exact .inl ⟨f, hf, by simp only [hc]; rfl⟩
    | ok c =>
      cases hd : op.apply b v with
      | error f =>
        have hf := hends b
        rw [hd] at hf
        exact .inr (.inl ⟨f, hf, by simp only [hd]; rfl⟩)
      | ok d =>
        have hrest := ih a d s'
        rw [← Operator.apply_add hc hd, Draw.run_map] at hrest
        simp only [hc, hd]
        exact hrest

/-- One expression is rolled, then the other, and the totals are added. -/
def rollBoth (e₁ e₂ : Expression) : Draw σ Int := do
  Total.add (← e₁.roll) (← e₂.roll)

/-- The terms of a second expression join a total as they would join zero, when that is added at
the end. -/
theorem run_foldlM_join_eq_add {steps : List (Operator × Term)} {a : Int} {s : σ}
    (hfold : ¬ Draw.Overflows (steps.foldlM join a) s)
    (hadd : ¬ Draw.Overflows (steps.foldlM join 0 >>= fun b => liftM (Total.add a b)) s) :
    (steps.foldlM join a : Draw σ Int).run s =
      (steps.foldlM join 0 >>= fun b => liftM (Total.add a b) : Draw σ Int).run s := by
  have hshift := run_foldlM_join_add steps a 0 s
  rw [Int.add_zero] at hshift
  rcases hshift with h | h | h
  · exact absurd h hfold
  · exact absurd (h.bind _) hadd
  rcases hb : (steps.foldlM join 0 : Draw σ Int).run s with ⟨f | b, s'⟩
  · rw [h, Draw.run_map, Draw.run_bind, hb]
    rfl
  · rw [Draw.overflows_bind_of_ok hb] at hadd
    rw [h, Draw.run_map, Draw.run_bind_of_ok hb, hb]
    -- What is left is the last addition, and it is in range.
    by_cases hrange : Total.InRange (a + b)
    · rw [Total.add_eq_ok_iff.mpr ⟨hrange, rfl⟩]
      rfl
    · refine absurd ⟨.addOverflow, .add, ?_⟩ hadd
      rw [Total.add, if_neg hrange]
      rfl

/-- The sum of two expressions is rolled as its parts are, one after the other. -/
theorem run_roll_joined (hc₁ : e₁.isComplete = true) (hc₂ : e₂.isComplete = true) {s : σ}
    (hjoined : ¬ Draw.Overflows (e₁.joined .add e₂).roll s)
    (hboth : ¬ Draw.Overflows (e₁.rollBoth e₂) s) :
    (e₁.joined .add e₂).roll.run s = (e₁.rollBoth e₂).run s := by
  have hs₁ := steps_eq_ok_iff.mpr ⟨hc₁, rfl⟩
  have hs₂ := steps_eq_ok_iff.mpr ⟨hc₂, rfl⟩
  generalize (Operator.add :: e₁.operators).zip e₁.terms = steps₁ at hs₁
  generalize (Operator.add :: e₂.operators).zip e₂.terms = steps₂ at hs₂
  have hroll : ((e₁.joined .add e₂).roll : Draw σ Int) =
      steps₁.foldlM join 0 >>= fun a => steps₂.foldlM join a := by
    rw [roll_eq, steps_joined hs₁ hs₂, ← List.foldlM_append]
    rfl
  have hadd : (e₁.rollBoth e₂ : Draw σ Int) =
      steps₁.foldlM join 0 >>= fun a => steps₂.foldlM join 0 >>= fun b =>
        liftM (Total.add a b) := by
    rw [rollBoth, roll_eq, roll_eq, hs₁, hs₂]
    rfl
  rw [hroll] at hjoined
  rw [hadd] at hboth
  rw [hroll, hadd]
  rcases ha : (steps₁.foldlM join 0 : Draw σ Int).run s with ⟨f | a, s'⟩
  · rw [Draw.run_bind, Draw.run_bind, ha]
  · rw [Draw.overflows_bind_of_ok ha] at hjoined hboth
    rw [Draw.run_bind_of_ok ha, Draw.run_bind_of_ok ha]
    exact run_foldlM_join_eq_add hjoined hboth

/-- Where bounds exist no roll overflows. -/
theorem ends_roll_inRange {e : Expression} {lo hi : Int} (hlo : e.minimum = .ok lo)
    (hhi : e.maximum = .ok hi) :
    Draw.Ends (¬ Fault.OutOfRange ·) (fun t => lo ≤ t ∧ t ≤ hi) (e.roll : Draw σ Int) :=
  ends_roll (fun _ hs => Draw.ends_face_any nofun nofun hs) hlo hhi

end Rolls

/-! ## Sums -/

/-- Whatever is folded over the terms of an expression is the sum of what two others come to, as
long as no total is out of range. The expected totals are exact, and never are. -/
structure Adds (e₁ e₂ e : Expression) : Prop where
  minimum : ∀ lo₁ lo₂ lo, e₁.minimum = .ok lo₁ → e₂.minimum = .ok lo₂ → e.minimum = .ok lo →
    lo = lo₁ + lo₂
  maximum : ∀ hi₁ hi₂ hi, e₁.maximum = .ok hi₁ → e₂.maximum = .ok hi₂ → e.maximum = .ok hi →
    hi = hi₁ + hi₂
  expected : ∃ x₁ x₂ : ℚ, e₁.expected = .ok x₁ ∧ e₂.expected = .ok x₂ ∧ e.expected = .ok (x₁ + x₂)
  /-- The second one is rolled from what the first one leaves of the source. -/
  roll : ∀ {σ : Type} [WordSource σ] (s : σ), ¬ Draw.Overflows e.roll s →
    ¬ Draw.Overflows (e₁.rollBoth e₂) s → e.roll.run s = (e₁.rollBoth e₂).run s

/-- No total is out of range at all. -/
structure AddsInRange (e₁ e₂ e : Expression) : Prop where
  minimum : ∃ lo₁ lo₂, e₁.minimum = .ok lo₁ ∧ e₂.minimum = .ok lo₂ ∧ e.minimum = .ok (lo₁ + lo₂)
  maximum : ∃ hi₁ hi₂, e₁.maximum = .ok hi₁ ∧ e₂.maximum = .ok hi₂ ∧ e.maximum = .ok (hi₁ + hi₂)
  roll : ∀ {σ : Type} [WordSource σ] (s : σ), e.roll.run s = (e₁.rollBoth e₂).run s

theorem expected_of_steps {e : Expression} {steps : List (Operator × Term)}
    (hs : e.steps = .ok steps) :
    (e.expected : Except Fault ℚ) = .ok (average (Record.all steps) fun r => r.total) := by
  rw [expected_eq, hs]
  refine (foldlM_joinExpected steps _).trans ?_
  rw [Nat.cast_zero, zero_add]

theorem adds_joined (hc₁ : e₁.isComplete = true) (hc₂ : e₂.isComplete = true) :
    Adds e₁ e₂ (e₁.joined .add e₂) := by
  have hs₁ := steps_eq_ok_iff.mpr ⟨hc₁, rfl⟩
  have hs₂ := steps_eq_ok_iff.mpr ⟨hc₂, rfl⟩
  generalize (Operator.add :: e₁.operators).zip e₁.terms = steps₁ at hs₁
  generalize (Operator.add :: e₂.operators).zip e₂.terms = steps₂ at hs₂
  have hs := steps_joined hs₁ hs₂
  constructor
  case minimum =>
    intro lo₁ lo₂ lo hlo₁ hlo₂ hlo
    rw [(minimum_eq_sum hs hlo).2, (minimum_eq_sum hs₁ hlo₁).2, (minimum_eq_sum hs₂ hlo₂).2,
      List.map_append, List.sum_append]
  case maximum =>
    intro hi₁ hi₂ hi hhi₁ hhi₂ hhi
    rw [(maximum_eq_sum hs hhi).2, (maximum_eq_sum hs₁ hhi₁).2, (maximum_eq_sum hs₂ hhi₂).2,
      List.map_append, List.sum_append]
  case expected =>
    refine ⟨_, _, expected_of_steps hs₁, expected_of_steps hs₂, ?_⟩
    rw [expected_eq, hs]
    show (steps₁ ++ steps₂).foldlM joinExpected _ = _
    rw [List.foldlM_append, foldlM_joinExpected, Nat.cast_zero, zero_add]
    exact foldlM_joinExpected steps₂ _
  case roll => exact fun s => run_roll_joined hc₁ hc₂

theorem addsInRange_joined (hadds : Adds e₁ e₂ (e₁.joined .add e₂))
    (h₁ : ∃ lo hi, e₁.minimum = .ok lo ∧ e₁.maximum = .ok hi)
    (h₂ : ∃ lo hi, e₂.minimum = .ok lo ∧ e₂.maximum = .ok hi)
    (h : ∃ lo hi, (e₁.joined .add e₂).minimum = .ok lo ∧ (e₁.joined .add e₂).maximum = .ok hi) :
    AddsInRange e₁ e₂ (e₁.joined .add e₂) := by
  obtain ⟨lo₁, hi₁, hlo₁, hhi₁⟩ := h₁
  obtain ⟨lo₂, hi₂, hlo₂, hhi₂⟩ := h₂
  obtain ⟨lo, hi, hlo, hhi⟩ := h
  have hmin := hadds.minimum lo₁ lo₂ lo hlo₁ hlo₂ hlo
  have hmax := hadds.maximum hi₁ hi₂ hi hhi₁ hhi₂ hhi
  constructor
  case minimum => exact ⟨lo₁, lo₂, hlo₁, hlo₂, hmin ▸ hlo⟩
  case maximum => exact ⟨hi₁, hi₂, hhi₁, hhi₂, hmax ▸ hhi⟩
  case roll =>
    intro σ _ s
    obtain ⟨steps, hs, -⟩ := exists_steps_of_bounds hlo hhi
    have hlow := (minimum_eq_sum hs hlo).1
    have hhigh := (maximum_eq_sum hs hhi).1
    have hboth : Draw.Ends (¬ Fault.OutOfRange ·) (fun _ => True) (e₁.rollBoth e₂ : Draw σ Int) := by
      refine (ends_roll_inRange hlo₁ hhi₁).bind fun a ha => ?_
      refine (ends_roll_inRange hlo₂ hhi₂).bind fun b hb => Draw.Ends.lift ?_
      have hrange : Total.InRange (a + b) := inRange_between hlow hhigh (by omega) (by omega)
      rw [Total.add_eq_ok_iff.mpr ⟨hrange, rfl⟩]
      trivial
    exact hadds.roll s ((ends_roll_inRange hlo hhi).not_overflows s) (hboth.not_overflows s)

/-- Two texts with an operator between them are read as the two expressions joined by it, if these
have at most a hundred dice together; else reading stops inside the second text. And the sum of two
expressions comes to the sum of what they come to: its bounds, its expected total and its rolls. -/
theorem parse_joined {s₁ s₂ : String} (h₁ : parse s₁ = .ok e₁) (h₂ : parse s₂ = .ok e₂)
    (op : Operator) :
    (∀ e, parse (s₁ ++ op.symbol.toString ++ s₂) = .ok e ↔
      e₁.diceCount + e₂.diceCount ≤ 100 ∧ e = e₁.joined op e₂) ∧
    (100 < e₁.diceCount + e₂.diceCount → ∃ read unread p, s₂ = read ++ unread ∧ unread ≠ "" ∧
      p.SpelledBy read.toList ∧ parse (s₁ ++ op.symbol.toString ++ s₂) =
        .error ⟨(s₁ ++ op.symbol.toString ++ read).utf8ByteSize, .rejected .tooManyDice,
          e₁.joined op p⟩) ∧
    Adds e₁ e₂ (e₁.joined .add e₂) ∧
    (e₁.diceCount + e₂.diceCount ≤ 100 → e₁.terms.length + e₂.terms.length ≤ 2 ^ 50 →
      AddsInRange e₁ e₂ (e₁.joined .add e₂)) := by
  have hadds := adds_joined (parse_eq_ok_iff.mp h₁).2 (parse_eq_ok_iff.mp h₂).2
  refine ⟨fun e => ⟨fun he => ?_, ?_⟩, parse_joined_eq_error h₁ h₂ op, hadds, fun hfits hl => ?_⟩
  · by_cases hfits : e₁.diceCount + e₂.diceCount ≤ maxDice
    · rw [parse_joined_eq_ok h₁ h₂ op hfits] at he
      exact ⟨hfits, (Except.ok.inj he).symm⟩
    · obtain ⟨_, _, _, _, _, _, herr⟩ := parse_joined_eq_error h₁ h₂ op (Nat.not_le.mp hfits)
      rw [herr] at he
      cases he
  · rintro ⟨hfits, rfl⟩
    exact parse_joined_eq_ok h₁ h₂ op hfits
  · have hlen : (e₁.joined .add e₂).terms.length ≤ 2 ^ 50 := by
      rwa [joined, List.length_append]
    exact addsInRange_joined hadds (exists_bounds h₁ (by omega)) (exists_bounds h₂ (by omega))
      (exists_bounds (parse_joined_eq_ok h₁ h₂ .add hfits) hlen)

/-- A second text that makes the hundred dice full, and one that has a die too many behind its first
term. -/
theorem parse_joined_hundred_dice :
    let e₁ := ofParts [
      .dice ⟨4, 6, some ⟨.lowest, 3⟩, by decide, by decide, by decide, by decide, by decide⟩,
      .literal 2] [.sub]
    let e₂ := ofParts [
      .dice ⟨96, 6, none, by decide, by decide, by decide, by decide, by decide⟩, .literal 7] [.sub]
    let e₃ := ofParts [.literal 1,
      .dice ⟨97, 6, none, by decide, by decide, by decide, by decide, by decide⟩] [.add]
    parse "4d6v3 - 2" = .ok e₁ ∧ parse " 96d6-07" = .ok e₂ ∧ parse "1 +97d06" = .ok e₃ ∧
      parse ("4d6v3 - 2" ++ "+" ++ " 96d6-07") = .ok (e₁.joined .add e₂) ∧
      AddsInRange e₁ e₂ (e₁.joined .add e₂) ∧
      (∃ read unread p, "1 +97d06" = read ++ unread ∧ unread ≠ "" ∧ p.SpelledBy read.toList ∧
        parse ("4d6v3 - 2" ++ "-" ++ "1 +97d06") = .error
          ⟨("4d6v3 - 2" ++ "-" ++ read).utf8ByteSize, .rejected .tooManyDice, e₁.joined .sub p⟩) ∧
      parse "4d6v3 - 2-1 +97d06" = .error
        ⟨13, .rejected .tooManyDice, e₁.joined .sub (ofParts [.literal 1] [.add])⟩ := by
  intro e₁ e₂ e₃
  have h₁ : parse "4d6v3 - 2" = .ok e₁ := by decide +kernel
  have h₂ : parse " 96d6-07" = .ok e₂ := by decide +kernel
  have h₃ : parse "1 +97d06" = .ok e₃ := by decide +kernel
  have hfits := parse_joined h₁ h₂ .add
  have hover := parse_joined h₁ h₃ .sub
  exact ⟨h₁, h₂, h₃, (hfits.1 _).mpr ⟨by decide, rfl⟩, hfits.2.2.2 (by decide) (by decide),
    hover.2.1 (by decide), by decide +kernel⟩

end Expression

end DiceEngine
