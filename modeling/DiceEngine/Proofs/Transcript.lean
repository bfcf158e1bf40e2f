import DiceEngine.Proofs.Draw

/-!
# Rolls and their transcripts

A roll that is recorded draws the same words as one that is not, and has the
same total: the record is an addition (`Expression.fst_record`), and so are the
texts that are made of it (`Expression.fst_rollBrief`,
`Expression.fst_rollFull`).
-/

namespace DiceEngine

variable {σ : Type}

theorem Draw.run_map {α β : Type} (f : α → β) (d : Draw σ α) (s : σ) :
    (f <$> d).run s = ((d.run s).1.map f, (d.run s).2) := by
  rw [← bind_pure_comp, run_bind]
  rcases d.run s with ⟨_ | _, s'⟩ <;> rfl

/-- What is drawn together with a result that is known. -/
theorem Draw.run_of_map_fst {α β : Type} {d : Draw σ (α × β)} {s s' : σ} {a : α}
    (h : (Prod.fst <$> d).run s = (.ok a, s')) : ∃ b, d.run s = (.ok (a, b), s') := by
  rw [run_map] at h
  obtain ⟨hresult, hsource⟩ := Prod.mk.inj h
  cases hd : d.run s with
  | mk r t =>
    rw [hd] at hresult hsource
    cases r with
    | error f => cases hresult
    | ok p =>
      cases hresult
      cases hsource
      exact ⟨p.2, rfl⟩

variable [WordSource σ]

/-- What a term shows counts for what the term is rolled as. -/
theorem Term.value_outcome (t : Term) :
    Outcome.value <$> (t.outcome : Draw σ Outcome) = t.roll := by
  cases t with
  | literal v => rfl
  | dice g => simp only [Term.outcome, Term.roll, DieGroup.roll, Outcome.value, map_bind, map_pure]

namespace Expression

/-- A term joins the total. -/
def join (total : Int) (step : Operator × Term) : Draw σ Int := do
  step.1.apply total (← step.2.roll)

theorem roll_eq (e : Expression) :
    (e.roll : Draw σ Int) = liftM e.steps >>= fun steps => steps.foldlM join 0 := rfl

theorem fst_recordOnto (steps : List (Operator × Term)) : ∀ total : Int,
    Prod.fst <$> (recordOnto total steps : Draw σ (Int × Record)) = steps.foldlM join total := by
  induction steps with
  | nil => exact fun total => rfl
  | cons step steps ih =>
    intro total
    obtain ⟨op, t⟩ := step
    rw [List.foldlM_cons, join, ← t.value_outcome, recordOnto]
    simp only [map_bind, bind_map_left, bind_assoc, bind_pure_comp, Functor.map_map, ← ih]

theorem fst_record (e : Expression) :
    Prod.fst <$> (e.record : Draw σ (Int × Record)) = e.roll := by
  rw [roll_eq, record, map_bind]
  exact bind_congr fun steps => fst_recordOnto steps 0

theorem fst_rollBrief (e : Expression) :
    Prod.fst <$> (e.rollBrief : Draw σ (Int × String)) = e.roll := by
  rw [← fst_record, rollBrief]
  simp only [bind_pure_comp, Functor.map_map]

theorem fst_rollFull (e : Expression) :
    Prod.fst <$> (e.rollFull : Draw σ (Int × String)) = e.roll := by
  rw [← fst_record, rollFull]
  simp only [bind_pure_comp, Functor.map_map]

end Expression

end DiceEngine
