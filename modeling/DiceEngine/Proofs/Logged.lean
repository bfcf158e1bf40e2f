import DiceEngine.Proofs.Transcript

/-!
# The words that are drawn

A draw treats all sources alike, so a source that also keeps a log of its words
(`Logged`) gives the same results and is left in the same way, and its log
shows the words that were drawn in between. `Draw.Traces` says this of a draw
on a source and its counterpart on a source with a log. The rules follow the
way draws are put together, up to the record of an expression
(`Expression.traces_record`), and `Draw.Draws` is what they come to: the
result, the words drawn and the source left.
-/

namespace DiceEngine

/-- A source, and all words that have been drawn from it. -/
structure Logged (σ : Type) where
  source : σ
  drawn : List UInt64

variable {σ α β : Type} [WordSource σ]

instance : WordSource (Logged σ) where
  next l := (WordSource.next l.source).map fun (w, s) => (w, ⟨s, l.drawn ++ [w]⟩)
  horizon l := WordSource.horizon l.source

theorem next_logged (s : σ) (log : List UInt64) : WordSource.next (⟨s, log⟩ : Logged σ) =
    (WordSource.next s).map fun (w, s') => (w, ⟨s', log ++ [w]⟩) := rfl

/-- The words that a source gives one after another, until another source is left. -/
def Gives : σ → List UInt64 → σ → Prop
  | s, [], s' => s' = s
  | s, w :: ws, s' => ∃ t, WordSource.next s = some (w, t) ∧ Gives t ws s'

theorem Gives.append {s t u : σ} {ws ws' : List UInt64} (h : Gives s ws t) (h' : Gives t ws' u) :
    Gives s (ws ++ ws') u := by
  induction ws generalizing s with
  | nil =>
    cases h
    exact h'
  | cons w ws ih =>
    obtain ⟨s₁, hnext, h⟩ := h
    exact ⟨s₁, hnext, ih h⟩

/-- A list gives its words in their order. -/
theorem gives_list_iff {ws : List UInt64} : ∀ {words rest : List UInt64},
    Gives words ws rest ↔ words = ws ++ rest := by
  induction ws with
  | nil => exact fun {words rest} => eq_comm
  | cons w ws ih =>
    intro words rest
    constructor
    · rintro ⟨t, hnext, h⟩
      cases words with
      | nil => exact nomatch hnext
      | cons w' words =>
        cases hnext
        rw [ih.mp h, List.cons_append]
    · rintro rfl
      exact ⟨ws ++ rest, rfl, ih.mpr rfl⟩

namespace Draw

/-! ## Draws on a source and on a source with a log -/

/-- On a source with a log the draw has the same result and leaves the same source, and the log
goes on with the words that were drawn. -/
def Traces (d : Draw σ α) (d' : Draw (Logged σ) α) : Prop :=
  ∀ s, ∃ ws, Gives s ws (d.run s).2 ∧
    ∀ log, d'.run ⟨s, log⟩ = ((d.run s).1, ⟨(d.run s).2, log ++ ws⟩)

/-- What draws nothing. -/
theorem traces_lift (x : Except Fault α) : Traces (liftM x : Draw σ α) (liftM x) := by
  intro s
  refine ⟨[], rfl, fun log => ?_⟩
  rw [List.append_nil]
  rfl

theorem traces_pure (a : α) : Traces (pure a : Draw σ α) (pure a) := traces_lift (.ok a)

theorem Traces.bind {d : Draw σ α} {d' : Draw (Logged σ) α} {k : α → Draw σ β}
    {k' : α → Draw (Logged σ) β} (h : Traces d d') (hk : ∀ a, Traces (k a) (k' a)) :
    Traces (d >>= k) (d' >>= k') := by
  intro s
  obtain ⟨ws, hgives, hrun⟩ := h s
  rw [run_bind]
  simp only [run_bind, hrun]
  revert hgives
  rcases d.run s with ⟨f | a, s₁⟩
  · exact fun hgives => ⟨ws, hgives, fun log => rfl⟩
  · intro hgives
    obtain ⟨ws', hgives', hrun'⟩ := hk a s₁
    refine ⟨ws ++ ws', hgives.append hgives', fun log => ?_⟩
    rw [← List.append_assoc]
    exact hrun' (log ++ ws)

theorem traces_word : Traces (word : Draw σ UInt64) word := by
  intro s
  simp only [run_word, next_logged]
  rcases hnext : WordSource.next s with _ | ⟨w, s'⟩
  · refine ⟨[], rfl, fun log => ?_⟩
    rw [List.append_nil]
    rfl
  · exact ⟨[w], ⟨s', hnext, rfl⟩, fun log => rfl⟩

theorem traces_faceWithin (sides : Nat) : ∀ tries : Nat,
    Traces (faceWithin sides tries : Draw σ Nat) (faceWithin sides tries)
  | 0 => traces_lift (.error .neverAccepted)
  | tries + 1 => traces_word.bind fun w => by
    rcases h : faceOf sides w with _ | f
    · exact traces_faceWithin sides tries
    · exact traces_pure f

/-- A log does not bring the horizon nearer. -/
theorem traces_face (sides : Nat) : Traces (face sides : Draw σ Nat) (face sides) :=
  fun s => traces_faceWithin sides (WordSource.horizon s) s

theorem traces_faces (sides : Nat) : ∀ quantity : Nat,
    Traces (faces sides quantity : Draw σ (List Int)) (faces sides quantity)
  | 0 => traces_pure []
  | quantity + 1 => (traces_face sides).bind fun f =>
    (traces_faces sides quantity).bind fun fs => traces_pure (Int.ofNat f :: fs)

end Draw

theorem Term.traces_outcome (t : Term) : Draw.Traces (t.outcome : Draw σ Outcome) t.outcome := by
  cases t with
  | literal v => exact Draw.traces_pure (Outcome.literal v)
  | dice g =>
    exact (Draw.traces_faces g.sides g.quantity).bind fun fs => Draw.traces_pure (Outcome.dice g fs)

namespace Expression

theorem traces_recordOnto (steps : List (Operator × Term)) : ∀ total : Int,
    Draw.Traces (recordOnto total steps : Draw σ (Int × Record)) (recordOnto total steps) := by
  induction steps with
  | nil => exact fun total => Draw.traces_pure (total, [])
  | cons step steps ih =>
    intro total
    obtain ⟨op, t⟩ := step
    exact t.traces_outcome.bind fun o => (Draw.traces_lift (op.apply total o.value)).bind
      fun total' => (ih total').bind fun (total'', r) => Draw.traces_pure (total'', (op, o) :: r)

theorem traces_record (e : Expression) :
    Draw.Traces (e.record : Draw σ (Int × Record)) e.record :=
  (Draw.traces_lift e.steps).bind fun steps => traces_recordOnto steps 0

end Expression

/-! ## What a draw comes to -/

namespace Draw

/-- Started from the source, the draw comes to this result, draws these words and leaves this
source. -/
structure Draws (d : (τ : Type) → [WordSource τ] → Draw τ α) (s : σ) (r : Except Fault α)
    (ws : List UInt64) (s' : σ) : Prop where
  run : (d σ).run s = (r, s')
  gives : Gives s ws s'
  /-- With a log, the draw adds these words to it, and no others. -/
  logged : ∀ log, (d (Logged σ)).run ⟨s, log⟩ = (r, ⟨s', log ++ ws⟩)

variable {d d' : (τ : Type) → [WordSource τ] → Draw τ α} {s s' : σ} {r : Except Fault α}
  {ws : List UInt64}

theorem Traces.draws (h : Traces (d σ) (d (Logged σ))) (s : σ) :
    ∃ ws, Draws d s ((d σ).run s).1 ws ((d σ).run s).2 := by
  obtain ⟨ws, hgives, hlogged⟩ := h s
  exact ⟨ws, rfl, hgives, hlogged⟩

theorem Draws.congr (h : Draws d s r ws s') (heq : ∀ (τ : Type) [WordSource τ], d τ = d' τ) :
    Draws d' s r ws s' where
  run := by rw [← heq, h.run]
  gives := h.gives
  logged log := by rw [← heq, h.logged]

theorem Draws.map (h : Draws d s r ws s') (f : α → β) :
    Draws (fun τ _ => f <$> d τ) s (r.map f) ws s' where
  run := by rw [run_map, h.run]
  gives := h.gives
  logged log := by rw [run_map, h.logged]

end Draw

end DiceEngine
