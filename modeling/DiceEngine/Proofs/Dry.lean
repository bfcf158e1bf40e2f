import DiceEngine.Proofs.Transcript

/-!
# Running out of words

A draw that ends for lack of words leaves a source that has none: single words
are drawn so (`Draw.dry_word`), and the rules follow the way draws are put
together (`Draw.Dry`), up to the record of an expression
(`Expression.dry_record`) and the three ways to roll it. A list that is left so
is empty (`Draw.Dry.eq_nil`).
-/

namespace DiceEngine

variable {σ α β : Type} [WordSource σ]

namespace Draw

/-- Where the draw ends for lack of words, the source that it leaves has no word. -/
def Dry (d : Draw σ α) : Prop :=
  ∀ s, (d.run s).1 = .error .outOfWords → WordSource.next (d.run s).2 = none

/-- What draws nothing. -/
theorem dry_lift {x : Except Fault α} (h : x ≠ .error .outOfWords) : Dry (liftM x : Draw σ α) :=
  fun _ hx => absurd hx h

theorem dry_pure (a : α) : Dry (pure a : Draw σ α) := dry_lift (x := .ok a) nofun

theorem Dry.bind {d : Draw σ α} {k : α → Draw σ β} (h : Dry d) (hk : ∀ a, Dry (k a)) :
    Dry (d >>= k) := by
  intro s
  have hs := h s
  rw [run_bind]
  revert hs
  rcases d.run s with ⟨f | a, s'⟩
  · intro hs hf
    cases hf
    exact hs rfl
  · exact fun _ => hk a s'

theorem Dry.map {d : Draw σ α} (h : Dry d) (f : α → β) : Dry (f <$> d) := by
  rw [← bind_pure_comp]
  exact h.bind fun a => dry_pure (f a)

theorem dry_word : Dry (word : Draw σ UInt64) := by
  intro s
  rw [run_word]
  rcases hnext : WordSource.next s with _ | ⟨w, s'⟩
  · exact fun _ => hnext
  · exact nofun

theorem dry_faceWithin (sides : Nat) : ∀ tries : Nat, Dry (faceWithin sides tries : Draw σ Nat)
  | 0 => dry_lift (x := .error .neverAccepted) nofun
  | tries + 1 => dry_word.bind fun w => by
    rcases h : faceOf sides w with _ | f
    · exact dry_faceWithin sides tries
    · exact dry_pure f

theorem dry_face (sides : Nat) : Dry (face sides : Draw σ Nat) :=
  fun s => dry_faceWithin sides (WordSource.horizon s) s

theorem dry_faces (sides : Nat) : ∀ quantity : Nat, Dry (faces sides quantity : Draw σ (List Int))
  | 0 => dry_pure []
  | quantity + 1 => (dry_face sides).bind fun f =>
    (dry_faces sides quantity).bind fun fs => dry_pure (Int.ofNat f :: fs)

/-- A list that has no word is empty. -/
theorem Dry.eq_nil {d : Draw (List UInt64) α} (h : Dry d) {words : List UInt64}
    (hout : (d.run words).1 = .error .outOfWords) : (d.run words).2 = [] := by
  have hnext := h words hout
  cases hrest : (d.run words).2 with
  | nil => rfl
  | cons w rest =>
    rw [hrest] at hnext
    cases hnext

end Draw

theorem Term.dry_outcome (t : Term) : Draw.Dry (t.outcome : Draw σ Outcome) := by
  cases t with
  | literal v => exact Draw.dry_pure (Outcome.literal v)
  | dice g => exact (Draw.dry_faces g.sides g.quantity).bind fun fs =>
      Draw.dry_pure (Outcome.dice g fs)

/-- Joining a total takes no word. -/
theorem Operator.apply_ne_outOfWords (op : Operator) (a b : Int) :
    op.apply a b ≠ .error .outOfWords := by
  cases op with
  | add =>
    show Total.add a b ≠ _
    rw [Total.add]
    split <;> exact nofun
  | sub =>
    show Total.sub a b ≠ _
    rw [Total.sub]
    split <;> exact nofun

namespace Expression

theorem steps_ne_outOfWords (e : Expression) : e.steps ≠ .error .outOfWords := by
  rw [steps]
  split <;> exact nofun

theorem dry_recordOnto (steps : List (Operator × Term)) : ∀ total : Int,
    Draw.Dry (recordOnto total steps : Draw σ (Int × Record)) := by
  induction steps with
  | nil => exact fun total => Draw.dry_pure (total, [])
  | cons step steps ih =>
    intro total
    obtain ⟨op, t⟩ := step
    refine t.dry_outcome.bind fun o => ?_
    refine (Draw.dry_lift (op.apply_ne_outOfWords total o.value)).bind fun total' => ?_
    exact (ih total').bind fun p => Draw.dry_pure (p.1, (op, o) :: p.2)

theorem dry_record (e : Expression) : Draw.Dry (e.record : Draw σ (Int × Record)) :=
  (Draw.dry_lift e.steps_ne_outOfWords).bind fun steps => dry_recordOnto steps 0

theorem dry_roll (e : Expression) : Draw.Dry (e.roll : Draw σ Int) := by
  rw [← fst_record]
  exact e.dry_record.map Prod.fst

theorem dry_rollBrief (e : Expression) : Draw.Dry (e.rollBrief : Draw σ (Int × String)) :=
  e.dry_record.bind fun p => Draw.dry_pure (p.1, p.2.brief)

theorem dry_rollFull (e : Expression) : Draw.Dry (e.rollFull : Draw σ (Int × String)) :=
  e.dry_record.bind fun p => Draw.dry_pure (p.1, p.2.full p.1)

end Expression

end DiceEngine
