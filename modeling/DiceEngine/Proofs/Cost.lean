import DiceEngine.Proofs.Modes
import DiceEngine.Proofs.Supply

/-!
# What an evaluation costs

The words that an evaluation draws are dealt to its dice one after another, and
each die takes words until it accepts one (`Draw.Deals`). So there is one word
for each die and one more for each rejection, and what the dice count for, which
numbers stand between them and how they join the total makes no difference: as
long as no total is out of range, an evaluation throws its groups as if they were
thrown alone (`Expression.run_record_throws`).

What an expression comes to in each mode, with the faces and the words, is
gathered in `Expression.Evaluation`; `Expression.dice_count_is_cost` is what the
number of its dice says about them.
-/

namespace DiceEngine

variable {σ : Type} [WordSource σ]

/-! ## Words dealt to dice -/

namespace Draw

/-- Dealt to dice with these numbers of sides, the words give these faces. A die that rejects a
word takes the next one, and what is rejected is listed at the end. -/
inductive Deals : List Nat → List UInt64 → List Int → List UInt64 → Prop
  | done : Deals [] [] [] []
  | reject {n : Nat} {w : UInt64} {sides : List Nat} {words rejected : List UInt64}
      {faces : List Int} (hw : faceOf n w = none) (h : Deals (n :: sides) words faces rejected) :
      Deals (n :: sides) (w :: words) faces (w :: rejected)
  | accept {n f : Nat} {w : UInt64} {sides : List Nat} {words rejected : List UInt64}
      {faces : List Int} (hw : faceOf n w = some f) (h : Deals sides words faces rejected) :
      Deals (n :: sides) (w :: words) (Int.ofNat f :: faces) rejected

namespace Deals

variable {sides sides' : List Nat} {words words' rejected rejected' : List UInt64}
  {faces faces' : List Int}

/-- Each die accepts one word. -/
theorem length_words (h : Deals sides words faces rejected) :
    words.length = sides.length + rejected.length := by
  induction h with
  | done => rfl
  | reject _ _ ih => simp only [List.length_cons] at ih ⊢; omega
  | accept _ _ ih => simp only [List.length_cons] at ih ⊢; omega

/-- Each die shows one face. -/
theorem length_faces (h : Deals sides words faces rejected) : faces.length = sides.length := by
  induction h with
  | done => rfl
  | reject _ _ ih => exact ih
  | accept _ _ ih => simp only [List.length_cons, ih]

theorem append (h : Deals sides words faces rejected) (h' : Deals sides' words' faces' rejected') :
    Deals (sides ++ sides') (words ++ words') (faces ++ faces') (rejected ++ rejected') := by
  induction h with
  | done => exact h'
  | reject hw _ ih => exact .reject hw ih
  | accept hw _ ih => exact .accept hw ih

end Deals

theorem Gets.deals {n f : Nat} {s s' : σ} (h : Gets n s f s') :
    ∃ words rejected, Gives s words s' ∧ Deals [n] words [Int.ofNat f] rejected := by
  obtain ⟨rejected, w, hgives, hrejected, hw⟩ := h
  refine ⟨rejected ++ [w], rejected, hgives, ?_⟩
  clear hgives
  induction rejected with
  | nil => exact .accept hw .done
  | cons v rejected ih =>
    obtain ⟨hv, hrejected⟩ := List.forall_mem_cons.mp hrejected
    exact .reject hv (ih hrejected)

/-- What some dice show was dealt to them. -/
theorem deals_of_run_faces {n : Nat} : ∀ {quantity : Nat} {s s' : σ} {fs : List Int},
    (faces n quantity : Draw σ (List Int)).run s = (.ok fs, s') →
    ∃ words rejected, Gives s words s' ∧ Deals (List.replicate quantity n) words fs rejected := by
  intro quantity
  induction quantity with
  | zero =>
    intro s s' fs h
    cases h
    exact ⟨[], [], rfl, .done⟩
  | succ quantity ih =>
    intro s s' fs h
    obtain ⟨f, t, hface, h⟩ := run_bind_eq_ok_iff.mp h
    obtain ⟨fs, t', hfaces, h⟩ := run_bind_eq_ok_iff.mp h
    cases h
    obtain ⟨ws, rs, hgives, hdeals⟩ := (gets_of_run hface).deals
    obtain ⟨ws', rs', hgives', hdeals'⟩ := ih hfaces
    exact ⟨ws ++ ws', rs ++ rs', hgives.append hgives', hdeals.append hdeals'⟩

/-- Throw some groups one after another. -/
def throws : List DieGroup → Draw σ (List (List Int))
  | [] => pure []
  | g :: gs => do
    let faces ← g.throw
    let rest ← throws gs
    pure (faces :: rest)

theorem throws_append (gs gs' : List DieGroup) : (throws (gs ++ gs') : Draw σ (List (List Int))) =
    throws gs >>= fun first => (first ++ ·) <$> throws gs' := by
  induction gs with
  | nil => simp only [List.nil_append, throws, pure_bind, id_map']
  | cons g gs ih =>
    simp only [List.cons_append, throws, ih, bind_assoc, bind_pure_comp, map_bind, bind_map_left,
      Functor.map_map]

/-- What some groups show was dealt to their dice. -/
theorem deals_of_run_throws {gs : List DieGroup} : ∀ {s s' : σ} {thrown : List (List Int)},
    (throws gs : Draw σ (List (List Int))).run s = (.ok thrown, s') →
    ∃ words rejected, Gives s words s' ∧
      Deals (gs.flatMap fun g => List.replicate g.quantity g.sides) words thrown.flatten
        rejected := by
  induction gs with
  | nil =>
    intro s s' thrown h
    cases h
    exact ⟨[], [], rfl, .done⟩
  | cons g gs ih =>
    intro s s' thrown h
    obtain ⟨fs, t, hthrow, h⟩ := run_bind_eq_ok_iff.mp h
    obtain ⟨rest, t', hrest, h⟩ := run_bind_eq_ok_iff.mp h
    cases h
    obtain ⟨ws, rs, hgives, hdeals⟩ := deals_of_run_faces hthrow
    obtain ⟨ws', rs', hgives', hdeals'⟩ := ih hrest
    exact ⟨ws ++ ws', rs ++ rs', hgives.append hgives', hdeals.append hdeals'⟩

/-- Groups with as many dice of the same kinds are thrown alike, whatever they keep. -/
theorem throws_congr {gs : List DieGroup} : ∀ {gs' : List DieGroup},
    (gs.map fun g => (g.quantity, g.sides)) = (gs'.map fun g => (g.quantity, g.sides)) →
    (throws gs : Draw σ (List (List Int))) = throws gs' := by
  induction gs with
  | nil =>
    intro gs' h
    rw [List.map_nil, eq_comm, List.map_eq_nil_iff] at h
    rw [h]
  | cons g gs ih =>
    intro gs' h
    obtain ⟨g', gs', rfl, hg, hgs⟩ := List.map_eq_cons_iff.mp h.symm
    rw [Prod.mk.injEq] at hg
    rw [throws, throws, ih hgs.symm, DieGroup.throw, DieGroup.throw, hg.1, hg.2]

/-- A log is of the words that its source gives. -/
theorem gives_logged {ws : List UInt64} : ∀ {s s' : σ} {log log' : List UInt64},
    Gives (⟨s, log⟩ : Logged σ) ws ⟨s', log'⟩ → log' = log ++ ws := by
  induction ws with
  | nil =>
    intro s s' log log' h
    cases h
    exact (List.append_nil _).symm
  | cons w ws ih =>
    rintro s s' log log' ⟨⟨t, _⟩, hnext, h⟩
    rw [next_logged, Option.map_eq_some_iff] at hnext
    obtain ⟨_, -, heq⟩ := hnext
    cases heq
    rw [ih h, List.append_assoc]
    rfl

variable {α : Type} {d : (τ : Type) → [WordSource τ] → Draw τ α} {s s₁ s₂ : σ}
  {r₁ r₂ : Except Fault α} {ws₁ ws₂ : List UInt64}

/-- A draw comes to one thing only. -/
theorem Draws.unique (h₁ : Draws d s r₁ ws₁ s₁) (h₂ : Draws d s r₂ ws₂ s₂) :
    r₁ = r₂ ∧ ws₁ = ws₂ ∧ s₁ = s₂ := by
  have h := (h₁.logged []).symm.trans (h₂.logged [])
  rw [Prod.mk.injEq] at h
  obtain ⟨hr, hlog⟩ := h
  injection hlog with hs hws
  exact ⟨hr, hws, hs⟩

end Draw

/-! ## The dice of an evaluation -/

/-- A total is out of range. -/
inductive Fault.OutOfRange : Fault → Prop
  | add : OutOfRange .addOverflow
  | sub : OutOfRange .subOverflow

/-- The faces of a term that throws dice. -/
def Outcome.throws : Outcome → List (List Int)
  | literal _ => []
  | dice _ faces => [faces]

/-- The faces thrown, group by group. -/
def Record.throws (r : Record) : List (List Int) := r.flatMap fun entry => entry.2.throws

/-- A term throws its groups. -/
theorem Term.throws_outcome (t : Term) :
    Outcome.throws <$> (t.outcome : Draw σ Outcome) = Draw.throws t.groups := by
  cases t with
  | literal v => rfl
  | dice g =>
    simp only [outcome, groups, Draw.throws, map_bind, map_pure, pure_bind, Outcome.throws]

namespace Expression

section Shown

variable {t : Term} {o : Outcome} {s s' : σ} (h : t.outcome.run s = (.ok o, s'))

include h

/-- What a term shows joins the total, and the next terms are recorded behind it. -/
theorem run_recordOnto (op : Operator) (steps : List (Operator × Term)) (total : Int) :
    (recordOnto total ((op, t) :: steps) : Draw σ (Int × Record)).run s =
      (liftM (op.apply total o.value) >>= fun total' =>
        (fun p => (p.1, (op, o) :: p.2)) <$> recordOnto total' steps : Draw σ _).run s' := by
  rw [recordOnto, Draw.run_bind, h]
  simp only [bind_pure_comp]

/-- The total is out of range, or it goes on with the next term. -/
theorem run_recordOnto_cons (op : Operator) (steps : List (Operator × Term)) (total : Int) :
    (∃ f, f.OutOfRange ∧
      ((recordOnto total ((op, t) :: steps) : Draw σ (Int × Record)).run s).1 = .error f) ∨
    ∃ total', op.apply total o.value = .ok total' ∧
      (recordOnto total ((op, t) :: steps) : Draw σ (Int × Record)).run s =
        ((fun p => (p.1, (op, o) :: p.2)) <$> recordOnto total' steps).run s' := by
  have happly := op.ending_apply (E := Fault.OutOfRange) .add .sub total o.value
  rw [run_recordOnto h]
  cases hv : op.apply total o.value with
  | error f =>
    rw [hv] at happly
    exact .inl ⟨f, happly, rfl⟩
  | ok total' => exact .inr ⟨total', rfl, rfl⟩

theorem run_recordOnto_of_apply {op : Operator} {steps : List (Operator × Term)}
    {total total' total'' : Int} {r : Record} {s'' : σ} (htotal : op.apply total o.value = .ok total')
    (hrest : (recordOnto total' steps).run s' = (.ok (total'', r), s'')) :
    (recordOnto total ((op, t) :: steps) : Draw σ (Int × Record)).run s =
      (.ok (total'', (op, o) :: r), s'') := by
  rw [run_recordOnto h, htotal]
  show ((fun p => (p.1, (op, o) :: p.2)) <$> recordOnto total' steps).run s' = _
  rw [Draw.run_map, hrest]
  rfl

end Shown

/-- Some terms throw their groups as if these were thrown alone, unless a total is out of range. -/
theorem run_recordOnto_throws (steps : List (Operator × Term)) : ∀ (total : Int) (s : σ),
    (∃ f, f.OutOfRange ∧
      ((recordOnto total steps : Draw σ (Int × Record)).run s).1 = .error f) ∨
    ((fun p => p.2.throws) <$> (recordOnto total steps : Draw σ (Int × Record))).run s =
      (Draw.throws (steps.flatMap fun step => step.2.groups)).run s := by
  induction steps with
  | nil => exact fun _ _ => .inr rfl
  | cons step steps ih =>
    intro total s
    obtain ⟨op, t⟩ := step
    rw [List.flatMap_cons, Draw.throws_append, ← t.throws_outcome, Draw.run_map, Draw.run_bind,
      Draw.run_map]
    -- Both sides throw the group of the first term, and stop there or go on from the same source.
    rcases h : t.outcome.run s with ⟨f | o, s'⟩
    · right
      rw [recordOnto, Draw.run_bind, h]
      rfl
    rcases run_recordOnto_cons h op steps total with hout | ⟨total', -, hrun⟩
    · exact .inl hout
    rw [hrun, Draw.run_map]
    rcases ih total' s' with ⟨f, hf, hout⟩ | hrest
    · exact .inl ⟨f, hf, by rw [hout]; rfl⟩
    · right
      show _ = ((o.throws ++ ·) <$> Draw.throws (steps.flatMap fun step => step.2.groups)).run s'
      rw [Draw.run_map, ← hrest, Draw.run_map]
      cases ((recordOnto total' steps : Draw σ (Int × Record)).run s').1 <;> rfl

/-- A recorded evaluation in which no total is out of range throws the groups of its expression. -/
theorem run_throws_of_record {e : Expression} (hc : e.isComplete = true) {s s' : σ}
    {r : Except Fault (Int × Record)} (h : e.record.run s = (r, s'))
    (hin : ∀ f, f.OutOfRange → r ≠ .error f) :
    (Draw.throws e.groups).run s = (r.map fun p => p.2.throws, s') := by
  have hs := steps_eq_ok_iff.mpr ⟨hc, rfl⟩
  generalize (Operator.add :: e.operators).zip e.terms = steps at hs
  have hgroups : e.groups = steps.flatMap fun step => step.2.groups := by
    rw [groups, ← map_snd_of_steps hs, List.flatMap_map]
  have hrun : (recordOnto 0 steps).run s = (r, s') := by
    rw [record, hs] at h
    exact h
  rcases run_recordOnto_throws steps 0 s with ⟨f, hf, hout⟩ | hthrows
  · rw [hrun] at hout
    exact absurd hout (hin f hf)
  · rw [hgroups, ← hthrows, Draw.run_map, hrun]

/-! ## What an evaluation comes to -/

/-- The total, as a mode evaluates it. -/
def evaluate (mode : Console.Mode) (e : Expression) : Draw σ Int :=
  match mode with
  | .total => e.roll
  | .verbose => Prod.fst <$> e.rollBrief
  | .full => Prod.fst <$> e.rollFull

/-- Each mode evaluates what is recorded. -/
theorem evaluate_eq (mode : Console.Mode) (e : Expression) :
    (e.evaluate mode : Draw σ Int) = Prod.fst <$> e.record := by
  rw [e.fst_record]
  cases mode with
  | total => rfl
  | verbose => exact e.fst_rollBrief
  | full => exact e.fst_rollFull

/-- What the evaluation of an expression comes to from a source: a total and the faces of each
group, or a fault, and the words that are drawn and the source that is left. -/
structure Evaluation (e : Expression) (s : σ) (r : Except Fault (Int × List (List Int)))
    (words : List UInt64) (s' : σ) : Prop where
  /-- The faces are those of the record. -/
  record : Draw.Draws (fun _ _ => (fun p => (p.1, p.2.throws)) <$> e.record) s r words s'
  /-- Every mode comes to the same total on the same words. -/
  evaluate : ∀ mode, Draw.Draws (fun _ _ => e.evaluate mode) s (r.map Prod.fst) words s'
  /-- The groups, when they are thrown alone, show the same faces on the same words. -/
  throws : Draw.Draws (fun _ _ => Draw.throws e.groups) s (r.map Prod.snd) words s'

theorem exists_evaluation {e : Expression} (hc : e.isComplete = true) {s : σ} {mode : Console.Mode}
    (hin : ∀ f, f.OutOfRange → ((e.evaluate mode).run s).1 ≠ .error f) :
    ∃ r words s', e.Evaluation s r words s' := by
  obtain ⟨words, hdraws⟩ := Draw.Traces.draws (d := fun _ _ => e.record) e.traces_record s
  generalize hr : (e.record.run s).1 = r at hdraws
  generalize (e.record.run s).2 = s' at hdraws
  have hrecord : ∀ f, f.OutOfRange → r ≠ .error f := by
    intro f hf h
    refine hin f hf ?_
    rw [evaluate_eq, Draw.run_map, hr, h]
    rfl
  refine ⟨_, words, s', ⟨hdraws.map fun p => (p.1, p.2.throws), fun mode => ?_, ?_⟩⟩
  · have h := (hdraws.map Prod.fst).congr fun τ _ => (evaluate_eq mode e).symm
    cases r <;> exact h
  · have h : Draw.Draws (fun _ _ => Draw.throws e.groups) s (r.map fun p => p.2.throws) words s' :=
      { run := run_throws_of_record hc hdraws.run hrecord
        gives := hdraws.gives
        logged := fun log => run_throws_of_record hc (hdraws.logged log) hrecord }
    cases r <;> exact h

/-- The words of an evaluation are dealt to its dice. -/
theorem Evaluation.deals {e : Expression} {s s' : σ} {total : Int} {thrown : List (List Int)}
    {words : List UInt64} (h : e.Evaluation s (.ok (total, thrown)) words s') :
    ∃ rejected, Draw.Deals e.diceSides words thrown.flatten rejected := by
  obtain ⟨ws, rejected, hgives, hdeals⟩ := Draw.deals_of_run_throws (h.throws.logged [])
  obtain rfl := Draw.gives_logged hgives
  have hsides : e.diceSides = e.groups.flatMap fun g => List.replicate g.quantity g.sides := by
    rw [diceSides, groups, List.flatMap_assoc]
    refine List.flatMap_congr fun t _ => ?_
    cases t with
    | literal v => rfl
    | dice g => exact (List.append_nil _).symm
  exact ⟨rejected, hsides ▸ hdeals⟩

/-- As many faces are thrown as an expression has dice, and as many words are drawn as there are
dice and rejected words, in whichever mode it is evaluated. And two expressions with the same dice
draw the same words and throw the same faces as long as no total is out of range, or they stop at
the same place: what they keep, their numbers and their operators make no difference. -/
theorem dice_count_is_cost {e : Expression} (hw : e.WellFormed) (hc : e.isComplete = true) (s : σ) :
    (∀ mode total s', (e.evaluate mode).run s = (.ok total, s') → ∃ words thrown rejected,
      e.Evaluation s (.ok (total, thrown)) words s' ∧
      Draw.Deals e.diceSides words thrown.flatten rejected ∧
      thrown.flatten.length = e.diceCount ∧ e.diceCount ≤ 100 ∧
      words.length = e.diceCount + rejected.length) ∧
    ∀ (e' : Expression) (mode mode' : Console.Mode), e'.isComplete = true →
      (e.groups.map fun g => (g.quantity, g.sides)) =
        (e'.groups.map fun g => (g.quantity, g.sides)) →
      (∀ f, f.OutOfRange → ((e.evaluate mode).run s).1 ≠ .error f) →
      (∀ f, f.OutOfRange → ((e'.evaluate mode').run s).1 ≠ .error f) →
      ∃ words s',
        (∃ f, e.Evaluation s (.error f) words s' ∧ e'.Evaluation s (.error f) words s') ∨
        ∃ total total' thrown, e.Evaluation s (.ok (total, thrown)) words s' ∧
          e'.Evaluation s (.ok (total', thrown)) words s' := by
  constructor
  · intro mode total s' hrun
    have hin : ∀ f, f.OutOfRange → ((e.evaluate mode).run s).1 ≠ .error f := by
      rw [hrun]
      exact fun f _ => nofun
    obtain ⟨r, words, t, h⟩ := exists_evaluation hc hin
    have hmode := (h.evaluate mode).run
    rw [hrun, Prod.mk.injEq] at hmode
    obtain ⟨hresult, rfl⟩ := hmode
    obtain _ | ⟨_, thrown⟩ := r
    · cases hresult
    cases hresult
    obtain ⟨rejected, hdeals⟩ := h.deals
    have hdice : e.diceSides.length = e.diceCount := by
      simp only [diceSides, List.length_flatMap, Term.length_diceSides, hw.counted]
    exact ⟨words, thrown, rejected, h, hdeals, hdeals.length_faces.trans hdice, hw.capped,
      hdice ▸ hdeals.length_words⟩
  · intro e' mode mode' hc' hdice hin hin'
    obtain ⟨r, words, t, h⟩ := exists_evaluation hc hin
    obtain ⟨r', words', t', h'⟩ := exists_evaluation hc' hin'
    have hthrows : Draw.Draws (fun _ _ => Draw.throws e.groups) s (r'.map Prod.snd) words' t' :=
      h'.throws.congr fun τ _ => (Draw.throws_congr hdice).symm
    obtain ⟨hresult, rfl, rfl⟩ := h.throws.unique hthrows
    refine ⟨words, t, ?_⟩
    obtain f | ⟨total, thrown⟩ := r <;> obtain f' | ⟨total', thrown'⟩ := r' <;> cases hresult
    · exact .inl ⟨f, h, h'⟩
    · exact .inr ⟨total, total', thrown, h, h'⟩

/-- Dice of which none is kept, or that have one side, take their words as well. The first word is
rejected. -/
theorem dice_count_is_cost_dropped_dice :
    let e : Expression := ⟨[
      .dice ⟨2, 6, some ⟨.highest, 0⟩, by decide, by decide, by decide, by decide, by decide⟩,
      .dice ⟨2, 1, some ⟨.lowest, 0⟩, by decide, by decide, by decide, by decide, by decide⟩,
      .literal 5], [.sub, .add], 4⟩
    let e' : Expression := ⟨[.literal 12,
      .dice ⟨2, 6, some ⟨.lowest, 0⟩, by decide, by decide, by decide, by decide, by decide⟩,
      .dice ⟨2, 1, some ⟨.highest, 0⟩, by decide, by decide, by decide, by decide, by decide⟩],
      [.sub, .sub], 4⟩
    let words : List UInt64 := [0x5555555555555555, 0, 0x8000000000000000, 7, 8, 9]
    e.WellFormed ∧ e.isComplete = true ∧ (e.evaluate .full).run words = (.ok 5, [9]) ∧
      (∃ drawn thrown rejected, e.Evaluation words (.ok (5, thrown)) drawn [9] ∧
        Draw.Deals e.diceSides drawn thrown.flatten rejected ∧ thrown.flatten.length = 4 ∧
        drawn.length = 4 + rejected.length) ∧
      e'.isComplete = true ∧ (e'.evaluate .total).run words = (.ok 12, [9]) ∧
      ∃ drawn s', (∃ f, e.Evaluation words (.error f) drawn s' ∧
          e'.Evaluation words (.error f) drawn s') ∨
        ∃ total total' thrown, e.Evaluation words (.ok (total, thrown)) drawn s' ∧
          e'.Evaluation words (.ok (total', thrown)) drawn s' := by
  intro e e' words
  have hw : e.WellFormed := ⟨.inr rfl, rfl, by decide⟩
  have hrun : (e.evaluate .full).run words = (.ok 5, [9]) := by
    rw [evaluate_eq, fst_record]
    rfl
  have hrun' : (e'.evaluate .total).run words = (.ok 12, [9]) := by
    rw [evaluate_eq, fst_record]
    rfl
  have h := dice_count_is_cost hw rfl words
  obtain ⟨drawn, thrown, rejected, heval, hdeals, hfaces, -, hwords⟩ := h.1 .full 5 [9] hrun
  refine ⟨hw, rfl, hrun, ⟨drawn, thrown, rejected, heval, hdeals, hfaces, hwords⟩, rfl, hrun',
    h.2 e' .full .total rfl rfl ?_ ?_⟩
  · rw [hrun]
    exact fun f _ => nofun
  · rw [hrun']
    exact fun f _ => nofun

end Expression

end DiceEngine
