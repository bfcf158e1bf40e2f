import DiceEngine.Console.Session
import DiceEngine.Proofs.Building
import DiceEngine.Proofs.Logged
import DiceEngine.Proofs.Spelling

/-!
# One roll in three modes

The three evaluators of an expression are one evaluation that is recorded, and
the texts of the three modes are made of its total and its record
(`Console.render_eq`). So they draw the same words, leave the same source, and
come to the same total or the same fault (`Expression.Agreement`,
`Expression.evaluators_agree`); and where a record has a term, the text of each
mode ends on the total (`Record.showsTotal`).
-/

namespace DiceEngine

/-! ## How an evaluation ends -/

section Endings

variable {σ : Type} [WordSource σ] {E : Fault → Prop}

theorem Operator.ending_apply (hadd : E .addOverflow) (hsub : E .subOverflow) (op : Operator)
    (a b : Int) : Draw.Ending E (fun _ => True) (op.apply a b) := by
  cases op with
  | add =>
    show Draw.Ending E _ (if Total.InRange (a + b) then .ok (a + b) else .error .addOverflow)
    split
    · trivial
    · exact hadd
  | sub =>
    show Draw.Ending E _ (if Total.InRange (a - b) then .ok (a - b) else .error .subOverflow)
    split
    · trivial
    · exact hsub

variable (hface : ∀ sides, 1 ≤ sides →
    Draw.Ends E (fun f => 1 ≤ f ∧ f ≤ sides) (Draw.face sides : Draw σ Nat))
  (hadd : E .addOverflow) (hsub : E .subOverflow)

include hface in
theorem Term.ends_outcome (t : Term) :
    Draw.Ends E (fun _ => True) (t.outcome : Draw σ Outcome) := by
  cases t with
  | literal v => exact Draw.Ends.pure trivial
  | dice g => exact (g.ends_throw hface).bind fun fs _ => Draw.Ends.pure trivial

namespace Expression

include hface hadd hsub

/-- The record has an outcome for each term. What stops it is a lack of faces or an overflow. -/
theorem ends_recordOnto (steps : List (Operator × Term)) : ∀ total : Int,
    Draw.Ends E (fun p => p.2.length = steps.length)
      (recordOnto total steps : Draw σ (Int × Record)) := by
  induction steps with
  | nil => exact fun total => Draw.Ends.pure rfl
  | cons step steps ih =>
    intro total
    obtain ⟨op, t⟩ := step
    refine (t.ends_outcome hface).bind fun o _ => ?_
    refine (Draw.Ends.lift (op.ending_apply hadd hsub total o.value)).bind fun total' _ => ?_
    refine (ih total').bind fun p hp => Draw.Ends.pure ?_
    rw [List.length_cons, List.length_cons, hp]

theorem ends_record {e : Expression} (hc : e.isComplete = true) :
    Draw.Ends E (fun p => p.2 ≠ []) (e.record : Draw σ (Int × Record)) := by
  have hsteps : e.steps = .ok ((Operator.add :: e.operators).zip e.terms) :=
    steps_eq_ok_iff.mpr ⟨hc, rfl⟩
  rw [record, hsteps]
  refine (ends_recordOnto hface hadd hsub _ 0).mono fun p hp => ?_
  rw [List.length_zip, List.length_cons, isComplete_iff.mp hc, Nat.min_self] at hp
  exact List.ne_nil_of_length_eq_add_one hp

end Expression

end Endings

/-- Without all its terms an expression is not evaluated at all. -/
theorem Expression.record_of_incomplete {e : Expression} (hc : e.isComplete = false) (σ : Type)
    [WordSource σ] : (e.record : Draw σ (Int × Record)) =
      liftM (Except.error (Fault.incomplete e.terms.length e.operators.length) :
        Except Fault (Int × Record)) := by
  have hsteps : e.steps = .error (.incomplete e.terms.length e.operators.length) := by
    rw [steps, hc]
    rfl
  rw [record, hsteps]
  rfl

/-! ## The texts of the modes -/

/-- The last line of the text. -/
def EndsOnLine (text line : String) : Prop :=
  '\n' ∉ line.toList ∧ ∃ body, text = body ++ "\n" ++ line

/-- The text is what a mode shows of a roll with this total: nothing else, or the total at its
end. -/
def ShowsTotal (text : String) (total : Int) : Console.Mode → Prop
  | .total => text = toString total
  | .verbose | .full => EndsOnLine text ("= " ++ toString total)

namespace Record

/-- The text that a mode makes of a record with this total. -/
def shown (r : Record) (total : Int) : Console.Mode → String
  | .total => toString total
  | .verbose => r.brief ++ "\n= " ++ toString total
  | .full => r.full total

theorem fullLines_ne_nil {r : Record} (h : r ≠ []) : r.fullLines ≠ [] := by
  cases r with
  | nil => exact absurd rfl h
  | cons step r => exact List.cons_ne_nil _ _

theorem newline_not_mem_total (total : Int) : '\n' ∉ ("= " ++ toString total).toList := by
  intro hc
  rw [String.toList_append] at hc
  rcases List.mem_append.mp hc with hc | hc
  · revert hc
    decide
  · rcases mem_toString hc with hc | hc
    · exact absurd hc (by decide)
    · exact absurd hc (by decide)

/-- Where a term has been recorded, each mode shows the total. -/
theorem showsTotal {r : Record} (h : r ≠ []) (total : Int) (mode : Console.Mode) :
    ShowsTotal (r.shown total mode) total mode := by
  cases mode with
  | total => exact rfl
  | verbose =>
    refine ⟨newline_not_mem_total total, r.brief, ?_⟩
    show r.brief ++ ("\n" ++ "= ") ++ toString total = _
    rw [String.append_assoc, String.append_assoc, String.append_assoc]
  | full =>
    refine ⟨newline_not_mem_total total, "\n".intercalate r.fullLines, ?_⟩
    show "\n".intercalate (r.fullLines ++ ["= " ++ toString total]) = _
    rw [String.intercalate_append_of_ne_nil (fullLines_ne_nil h) (List.cons_ne_nil _ _),
      String.intercalate_singleton]

end Record

/-- Each mode shows the record of one and the same evaluation. -/
theorem Console.render_eq {σ : Type} [WordSource σ] (mode : Console.Mode) (e : Expression) :
    (render mode e : Draw σ String) = (fun p => p.2.shown p.1 mode) <$> e.record := by
  cases mode with
  | total =>
    show (toString <$> (e.roll : Draw σ Int)) = _
    rw [← e.fst_record, Functor.map_map]
    rfl
  | verbose =>
    simp only [render, Expression.rollBrief, bind_pure_comp, Functor.map_map]
    rfl
  | full =>
    simp only [render, Expression.rollFull, bind_pure_comp, Functor.map_map]
    rfl

/-! ## The evaluators -/

namespace Expression

/-- How the evaluation of a complete expression may stop: the words run out, none of them is
accepted, or a total is out of range. -/
inductive StopsAt : Fault → Prop
  | outOfWords : StopsAt .outOfWords
  | neverAccepted : StopsAt .neverAccepted
  | addOverflow : StopsAt .addOverflow
  | subOverflow : StopsAt .subOverflow

/-- What all evaluators of an expression come to from one source: the result, the words that they
draw, and the source that they leave. -/
structure Agreement {σ : Type} [WordSource σ] (e : Expression) (s : σ) (r : Except Fault Int)
    (ws : List UInt64) (s' : σ) : Prop where
  roll : Draw.Draws (fun _ _ => e.roll) s r ws s'
  rollBrief : Draw.Draws (fun _ _ => Prod.fst <$> e.rollBrief) s r ws s'
  rollFull : Draw.Draws (fun _ _ => Prod.fst <$> e.rollFull) s r ws s'
  /-- An unfinished expression is refused before any word is drawn. -/
  incomplete : e.isComplete = false →
    r = .error (.incomplete e.terms.length e.operators.length) ∧ ws = [] ∧ s' = s
  complete : e.isComplete = true → (∃ total, r = .ok total) ∨ ∃ f, r = .error f ∧ StopsAt f
  /-- Whichever way the console is asked to roll the expression, it shows this result. -/
  answer : ∀ (c : Console.Config) (line : String) (mode : Console.Mode),
    Console.Command.parse c.mode c.aliases line = .ok (.roll mode e) →
    ∃ out, Draw.Draws (fun _ _ => Console.answer c line) s out ws s' ∧
      (∀ f, r = .error f → out = .error f) ∧
      ∀ total, r = .ok total → ∃ text, out = .ok text ∧ ShowsTotal text total mode

theorem draws_record {σ : Type} [WordSource σ] (e : Expression) (s : σ) :
    ∃ r ws s', Draw.Draws (fun _ _ => e.record) s r ws s' ∧
      (e.isComplete = false →
        r = .error (.incomplete e.terms.length e.operators.length) ∧ ws = [] ∧ s' = s) ∧
      (e.isComplete = true → Draw.Ending StopsAt (fun p => p.2 ≠ []) r) := by
  cases hc : e.isComplete with
  | true =>
    obtain ⟨ws, hdraws⟩ := Draw.Traces.draws (d := fun _ _ => e.record) e.traces_record s
    refine ⟨_, ws, _, hdraws, nofun, fun _ => ?_⟩
    have hface : ∀ sides, 1 ≤ sides →
        Draw.Ends StopsAt (fun f => 1 ≤ f ∧ f ≤ sides) (Draw.face sides : Draw σ Nat) :=
      fun _ hs => Draw.ends_face_any .outOfWords .neverAccepted hs
    exact ends_record hface .addOverflow .subOverflow hc s
  | false =>
    -- Nothing is drawn, so the source and its log stay as they are.
    refine ⟨_, [], s, ⟨?_, rfl, fun log => ?_⟩, fun _ => ⟨rfl, rfl, rfl⟩, nofun⟩
    · rw [record_of_incomplete hc]
      rfl
    · rw [record_of_incomplete hc, List.append_nil]
      rfl

theorem exists_agreement {σ : Type} [WordSource σ] (e : Expression) (s : σ) :
    ∃ r ws s', e.Agreement s r ws s' := by
  -- All of them are the recorded evaluation, each with another view of its result.
  obtain ⟨r, ws, s', hdraws, hincomplete, hcomplete⟩ := e.draws_record s
  have hroll := hdraws.map Prod.fst
  refine ⟨r.map Prod.fst, ws, s', ?_⟩
  constructor
  case roll => exact hroll.congr fun _ _ => e.fst_record
  case rollBrief => exact hroll.congr fun _ _ => e.fst_record.trans e.fst_rollBrief.symm
  case rollFull => exact hroll.congr fun _ _ => e.fst_record.trans e.fst_rollFull.symm
  case incomplete =>
    intro hc
    obtain ⟨rfl, hws, hs⟩ := hincomplete hc
    exact ⟨rfl, hws, hs⟩
  case complete =>
    intro hc
    have hend := hcomplete hc
    cases r with
    | ok p => exact .inl ⟨p.1, rfl⟩
    | error f => exact .inr ⟨f, rfl, hend⟩
  case answer =>
    intro c line mode hline
    refine ⟨r.map fun p => p.2.shown p.1 mode, ?_, ?_, ?_⟩
    · refine (hdraws.map fun p => p.2.shown p.1 mode).congr fun τ _ => ?_
      rw [← Console.render_eq, Console.answer, hline]
    · intro f hf
      cases r with
      | ok p => exact nomatch hf
      | error f' =>
        cases hf
        rfl
    · intro total ht
      cases r with
      | error f => exact nomatch ht
      | ok p =>
        cases ht
        -- There is a total, so the expression is complete and its record has a term.
        have hc : e.isComplete = true := by
          by_contra hc
          exact nomatch (hincomplete (Bool.eq_false_iff.mpr hc)).1
        exact ⟨_, rfl, Record.showsTotal (hcomplete hc) p.1 mode⟩

/-- A list of words gives each die a face or runs dry. -/
theorem roll_list_ne_neverAccepted (e : Expression) (words : List UInt64) :
    (e.roll.run words).1 ≠ .error .neverAccepted := by
  rw [← e.fst_record, Draw.run_map]
  cases hc : e.isComplete with
  | false =>
    rw [record_of_incomplete hc]
    exact nofun
  | true =>
    have hface : ∀ sides, 1 ≤ sides → Draw.Ends (· ≠ .neverAccepted)
        (fun f => 1 ≤ f ∧ f ≤ sides) (Draw.face sides : Draw (List UInt64) Nat) :=
      fun _ hs => (Draw.ends_face hs).mono_fault fun f hf => hf ▸ nofun
    have hend := ends_record hface nofun nofun hc words
    revert hend
    cases (e.record.run words).1 with
    | ok p => exact fun _ => nofun
    | error f => exact fun hne h => hne (by cases h; rfl)

/-- From one source all evaluators of an expression come to the same result, draw the same words
and leave the same source, and the answers of the console show the same result in each mode. Of a
list of words they draw the first ones, and they stop at the latest where it ends. -/
theorem evaluators_agree {σ : Type} [WordSource σ] (e : Expression) :
    (∀ s : σ, ∃ r ws s', e.Agreement s r ws s') ∧
    ∀ words : List UInt64, ∃ r drawn rest, e.Agreement words r drawn rest ∧
      words = drawn ++ rest ∧ r ≠ .error .neverAccepted := by
  refine ⟨e.exists_agreement, fun words => ?_⟩
  obtain ⟨r, drawn, rest, h⟩ := e.exists_agreement words
  have hnever := e.roll_list_ne_neverAccepted words
  rw [h.roll.run] at hnever
  exact ⟨r, drawn, rest, h, gives_list_iff.mp h.roll.gives, hnever⟩

end Expression

end DiceEngine
