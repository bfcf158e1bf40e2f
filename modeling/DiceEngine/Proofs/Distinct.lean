import DiceEngine.Proofs.ReadBack
import DiceEngine.Proofs.Trimmed

/-!
# Texts tell expressions apart

Most canonical texts cannot be read: of unfinished expressions, and of those with
long numbers or numbers with a sign. They still differ wherever the expressions
differ (`Expression.texts_distinct`). The text of a term tells which term it is
(`Term.text_eq_iff`) and has no space in it, and what stands behind a term is
nothing or begins with a space (`Expression.Tail.spaced`). So two equal texts are
cut at the same places, term after term (`append_inj_of_spaced`,
`Expression.Tail.text_inj`).
-/

namespace DiceEngine

/-! ## Cutting at the first space -/

/-- There is nothing, or a space comes first. -/
def Spaced (s : List Char) : Prop := ∀ c ∈ s.head?, c = ' '

theorem takeWhile_of_spaced {a x : List Char} (ha : ' ' ∉ a) (hx : Spaced x) :
    (a ++ x).takeWhile (· ≠ ' ') = a := by
  have hall : ∀ c ∈ a, decide (c ≠ ' ') = true := by
    intro c hc
    exact decide_eq_true fun heq => ha (heq ▸ hc)
  rw [List.takeWhile_append_of_pos hall]
  cases x with
  | nil => exact List.append_nil a
  | cons c x =>
    rw [hx c rfl, List.takeWhile_cons_of_neg (by decide), List.append_nil]

theorem append_inj_of_spaced {a b x y : List Char} (ha : ' ' ∉ a) (hb : ' ' ∉ b) (hx : Spaced x)
    (hy : Spaced y) (h : a ++ x = b ++ y) : a = b ∧ x = y := by
  have hab : a = b := by
    rw [← takeWhile_of_spaced ha hx, h, takeWhile_of_spaced hb hy]
  subst hab
  exact ⟨rfl, List.append_cancel_left h⟩

/-! ## Terms and operators -/

theorem Operator.symbol_eq_iff {op op' : Operator} : op.symbol = op'.symbol ↔ op = op' := by
  cases op <;> cases op' <;> decide

namespace Term

/-- Numbers have no `d`. -/
theorem literal_text_ne_dice_text (v : Int) (g : DieGroup) :
    (literal v).text ≠ (dice g).text := by
  intro h
  have hd : 'd' ∈ (dice g).text.toList := by
    simp [text, DieGroup.text]
  rw [← h] at hd
  rcases mem_toString hd with hdigit | hsign
  · exact absurd hdigit (by decide)
  · exact absurd hsign (by decide)

/-- The text of a term tells which term it is, also where it cannot be read. -/
theorem text_eq_iff {t t' : Term} : t.text = t'.text ↔ t = t' := by
  refine ⟨fun h => ?_, congrArg text⟩
  cases t with
  | literal v =>
    cases t' with
    | literal v' =>
      have hread := ReadBack.number_toString v
      rw [show toString v = toString v' from h, ReadBack.number_toString] at hread
      rw [Option.some.inj hread]
    | dice g' => exact absurd h (literal_text_ne_dice_text v g')
  | dice g =>
    cases t' with
    | literal v' => exact absurd h.symm (literal_text_ne_dice_text v' g)
    | dice g' =>
      have hread := g.parse_text
      rw [show g.text = g'.text from h, g'.parse_text] at hread
      rw [Except.ok.inj hread]

theorem space_not_mem_text (t : Term) : ' ' ∉ t.text.toList := by
  intro h
  cases t with
  | literal v =>
    rcases mem_toString h with hdigit | hsign
    · exact absurd hdigit (by decide)
    · exact absurd hsign (by decide)
  | dice g => exact absurd (g.spelled_text.not_blank ' ' h) (by decide)

theorem text_ne_nil (t : Term) : t.text.toList ≠ [] := by
  cases t with
  | literal v => exact ReadBack.toString_ne_nil v
  | dice g => exact (Spelled.dice g.spelled_text).trimmed.ne_nil

end Term

namespace Expression

/-! ## What stands behind the first term -/

/-- Operators and terms in turn, beginning with an operator, and perhaps an operator without a
term behind it. -/
inductive Tail : List Term → List Operator → Prop
  | done : Tail [] []
  | pending (op : Operator) : Tail [] [op]
  | next (op : Operator) (t : Term) {ts : List Term} {ops : List Operator} (h : Tail ts ops) :
      Tail (t :: ts) (op :: ops)

theorem tail_of_length {ts : List Term} : ∀ {ops : List Operator},
    ops.length = ts.length ∨ ops.length = ts.length + 1 → Tail ts ops := by
  induction ts with
  | nil =>
    intro ops h
    match ops, h with
    | [], _ => exact .done
    | [op], _ => exact .pending op
  | cons t ts ih =>
    intro ops h
    match ops, h with
    | op :: ops, h =>
      simp only [List.length_cons] at h
      exact .next op t (ih (by omega))

theorem toList_tailText_pending (op : Operator) :
    (tailText [] [op]).toList = [' ', op.symbol] := by
  cases op <;> rfl

theorem Tail.spaced {ts : List Term} {ops : List Operator} (h : Tail ts ops) :
    Spaced (tailText ts ops).toList := by
  intro c hc
  cases h with
  | done => cases hc
  | pending op =>
    rw [toList_tailText_pending] at hc
    exact (Option.some.inj hc).symm
  | next op t h =>
    rw [toList_tailText_cons] at hc
    exact (Option.some.inj hc).symm

/-- Two terms with what stands behind them are cut at the same place. -/
theorem Tail.term_inj {t t' : Term} {ts ts' : List Term} {ops ops' : List Operator}
    (h : Tail ts ops) (h' : Tail ts' ops')
    (heq : t.text.toList ++ (tailText ts ops).toList =
      t'.text.toList ++ (tailText ts' ops').toList) :
    t = t' ∧ (tailText ts ops).toList = (tailText ts' ops').toList := by
  obtain ⟨hterm, htail⟩ := append_inj_of_spaced t.space_not_mem_text t'.space_not_mem_text
    h.spaced h'.spaced heq
  exact ⟨Term.text_eq_iff.mp (String.toList_inj.mp hterm), htail⟩

theorem Tail.text_inj {ts : List Term} {ops : List Operator} (h : Tail ts ops) :
    ∀ {ts' : List Term} {ops' : List Operator}, Tail ts' ops' →
      (tailText ts ops).toList = (tailText ts' ops').toList → ts = ts' ∧ ops = ops' := by
  induction h with
  | done =>
    intro ts' ops' h' heq
    cases h' with
    | done => exact ⟨rfl, rfl⟩
    | pending op' => rw [toList_tailText_pending] at heq; cases heq
    | next op' t' _ => rw [toList_tailText_cons] at heq; cases heq
  | pending op =>
    intro ts' ops' h' heq
    rw [toList_tailText_pending] at heq
    cases h' with
    | done => cases heq
    | pending op' =>
      rw [toList_tailText_pending] at heq
      simp only [List.cons.injEq, true_and, and_true] at heq
      exact ⟨rfl, by rw [Operator.symbol_eq_iff.mp heq]⟩
    | next op' t' _ =>
      -- The text goes on behind the operator.
      rw [toList_tailText_cons] at heq
      simp at heq
  | next op t h ih =>
    intro ts' ops' h' heq
    rw [toList_tailText_cons] at heq
    cases h' with
    | done => cases heq
    | pending op' =>
      rw [toList_tailText_pending] at heq
      simp at heq
    | next op' t' h' =>
      rw [toList_tailText_cons] at heq
      simp only [List.cons_append, List.nil_append, List.cons.injEq, true_and] at heq
      obtain ⟨hop, hrest⟩ := heq
      obtain ⟨rfl, htail⟩ := h.term_inj h' hrest
      obtain ⟨rfl, rfl⟩ := ih h' htail
      exact ⟨rfl, by rw [Operator.symbol_eq_iff.mp hop]⟩

/-! ## Whole texts -/

theorem toList_text_ofParts (t : Term) (ts : List Term) (ops : List Operator) :
    (ofParts (t :: ts) ops).text.toList = t.text.toList ++ (tailText ts ops).toList :=
  String.toList_append

/-- Only the expression before its first term has no text. -/
theorem text_ofParts_ne_empty (t : Term) (ts : List Term) (ops : List Operator) :
    (ofParts (t :: ts) ops).text ≠ empty.text := by
  intro h
  have hnil := congrArg String.toList h
  rw [toList_text_ofParts] at hnil
  exact t.text_ne_nil (List.append_eq_nil_iff.mp hnil).1

theorem WellFormed.empty_or_tail {e : Expression} (h : e.WellFormed) :
    e = Expression.empty ∨ ∃ t ts ops, e = ofParts (t :: ts) ops ∧ Tail ts ops := by
  obtain ⟨_ | ⟨t, ts⟩, ops, n⟩ := e
  · have hops : ops = [] := List.eq_nil_of_length_eq_zero (h.alternates.elim Eq.symm nofun)
    subst hops
    exact .inl h.eq_ofParts
  · exact .inr ⟨t, ts, ops, h.eq_ofParts, tail_of_length h.tail_alternates⟩

/-- No two expressions that can be held have the same text, unfinished ones and those that cannot
be read from their texts included. -/
theorem texts_distinct {e e' : Expression} (h : e.Reachable) (h' : e'.Reachable) :
    e.text = e'.text ↔ e = e' := by
  refine ⟨fun heq => ?_, congrArg text⟩
  rcases h.wellFormed.empty_or_tail with rfl | ⟨t, ts, ops, rfl, htail⟩ <;>
    rcases h'.wellFormed.empty_or_tail with rfl | ⟨t', ts', ops', rfl, htail'⟩
  · rfl
  · exact absurd heq.symm (text_ofParts_ne_empty t' ts' ops')
  · exact absurd heq (text_ofParts_ne_empty t ts ops)
  · have hlist := congrArg String.toList heq
    rw [toList_text_ofParts, toList_text_ofParts] at hlist
    obtain ⟨rfl, hrest⟩ := htail.term_inj htail' hlist
    obtain ⟨rfl, rfl⟩ := htail.text_inj htail' hrest
    rfl

/-- What has been read of `5 - -3` where reading stops, and the expression with that text. -/
theorem texts_distinct_signs :
    let broken := ofParts [.literal 5] [.sub]
    let negative := ofParts [.literal 5, .literal (-3)] [.sub]
    broken.Reachable ∧ negative.Reachable ∧ negative.text = "5 - -3" ∧
      (broken.text = negative.text ↔ broken = negative) := by
  intro broken negative
  have hbroken : parse "5 - -3" = .error ⟨4, .rejected .expectedTerm, broken⟩ := by
    decide +kernel
  have hfive : ofTerm (.literal 5) = .ok (ofParts [.literal 5] []) := rfl
  have hnegative : (ofParts [.literal 5] []).append .sub (.literal (-3)) = .ok negative := rfl
  have h : broken.Reachable := .soFar hbroken
  have h' : negative.Reachable := .append (.ofTerm hfive) hnegative
  exact ⟨h, h', by decide +kernel, texts_distinct h h'⟩

end Expression

end DiceEngine
