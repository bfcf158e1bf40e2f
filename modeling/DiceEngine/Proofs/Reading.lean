import DiceEngine.Expression.Reader
import DiceEngine.Proofs.Grammar

/-!
# What a text is read as

Reading is related to the grammar in two steps, each by induction:

* `readOnto_sound`: after any beginning of a text, what has been read so far is
  spelled by that beginning, and where reading stops it stops for the reason
  given (`Stop.Justified`);
* `readOnto_spells`: a text that spells an expression is read as that
  expression in front of any text which is detached from it.

Together they say which texts are read, and as what (`parse_ok_iff_grammar`).
-/

namespace DiceEngine.Expression

/-! ## One token -/

theorem map_pair_eq_ok_iff {x : Except Rejection Expression} {e : Expression}
    {r r' : List Char} : x.map (·, r') = .ok (e, r) ↔ r' = r ∧ x = .ok e := by
  cases x <;> simp [Except.map, and_comm]

theorem map_pair_eq_error_iff {x : Except Rejection Expression} {r : List Char}
    {why : Rejection} : x.map (·, r) = .error why ↔ x = .error why := by
  cases x <;> simp [Except.map]

/-- The token that is due, at the start of a text. -/
theorem readToken_eq_ok_iff {e e' : Expression} {s r : List Char} :
    e.readToken s = .ok (e', r) ↔
      (e.expectsTerm = true ∧ ∃ t, Token.term s = some (t, r) ∧ e.pushTerm t = .ok e') ∨
      (e.expectsTerm = false ∧ ∃ op, s = op.symbol :: r ∧ e.pushOperator op = .ok e') := by
  simp only [← Token.operator_eq_some_iff]
  unfold readToken
  cases e.expectsTerm
  · cases h : Token.operator s <;> simp [map_pair_eq_ok_iff, Prod.ext_iff, and_assoc]
  · cases h : Token.term s <;> simp [map_pair_eq_ok_iff, Prod.ext_iff, and_assoc]

/-- No term is found where one is due. -/
theorem readToken_expectedTerm_iff {e : Expression} {c : Char} {u : List Char} :
    e.readToken (c :: u) = .error .expectedTerm ↔ e.expectsTerm = true ∧ c.isDigit = false := by
  rw [← Token.term_eq_none_iff (s := u)]
  unfold readToken
  cases he : e.expectsTerm
  · have := expectsTerm_eq_false_iff.mp he
    cases Token.operator (c :: u) <;>
      simp [map_pair_eq_error_iff, pushOperator_eq_error_iff, this]
  · have := expectsTerm_iff.mp he
    cases Token.term (c :: u) <;> simp [map_pair_eq_error_iff, pushTerm_eq_error_iff, this]

/-- No operator is found where one is due. -/
theorem readToken_expectedOperator_iff {e : Expression} {c : Char} {u : List Char} :
    e.readToken (c :: u) = .error .expectedOperator ↔
      e.expectsTerm = false ∧ c ≠ '+' ∧ c ≠ '-' := by
  have hop : Token.operator (c :: u) = none ↔ c ≠ '+' ∧ c ≠ '-' := by
    unfold Token.operator
    split <;> simp_all
  rw [← hop]
  unfold readToken
  cases he : e.expectsTerm
  · have := expectsTerm_eq_false_iff.mp he
    cases Token.operator (c :: u) <;>
      simp [map_pair_eq_error_iff, pushOperator_eq_error_iff]
  · have := expectsTerm_iff.mp he
    cases Token.term (c :: u) <;> simp [map_pair_eq_error_iff, pushTerm_eq_error_iff, this]

/-- A term is found, and its dice are too many. -/
theorem readToken_tooManyDice_iff {e : Expression} {s : List Char} :
    e.readToken s = .error .tooManyDice ↔ e.expectsTerm = true ∧
      ∃ t r, Token.term s = some (t, r) ∧ maxDice < e.diceCount + t.diceCount := by
  unfold readToken
  cases he : e.expectsTerm
  · cases Token.operator s <;> simp [map_pair_eq_error_iff, pushOperator_eq_error_iff]
  · have := expectsTerm_iff.mp he
    cases Token.term s <;>
      simp [map_pair_eq_error_iff, pushTerm_eq_error_iff, this, Prod.ext_iff]

/-! ## The loop -/

theorem readOnto_of_blank {e : Expression} {s : List Char} (h : Text.Blank s) :
    e.readOnto s = e.atEnd := by
  rw [readOnto]
  split
  · rfl
  · next hs => rw [Text.trimStart_eq_nil_iff.mpr h] at hs; cases hs

theorem readOnto_of_token {e e' : Expression} {s u r : List Char} {c : Char}
    (hs : Text.trimStart s = c :: u) (ht : e.readToken (c :: u) = .ok (e', r)) :
    e.readOnto s = e'.readOnto r := by
  rw [readOnto]
  split
  · next h => rw [hs] at h; cases h
  · next h =>
    rw [hs] at h
    cases h
    split
    · next h => rw [ht] at h; cases h
    · next h => rw [ht] at h; cases h; rfl

theorem readOnto_of_refused {e : Expression} {s u : List Char} {c : Char} {why : Rejection}
    (hs : Text.trimStart s = c :: u) (ht : e.readToken (c :: u) = .error why) :
    e.readOnto s = .error ⟨c :: u, .rejected why, e⟩ := by
  rw [readOnto]
  split
  · next h => rw [hs] at h; cases h
  · next h =>
    rw [hs] at h
    cases h
    split
    · next h => rw [ht] at h; cases h; rfl
    · next h => rw [ht] at h; cases h

theorem atEnd_eq_ok_iff {e e' : Expression} : e.atEnd = .ok e' ↔ e.isComplete = true ∧ e = e' := by
  unfold atEnd
  cases ht : e.terms
  · simp [isComplete, ht]
  · cases e.isComplete <;> simp

/-- The end of a text that spells no complete expression. -/
theorem atEnd_of_incomplete {e : Expression} (h : e.isComplete = false) :
    e.atEnd = .error ⟨[], if e.terms.isEmpty then .empty else .danglingOperator, e⟩ := by
  unfold atEnd
  cases ht : e.terms.isEmpty <;> simp [h]

/-! ## What is read is spelled -/

/-- The reason given for a stop holds at its place. -/
def Stop.Justified (stop : Stop) : Prop :=
  match stop.reason with
  | .empty => stop.unread = [] ∧ stop.soFar.terms = []
  | .danglingOperator => stop.unread = [] ∧ stop.soFar.EndsOnOperator
  | .rejected why => (∃ c u, stop.unread = c :: u ∧ Text.isBlank c = false) ∧
      stop.soFar.readToken stop.unread = .error why

/-- Blanks between what has been read and the next token. -/
theorem SpelledBy.append_blank {e : Expression} {s b : List Char} (h : e.SpelledBy s)
    (hb : Text.Blank b) : e.SpelledBy (s ++ b) :=
  ⟨h.1.append_blank hb, h.2⟩

/-- One token more. -/
theorem SpelledBy.readToken {e e' : Expression} {s u r : List Char} (h : e.SpelledBy s)
    (ht : e.readToken u = .ok (e', r)) : ∃ tok, u = tok ++ r ∧ e'.SpelledBy (s ++ tok) := by
  rcases readToken_eq_ok_iff.mp ht with ⟨-, t, ht, hp⟩ | ⟨-, op, rfl, hp⟩
  · obtain ⟨cs, rfl, hcs⟩ := Token.term_sound ht
    have hw := h.2.pushTerm hp
    obtain ⟨hl, -, rfl⟩ := pushTerm_eq_ok_iff.mp hp
    have hs := Spells.term h.1 hl hcs .nil
    rw [List.append_nil] at hs
    exact ⟨cs, rfl, hs, hw⟩
  · have hw := h.2.pushOperator hp
    obtain ⟨hl, rfl⟩ := pushOperator_eq_ok_iff.mp hp
    exact ⟨[op.symbol], rfl, .operator h.1 (h.2.alternates.resolve_left hl) .nil, hw⟩

/-- The end of a text. -/
theorem SpelledBy.atEnd {e : Expression} {s : List Char} {stop : Stop} (h : e.SpelledBy s)
    (he : e.atEnd = .error stop) : stop.unread = [] ∧ stop.soFar = e ∧ stop.Justified := by
  have hc : e.isComplete = false := by
    refine Bool.eq_false_iff.mpr fun hc => ?_
    rw [atEnd_eq_ok_iff.mpr ⟨hc, rfl⟩] at he
    exact nomatch he
  rw [atEnd_of_incomplete hc] at he
  cases he
  refine ⟨rfl, rfl, ?_⟩
  cases ht : e.terms.isEmpty with
  | true => exact ⟨rfl, List.isEmpty_iff.mp ht⟩
  | false => exact ⟨rfl, h.2.endsOnOperator hc (List.isEmpty_eq_false_iff.mp ht)⟩

/-- Reading on, after a beginning that spells what has been read. -/
theorem readOnto_sound {e : Expression} {s : List Char} : ∀ {pre : List Char}, e.SpelledBy pre →
    (∀ e', e.readOnto s = .ok e' → e'.SpelledBy (pre ++ s) ∧ e'.isComplete = true) ∧
    (∀ stop, e.readOnto s = .error stop →
      ∃ mid, s = mid ++ stop.unread ∧ stop.soFar.SpelledBy (pre ++ mid) ∧ stop.Justified) := by
  fun_induction readOnto e s with
  | case1 e s hs =>
    intro pre h
    have h' := h.append_blank (Text.trimStart_eq_nil_iff.mp hs)
    refine ⟨fun e' he => ?_, fun stop he => ?_⟩
    · obtain ⟨hc, rfl⟩ := atEnd_eq_ok_iff.mp he
      exact ⟨h', hc⟩
    · obtain ⟨hu, rfl, hj⟩ := h.atEnd he
      exact ⟨s, by rw [hu, List.append_nil], h', hj⟩
  | case2 e s c cs hs why ht =>
    intro pre h
    obtain ⟨b, hb, hsb⟩ := Text.exists_blank_append_trimStart s
    rw [hs] at hsb
    refine ⟨fun e' he => ?_, fun stop he => ?_⟩ <;> cases he
    exact ⟨b, hsb, h.append_blank hb, ⟨c, cs, rfl, Text.not_blank_of_trimStart hs⟩, ht⟩
  | case3 e s c cs hs e' r ht ih =>
    intro pre h
    obtain ⟨b, hb, hsb⟩ := Text.exists_blank_append_trimStart s
    rw [hs] at hsb
    obtain ⟨tok, htok, h'⟩ := (h.append_blank hb).readToken ht
    obtain ⟨hok, herr⟩ := ih h'
    rw [hsb, htok]
    refine ⟨fun e' he => ?_, fun stop he => ?_⟩
    · simpa only [List.append_assoc] using hok e' he
    · obtain ⟨mid, hm, hsp, hj⟩ := herr stop he
      refine ⟨b ++ (tok ++ mid), ?_, ?_, hj⟩
      · rw [hm, List.append_assoc, List.append_assoc]
      · simpa only [List.append_assoc] using hsp

/-! ## What is spelled is read -/

/-- The expression of these parts. -/
def ofParts (ts : List Term) (ops : List Operator) : Expression :=
  ⟨ts, ops, (ts.map Term.diceCount).sum⟩

theorem WellFormed.eq_ofParts {e : Expression} (h : e.WellFormed) :
    e = ofParts e.terms e.operators := by
  simp only [ofParts, ← h.counted]

theorem readOnto_append_blank {e : Expression} {b : List Char} (hb : Text.Blank b)
    (s : List Char) : e.readOnto (b ++ s) = e.readOnto s := by
  rw [readOnto, readOnto, Text.trimStart_append hb]

/-- A text that spells an expression of at most a hundred dice is read as it, in front of
whatever cannot go on with its last term. -/
theorem readOnto_spells {s : List Char} {ts : List Term} {ops : List Operator}
    (h : Spells s ts ops) : ∀ {r : List Char}, (ts.map Term.diceCount).sum ≤ maxDice →
      (ts.length = ops.length ∨ Detached r) →
      empty.readOnto (s ++ r) = (ofParts ts ops).readOnto r := by
  induction h with
  | blank hb => exact fun _ _ => readOnto_append_blank hb _
  | @term s cs b ts ops t h hl ht hb ih =>
    intro r hd hr
    simp only [List.map_append, List.map_singleton, List.sum_append, List.sum_singleton] at hd
    have hne : (ts ++ [t]).length ≠ ops.length := by
      rw [List.length_append, List.length_singleton]
      omega
    have hr : Detached r := hr.resolve_left hne
    have htok := Token.term_append ht (hb.detached hr)
    have hpush : (ofParts ts ops).pushTerm t = .ok (ofParts (ts ++ [t]) ops) :=
      pushTerm_eq_ok_iff.mpr ⟨hl, hd, by simp [ofParts]⟩
    rw [List.append_assoc, List.append_assoc, ih (by omega) (.inl hl)]
    obtain ⟨c, cs', rfl, hc⟩ := ht.head
    rw [List.cons_append] at htok ⊢
    rw [readOnto_of_token (Text.trimStart_of_not_blank (Text.not_blank_of_digit hc))
      (readToken_eq_ok_iff.mpr (.inl ⟨expectsTerm_iff.mpr hl, t, htok, hpush⟩)),
      readOnto_append_blank hb]
  | @operator s b ts ops op h hl hb ih =>
    intro r hd _
    have hne : (ofParts ts ops).terms.length ≠ (ofParts ts ops).operators.length := by
      simp only [ofParts]; omega
    have hpush : (ofParts ts ops).pushOperator op = .ok (ofParts ts (ops ++ [op])) :=
      pushOperator_eq_ok_iff.mpr ⟨hne, rfl⟩
    rw [List.append_assoc, List.cons_append, ih hd (.inr (op.detached _)),
      readOnto_of_token (Text.trimStart_of_not_blank op.symbol_not_blank)
      (readToken_eq_ok_iff.mpr (.inr ⟨expectsTerm_eq_false_iff.mpr hne, op, rfl, hpush⟩)),
      readOnto_append_blank hb]

/-- A text that spells an expression is read to its end. -/
theorem SpelledBy.readOnto {e : Expression} {s : List Char} (h : e.SpelledBy s) :
    Expression.empty.readOnto s = e.atEnd := by
  have hs := readOnto_spells (r := []) h.1 (h.2.counted ▸ h.2.capped) (.inr .nil)
  rw [List.append_nil, ← h.2.eq_ofParts, readOnto_of_blank .nil] at hs
  exact hs

/-! ## Whole texts -/

theorem parse_eq_ok_iff_readOnto {text : String} {e : Expression} :
    parse text = .ok e ↔ Expression.empty.readOnto text.toList = .ok e := by
  unfold parse
  split <;> simp_all

/-- What is read of a text is spelled by it, and conversely. -/
theorem parse_eq_ok_iff {text : String} {e : Expression} :
    parse text = .ok e ↔ e.SpelledBy text.toList ∧ e.isComplete = true := by
  rw [parse_eq_ok_iff_readOnto]
  refine ⟨(readOnto_sound .empty).1 e, fun ⟨h, hc⟩ => ?_⟩
  rw [h.readOnto]
  exact atEnd_eq_ok_iff.mpr ⟨hc, rfl⟩

/-- The texts that are accepted, and what each of them is read as: terms and operators in turn,
ending on a term, with at most a hundred dice in all of them. -/
theorem parse_ok_iff_grammar {text : String} {e : Expression} :
    parse text = .ok e ↔ Spells text.toList e.terms e.operators ∧
      e.terms.length = e.operators.length + 1 ∧
      e.diceCount = (e.terms.map Term.diceCount).sum ∧ e.diceCount ≤ 100 := by
  rw [parse_eq_ok_iff, isComplete_iff]
  exact ⟨fun ⟨⟨hs, hw⟩, hl⟩ => ⟨hs, hl, hw.counted, hw.capped⟩,
    fun ⟨hs, hl, hc, hd⟩ => ⟨⟨hs, .inr hl, hc, hd⟩, hl⟩⟩

example : parse " 4d06v2\t+2d20^1   -3 " = .ok (ofParts
    [.dice ⟨4, 6, some ⟨.lowest, 2⟩, by decide, by decide, by decide, by decide, by decide⟩,
      .dice ⟨2, 20, some ⟨.highest, 1⟩, by decide, by decide, by decide, by decide, by decide⟩,
      .literal 3] [.add, .sub]) := by
  decide +kernel

end DiceEngine.Expression
