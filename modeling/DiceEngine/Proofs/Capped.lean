import DiceEngine.Proofs.Canonical

/-!
# Building and reading up to the cap

An expression is built by appending pairs of an operator and a term to a first
term, and it is read from the text of these. Both count the dice in the same
order. If there are at most a hundred, both come to the same expression
(`Expression.build_eq_ok`, `Expression.parse_written`); else both are refused at
the first term with which there are more (`Expression.exists_first_over`), where
the builder has nothing and the reader has kept the operator
(`Expression.RefusedAt`).
-/

namespace DiceEngine.Expression

/-! ## A first term and pairs -/

/-- Append pairs of an operator and a term, one after another. -/
def appendAll (e : Expression) (pairs : List (Operator × Term)) : Except Rejection Expression :=
  pairs.foldlM (fun e p => e.append p.1 p.2) e

/-- Build an expression of a first term and the pairs behind it. -/
def build (t : Term) (pairs : List (Operator × Term)) : Except Rejection Expression := do
  (← ofTerm t).appendAll pairs

/-- The expression that has a first term and these pairs behind it. -/
def ofPairs (t : Term) (pairs : List (Operator × Term)) : Expression :=
  ofParts (t :: pairs.map Prod.snd) (pairs.map Prod.fst)

/-- The expression that has an operator behind the last pair, and waits for a term. -/
def pending (t : Term) (pairs : List (Operator × Term)) (op : Operator) : Expression :=
  ofParts (t :: pairs.map Prod.snd) (pairs.map Prod.fst ++ [op])

/-- How many dice a first term and the pairs behind it have together. -/
def diceOf (t : Term) (pairs : List (Operator × Term)) : Nat :=
  ((t :: pairs.map Prod.snd).map Term.diceCount).sum

/-- The text of pairs, with a blank on either side of each operator. -/
def pairsText : List (Operator × Term) → String
  | [] => ""
  | (op, t) :: pairs => " " ++ op.symbol.toString ++ " " ++ t.text ++ pairsText pairs

/-- The text of a first term and the pairs behind it. -/
def written (t : Term) (pairs : List (Operator × Term)) : String := t.text ++ pairsText pairs

/-- The text in front of the term that an operator behind the last pair applies to. -/
def lead (t : Term) (pairs : List (Operator × Term)) (op : Operator) : String :=
  written t pairs ++ " " ++ op.symbol.toString ++ " "

variable {t t' : Term} {pairs before after : List (Operator × Term)} {op : Operator}

theorem diceOf_append (t : Term) (before pairs : List (Operator × Term)) :
    diceOf t (before ++ pairs) = diceOf t before + (pairs.map fun p => p.2.diceCount).sum := by
  simp only [diceOf, List.map_append, List.map_cons, List.sum_cons, List.sum_append, List.map_map,
    Nat.add_assoc]
  rfl

theorem length_ofPairs (t : Term) (pairs : List (Operator × Term)) :
    (ofPairs t pairs).terms.length = (ofPairs t pairs).operators.length + 1 := by
  show (t :: pairs.map Prod.snd).length = (pairs.map Prod.fst).length + 1
  rw [List.length_cons, List.length_map, List.length_map]

theorem length_pending (t : Term) (pairs : List (Operator × Term)) (op : Operator) :
    (pending t pairs op).terms.length = (pending t pairs op).operators.length := by
  show (t :: pairs.map Prod.snd).length = (pairs.map Prod.fst ++ [op]).length
  rw [List.length_cons, List.length_append, List.length_map, List.length_map, List.length_singleton]

/-! ## The builder -/

/-- An operator and a term behind the last pair, as far as the dice allow. -/
theorem append_ofPairs (t : Term) (before : List (Operator × Term)) (op : Operator) (t' : Term) :
    (ofPairs t before).append op t' = (pending t before op).pushTerm t' := by
  have hpush : (ofPairs t before).pushOperator op = .ok (pending t before op) := by
    refine pushOperator_eq_ok_iff.mpr ⟨?_, rfl⟩
    rw [length_ofPairs]
    omega
  rw [append, hpush]
  rfl

theorem append_eq_ok (h : diceOf t before + t'.diceCount ≤ maxDice) :
    (ofPairs t before).append op t' = .ok (ofPairs t (before ++ [(op, t')])) := by
  rw [append_ofPairs]
  refine pushTerm_eq_ok_iff.mpr ⟨length_pending t before op, h, ?_⟩
  simp only [ofPairs, pending, ofParts, List.map_append, List.map_cons, List.map_nil,
    List.cons_append, List.sum_cons, List.sum_append, List.sum_nil, Nat.add_zero, Nat.add_assoc]

theorem append_eq_error (h : maxDice < diceOf t before + t'.diceCount) :
    (ofPairs t before).append op t' = .error .tooManyDice := by
  rw [append_ofPairs]
  exact pushTerm_eq_error_iff.mpr (.inr ⟨length_pending t before op, h, rfl⟩)

/-- Appending goes on from what has been built. -/
theorem appendAll_ofPairs : ∀ {before : List (Operator × Term)},
    diceOf t (before ++ pairs) ≤ maxDice →
    (ofPairs t before).appendAll pairs = .ok (ofPairs t (before ++ pairs)) := by
  induction pairs with
  | nil => 
    intro before _
    rw [List.append_nil]
    rfl
  | cons p pairs ih =>
    intro before h
    obtain ⟨op, t'⟩ := p
    have hfirst : diceOf t before + t'.diceCount ≤ maxDice := by
      simp only [diceOf_append, List.map_cons, List.sum_cons] at h
      omega
    rw [List.append_cons] at h ⊢
    rw [← ih h, appendAll, List.foldlM_cons, append_eq_ok hfirst]
    rfl

/-- One term never has too many dice. -/
theorem diceOf_nil_le (t : Term) : diceOf t [] ≤ maxDice := by
  cases t with
  | literal v => exact Nat.zero_le _
  | dice g =>
    have hle := g.quantity_le
    show g.quantity ≤ 100
    omega

theorem ofTerm_eq_ok (t : Term) : ofTerm t = .ok (ofPairs t []) := by
  have hdice : empty.diceCount + t.diceCount = diceOf t [] := Nat.zero_add _
  refine pushTerm_eq_ok_iff.mpr ⟨rfl, hdice ▸ diceOf_nil_le t, ?_⟩
  rw [hdice]
  rfl

theorem build_eq_ok (h : diceOf t pairs ≤ maxDice) : build t pairs = .ok (ofPairs t pairs) := by
  rw [build, ofTerm_eq_ok]
  exact appendAll_ofPairs h

/-- What is refused once stays refused. -/
theorem build_eq_error (hfits : diceOf t before ≤ maxDice)
    (hover : maxDice < diceOf t before + t'.diceCount) :
    build t (before ++ (op, t') :: after) = .error .tooManyDice := by
  have hbefore : (ofPairs t []).appendAll before = .ok (ofPairs t before) :=
    appendAll_ofPairs hfits
  rw [build, ofTerm_eq_ok]
  show (ofPairs t []).appendAll _ = _
  rw [appendAll] at hbefore ⊢
  rw [List.foldlM_append, hbefore]
  show List.foldlM _ _ _ = _
  rw [List.foldlM_cons, append_eq_error hover]
  rfl

/-- Where there are too many dice in all, there is a first term with which there are. -/
theorem exists_first_over : ∀ {before : List (Operator × Term)}, diceOf t before ≤ maxDice →
    maxDice < diceOf t (before ++ pairs) → ∃ front op t' after,
      before ++ pairs = front ++ (op, t') :: after ∧ diceOf t front ≤ maxDice ∧
        maxDice < diceOf t front + t'.diceCount := by
  induction pairs with
  | nil =>
    intro before hfits hover
    rw [List.append_nil] at hover
    exact absurd hfits (Nat.not_le.mpr hover)
  | cons p pairs ih =>
    intro before hfits hover
    obtain ⟨op, t'⟩ := p
    by_cases h : diceOf t before + t'.diceCount ≤ maxDice
    · rw [List.append_cons] at hover ⊢
      exact ih (by rwa [diceOf_append, List.map_singleton, List.sum_singleton]) hover
    · exact ⟨before, op, t', pairs, rfl, hfits, Nat.not_le.mp h⟩

/-! ## The reader -/

theorem pairsText_eq (pairs : List (Operator × Term)) :
    pairsText pairs = tailText (pairs.map Prod.snd) (pairs.map Prod.fst) := by
  induction pairs with
  | nil => rfl
  | cons p pairs ih =>
    obtain ⟨op, t⟩ := p
    rw [pairsText, ih]
    rfl

theorem pairsText_append (before pairs : List (Operator × Term)) :
    pairsText (before ++ pairs) = pairsText before ++ pairsText pairs := by
  induction before with
  | nil => exact (String.empty_append).symm
  | cons p before ih =>
    obtain ⟨op, t⟩ := p
    rw [List.cons_append, pairsText, pairsText, ih]
    simp only [String.append_assoc]

/-- The text of a first term and pairs is the canonical text of their expression. -/
theorem written_eq_text (t : Term) (pairs : List (Operator × Term)) :
    written t pairs = (ofPairs t pairs).text := by
  rw [written, pairsText_eq]
  rfl

theorem wellFormed_ofPairs (h : diceOf t pairs ≤ maxDice) : (ofPairs t pairs).WellFormed :=
  ⟨.inr (length_ofPairs t pairs), rfl, h⟩

theorem parse_written (hw : ∀ u ∈ t :: pairs.map Prod.snd, u.Writable)
    (h : diceOf t pairs ≤ maxDice) : parse (written t pairs) = .ok (ofPairs t pairs) := by
  have hwf := wellFormed_ofPairs h
  rw [written_eq_text]
  refine hwf.parse_text_eq_ok_iff.mpr ⟨rfl, isComplete_iff.mpr ?_, forall_writable_iff.mp hw⟩
  exact length_ofPairs t pairs

theorem spells_lead (hw : ∀ u ∈ t :: before.map Prod.snd, u.Writable)
    (h : diceOf t before ≤ maxDice) (op : Operator) :
    Spells (lead t before op).toList (t :: before.map Prod.snd) (before.map Prod.fst ++ [op]) := by
  have hspells := spells_text (wellFormed_ofPairs h) hw
  rw [← written_eq_text] at hspells
  have hlead := hspells.spaced_operator (length_ofPairs t before) op blank_space
  have htext : (lead t before op).toList = (written t before).toList ++ ' ' :: op.symbol :: [' '] := by
    simp [lead]
  rw [htext]
  exact hlead

/-- A term of which the dice are too many is refused where it starts, however it is spelled and
whatever stands behind it. -/
theorem parse_eq_tooManyDice {read spelling : String} {ts : List Term} {ops : List Operator}
    (hs : Spells read.toList ts ops) (hl : ts.length = ops.length)
    (hfits : (ts.map Term.diceCount).sum ≤ maxDice) (ht : t'.Spelled spelling.toList)
    (hover : maxDice < (ts.map Term.diceCount).sum + t'.diceCount) (rest : String) :
    parse (read ++ spelling ++ rest) =
      .error ⟨read.utf8ByteSize, .rejected .tooManyDice, ofParts ts ops⟩ := by
  obtain ⟨c, cs, hcs, hc⟩ := ht.head
  cases ht with
  | literal _ => exact absurd hfits (Nat.not_le.mpr hover)
  | @dice g hg =>
    -- What stands behind the group may change its sides or what it keeps, but not how many dice it
    -- has.
    obtain ⟨g', r, hgroup, hquantity⟩ := Token.dieGroup_quantity hg rest.toList
    have hterm : Token.term (spelling.toList ++ rest.toList) = some (.dice g', r) := by
      simp only [Token.term, hgroup]
    have htoken : (ofParts ts ops).readToken (spelling.toList ++ rest.toList) =
        .error .tooManyDice :=
      readToken_tooManyDice_iff.mpr ⟨expectsTerm_iff.mpr hl, _, _, hterm, by
        show maxDice < _ + g'.quantity
        rw [hquantity]
        exact hover⟩
    have hstop : empty.readOnto (read.toList ++ (spelling.toList ++ rest.toList)) =
        .error ⟨spelling.toList ++ rest.toList, .rejected .tooManyDice, ofParts ts ops⟩ := by
      rw [readOnto_spells hs hfits (.inl hl)]
      rw [hcs, List.cons_append] at htoken ⊢
      exact readOnto_of_refused (Text.trimStart_of_not_blank (Text.not_blank_of_digit hc)) htoken
    have htext : (read ++ spelling ++ rest).toList =
        read.toList ++ (spelling.toList ++ rest.toList) := by
      rw [String.toList_append, String.toList_append, List.append_assoc]
    unfold parse
    rw [htext, hstop]
    simp only [byteLength_append, Nat.add_sub_cancel]
    rw [← utf8ByteSize_ofList, String.ofList_toList]

/-! ## Both -/

/-- Building and reading are both refused at this pair, the first one with which there are more than
a hundred dice. -/
structure RefusedAt (t : Term) (before : List (Operator × Term)) (op : Operator) (t' : Term)
    (after : List (Operator × Term)) : Prop where
  fits : diceOf t before ≤ 100
  exceeds : 100 < diceOf t before + t'.diceCount
  built : build t before = .ok (ofPairs t before)
  append_eq : (ofPairs t before).append op t' = .error .tooManyDice
  build_eq : build t (before ++ (op, t') :: after) = .error .tooManyDice
  written_eq : written t (before ++ (op, t') :: after) =
    lead t before op ++ t'.text ++ pairsText after
  /-- Reading stops where the term starts, with the operator kept. -/
  parse_eq : parse (written t (before ++ (op, t') :: after)) =
    .error ⟨(lead t before op).utf8ByteSize, .rejected .tooManyDice, pending t before op⟩
  /-- Whatever else stands behind the start of the term makes no difference. -/
  parse_lead_eq : ∀ rest, parse (lead t before op ++ t'.text ++ rest) =
    .error ⟨(lead t before op).utf8ByteSize, .rejected .tooManyDice, pending t before op⟩

theorem refusedAt (hw : ∀ u ∈ t :: before.map Prod.snd, u.Writable)
    (hfits : diceOf t before ≤ maxDice) (hover : maxDice < diceOf t before + t'.diceCount)
    (op : Operator) (after : List (Operator × Term)) : RefusedAt t before op t' after := by
  have hwritten : written t (before ++ (op, t') :: after) =
      lead t before op ++ t'.text ++ pairsText after := by
    simp only [written, lead, pairsText_append, pairsText, String.append_assoc]
  have hspelled : t'.Spelled t'.text.toList := by
    cases t' with
    | literal v => exact absurd hfits (Nat.not_le.mpr hover)
    | dice g => exact .dice g.spelled_text
  have hparse := parse_eq_tooManyDice (spells_lead hw hfits op) (length_pending t before op) hfits
    hspelled hover
  constructor
  case fits => exact hfits
  case exceeds => exact hover
  case built => exact build_eq_ok hfits
  case append_eq => exact append_eq_error hover
  case build_eq => exact build_eq_error hfits hover
  case written_eq => exact hwritten
  case parse_eq => rw [hwritten]; exact hparse _
  case parse_lead_eq => exact hparse

/-- The builder and the reader agree: from terms of at most a hundred dice both make the same
expression, and from others none, since both are refused at the first term that has too many. -/
theorem builder_agrees_with_reader {t : Term} {pairs : List (Operator × Term)}
    (h : ∀ v, Term.literal v ∈ t :: pairs.map Prod.snd → 0 ≤ v ∧ v ≤ 999) :
    (diceOf t pairs ≤ 100 → build t pairs = .ok (ofPairs t pairs) ∧
      parse (written t pairs) = .ok (ofPairs t pairs)) ∧
    (100 < diceOf t pairs → ∃ before op t' after, pairs = before ++ (op, t') :: after ∧
      RefusedAt t before op t' after) := by
  have hw := forall_writable_iff.mpr h
  refine ⟨fun hfits => ⟨build_eq_ok hfits, parse_written hw hfits⟩, fun hover => ?_⟩
  obtain ⟨before, op, t', after, rfl, hfits, hover⟩ := exists_first_over (diceOf_nil_le t) hover
  have hbefore : ∀ u ∈ t :: before.map Prod.snd, u.Writable := by
    intro u hu
    apply hw
    rw [List.map_append, ← List.cons_append]
    exact List.mem_append_left _ hu
  exact ⟨before, op, t', after, rfl, refusedAt hbefore hfits hover op after⟩

/-- The second group has one die too many, and the text goes on behind it. -/
theorem builder_agrees_with_reader_one_die_more :
    let t : Term := .dice ⟨60, 6, none, by decide, by decide, by decide, by decide, by decide⟩
    let t' : Term := .dice ⟨41, 6, none, by decide, by decide, by decide, by decide, by decide⟩
    let pairs : List (Operator × Term) := [(.add, .literal 3), (.sub, t'), (.add, .literal 5)]
    (∀ v, Term.literal v ∈ t :: pairs.map Prod.snd → 0 ≤ v ∧ v ≤ 999) ∧ 100 < diceOf t pairs ∧
      written t pairs = "60d6 + 3 - 41d6 + 5" ∧
      (∃ before op t' after, pairs = before ++ (op, t') :: after ∧ RefusedAt t before op t' after) ∧
      parse "60d6 + 3 - 41d6 + 5" =
        .error ⟨11, .rejected .tooManyDice, ofParts [t, .literal 3] [.add, .sub]⟩ := by
  intro t t' pairs
  have h : ∀ v, Term.literal v ∈ t :: pairs.map Prod.snd → 0 ≤ v ∧ v ≤ 999 :=
    forall_writable_iff.mp (by decide)
  have hover : 100 < diceOf t pairs := by decide
  exact ⟨h, hover, by decide +kernel, (builder_agrees_with_reader h).2 hover, by decide +kernel⟩

end DiceEngine.Expression
