import DiceEngine.Exchange
import DiceEngine.Proofs.Reachable

/-!
# Canonical texts

What is written of groups, terms and expressions is a spelling of them
(`DieGroup.spelled_text`, `Term.Writable.spelled_text`, `Expression.spells_text`),
except for numbers with a sign or with more than three digits, at which reading
stops (`Expression.exists_stop_text`). So the text of an expression is read as
the expression itself or not at all, and the first exactly where the expression
is complete and all its numbers are writable
(`Expression.WellFormed.parse_text_eq_ok_iff`, `Expression.canonical_round_trip`).
-/

namespace DiceEngine

/-! ## Groups and terms -/

namespace DieGroup

/-- The sides of a group, as they are written. -/
theorem sidesSpelled_toString (g : DieGroup) : SidesSpelled (toString g.sides).toList g.sides := by
  have hle := g.sides_le
  by_cases h : g.sides = 100
  · rw [h]
    exact .inl ⟨rfl, rfl⟩
  · exact .inr ⟨numeral_toString (by decide) (by omega), g.sides_pos⟩

theorem spelled_text (g : DieGroup) : Spelled g.text.toList g := by
  have hq : Numeral 2 (toString g.quantity).toList g.quantity :=
    numeral_toString (by decide) (Nat.lt_succ_of_le g.quantity_le)
  rcases hk : g.keep with _ | k
  · have h := Spelled.mk (g := g) (k := none) hq g.sidesSpelled_toString .all hk
    have htext : g.text.toList = (toString g.quantity).toList ++ 'd' ::
        ((toString g.sides).toList ++ []) := by
      rw [text, hk]
      simp
    rwa [htext]
  · have hle : k.count ≤ g.quantity := g.count_le k hk
    have hq' := g.quantity_le
    have hcount : Numeral 3 (toString k.count).toList k.count :=
      numeral_toString (by decide) (by omega)
    have hmin : g.keep = (some k).map fun k => { k with count := min k.count g.quantity } := by
      rw [hk, Option.map_some, Nat.min_eq_left hle]
    have h := Spelled.mk (g := g) hq g.sidesSpelled_toString (.few hcount) hmin
    have htext : g.text.toList = (toString g.quantity).toList ++ 'd' ::
        ((toString g.sides).toList ++ k.selector.symbol :: (toString k.count).toList) := by
      rw [text, hk]
      simp
    rwa [htext]

/-- There are no blanks in the spelling of a group. -/
theorem Spelled.not_blank {g : DieGroup} {cs : List Char} (h : Spelled cs g) :
    ∀ c ∈ cs, Text.isBlank c = false := by
  intro c hc
  rcases h.chars c hc with hd | rfl | ⟨sel, rfl⟩
  · exact Text.not_blank_of_digit hd
  · decide
  · cases sel <;> decide

end DieGroup

theorem Text.trim_of_not_blank {s : List Char} (h : ∀ c ∈ s, isBlank c = false) : trim s = s := by
  have hstart : ∀ {s : List Char}, (∀ c ∈ s, isBlank c = false) → s.dropWhile isBlank = s := by
    intro s h
    cases s with
    | nil => rfl
    | cons c s => exact trimStart_of_not_blank (h c List.mem_cons_self)
  rw [trim, trimStart, hstart h, trimEnd, hstart fun c hc => h c (List.mem_reverse.mp hc),
    List.reverse_reverse]

/-- The text of a group is read as the group. -/
theorem DieGroup.parse_text (g : DieGroup) : DieGroup.parse g.text = .ok g := by
  have hread := Token.dieGroup_append g.spelled_text .nil
  rw [List.append_nil] at hread
  unfold DieGroup.parse
  simp only [Text.trim_of_not_blank g.spelled_text.not_blank, hread]

namespace Term

/-- A term whose text can be read: a group, or a number with no sign and at most three digits. -/
def Writable : Term → Prop
  | literal v => 0 ≤ v ∧ v ≤ 999
  | dice _ => True

instance : (t : Term) → Decidable t.Writable
  | literal v => inferInstanceAs (Decidable (0 ≤ v ∧ v ≤ 999))
  | dice _ => inferInstanceAs (Decidable True)

theorem Writable.spelled_text {t : Term} (h : t.Writable) : t.Spelled t.text.toList := by
  cases t with
  | literal v =>
    obtain ⟨n, rfl⟩ := Int.eq_ofNat_of_zero_le h.1
    have hle : (n : Int) ≤ 999 := h.2
    rw [text, toString_natCast]
    exact .literal (numeral_toString (by decide) (by omega))
  | dice g => exact .dice g.spelled_text

/-- What is read as a term is writable. -/
theorem Spelled.writable {t : Term} {cs : List Char} (h : t.Spelled cs) : t.Writable := by
  cases h with
  | literal hd =>
    have hlt := hd.le
    exact ⟨Int.natCast_nonneg _, by omega⟩
  | dice _ => trivial

end Term

/-! ## Where reading stops -/

/-- Three digits in a row are read as a number, whatever follows them. -/
theorem Token.term_of_three_digits {c₁ c₂ c₃ : Char} (h₁ : c₁.isDigit) (h₂ : c₂.isDigit)
    (h₃ : c₃.isDigit) (s : List Char) :
    ∃ n : Nat, term (c₁ :: c₂ :: c₃ :: s) = some (.literal n, s) := by
  have hnumber : number 3 (c₁ :: c₂ :: c₃ :: s) =
      some (Nat.ofDigitChars 10 [c₁, c₂, c₃] 0, s) := by
    simp [number, h₁, h₂, h₃]
  refine ⟨Nat.ofDigitChars 10 [c₁, c₂, c₃] 0, ?_⟩
  simp only [term, dieGroup_of_three_digits h₁ h₂ h₃, literal, hnumber, Option.map_some,
    Int.ofNat_eq_natCast]

namespace Expression

/-- A number that is no literal has four digits. -/
theorem exists_four_digits {n : Nat} (hn : 10 ^ 3 ≤ n) :
    ∃ c₁ c₂ c₃ c₄ ds, (toString n).toList = c₁ :: c₂ :: c₃ :: c₄ :: ds ∧
      c₁.isDigit ∧ c₂.isDigit ∧ c₃.isDigit ∧ c₄.isDigit := by
  have hlong : ¬ (Nat.toDigits 10 n).length ≤ 3 := fun hle =>
    absurd ((Nat.length_toDigits_le_iff (by decide) (by decide)).mp hle) (Nat.not_lt.mpr hn)
  have hdigits : ∀ c ∈ Nat.toDigits 10 n, c.isDigit = true := fun c hc =>
    Nat.isDigit_of_mem_toDigits (by decide) (by decide) hc
  rw [Nat.toString_eq_repr, Nat.toList_repr]
  match Nat.toDigits 10 n, hlong, hdigits with
  | c₁ :: c₂ :: c₃ :: c₄ :: ds, _, hdigits =>
    simp only [List.forall_mem_cons] at hdigits
    obtain ⟨h₁, h₂, h₃, h₄, -⟩ := hdigits
    exact ⟨c₁, c₂, c₃, c₄, ds, rfl, h₁, h₂, h₃, h₄⟩
  | [], h, _ | [_], h, _ | [_, _], h, _ | [_, _, _], h, _ =>
    simp only [List.length_cons, List.length_nil] at h
    omega

section Stops

variable {s : List Char} {ts : List Term} {ops : List Operator} (h : Spells s ts ops)
  (hl : ts.length = ops.length) (hd : (ts.map Term.diceCount).sum ≤ maxDice)

include h hl hd

/-- Where a term is expected, three digits are read as a literal, and the fourth one is no
operator. -/
theorem exists_stop_of_four_digits {c₁ c₂ c₃ c₄ : Char} (h₁ : c₁.isDigit) (h₂ : c₂.isDigit)
    (h₃ : c₃.isDigit) (h₄ : c₄.isDigit) (r : List Char) :
    ∃ stop, empty.readOnto (s ++ c₁ :: c₂ :: c₃ :: c₄ :: r) = .error stop := by
  rw [readOnto_spells h hd (.inl hl)]
  obtain ⟨m, hterm⟩ := Token.term_of_three_digits h₁ h₂ h₃ (c₄ :: r)
  have hexpects : (ofParts ts ops).expectsTerm = true := expectsTerm_iff.mpr hl
  have hpush : (ofParts ts ops).pushTerm (.literal m) =
      .ok ⟨ts ++ [.literal m], ops, (ts.map Term.diceCount).sum⟩ :=
    pushTerm_eq_ok_iff.mpr ⟨hl, hd, rfl⟩
  have hfull : ∀ {k : Nat}, expectsTerm ⟨ts ++ [.literal m], ops, k⟩ = false := by
    intro k
    rw [expectsTerm_eq_false_iff]
    show (ts ++ [Term.literal m]).length ≠ ops.length
    rw [List.length_append, List.length_singleton, hl]
    omega
  refine ⟨_, (readOnto_of_token (Text.trimStart_of_not_blank (Text.not_blank_of_digit h₁))
    (readToken_eq_ok_iff.mpr (.inl ⟨hexpects, _, hterm, hpush⟩))).trans
    (readOnto_of_refused (Text.trimStart_of_not_blank (Text.not_blank_of_digit h₄))
      (readToken_expectedOperator_iff.mpr ⟨hfull, ?_, ?_⟩))⟩ <;>
  · rintro rfl
    exact absurd h₄ (by decide)

/-- Reading stops in front of a number with a sign, and inside a number of more than three
digits. -/
theorem exists_stop_of_not_writable {t : Term} (ht : ¬ t.Writable) (r : List Char) :
    ∃ stop, empty.readOnto (s ++ (t.text.toList ++ r)) = .error stop := by
  cases t with
  | dice g => exact absurd trivial ht
  | literal v =>
    by_cases hv : v < 0
    · have htext : (Term.literal v).text.toList ++ r = '-' :: ((toString (-v).toNat).toList ++ r) := by
        rw [Term.text, toString_of_neg hv, String.toList_append]
        rfl
      rw [readOnto_spells h hd (.inl hl), htext]
      exact ⟨_, readOnto_of_refused (Text.trimStart_of_not_blank (by decide))
        (readToken_expectedTerm_iff.mpr ⟨expectsTerm_iff.mpr hl, by decide⟩)⟩
    · obtain ⟨n, rfl⟩ := Int.eq_ofNat_of_zero_le (Int.not_lt.mp hv)
      have hn : 10 ^ 3 ≤ n := Nat.not_lt.mp fun hn => ht ⟨by omega, by omega⟩
      obtain ⟨c₁, c₂, c₃, c₄, ds, hds, h₁, h₂, h₃, h₄⟩ := exists_four_digits hn
      rw [Term.text, toString_natCast, hds]
      exact exists_stop_of_four_digits h hl hd h₁ h₂ h₃ h₄ (ds ++ r)

end Stops

/-! ## Whole texts -/

theorem toList_tailText_cons (t : Term) (ts : List Term) (op : Operator) (ops : List Operator) :
    (tailText (t :: ts) (op :: ops)).toList =
      [' ', op.symbol, ' '] ++ (t.text.toList ++ (tailText ts ops).toList) := by
  rw [tailText]
  simp

theorem blank_space : Text.Blank [' '] := by
  intro c hc
  rw [List.mem_singleton.mp hc]
  decide

/-- An operator with a blank on either side. -/
theorem Spells.spaced_operator {s : List Char} {ts : List Term} {ops : List Operator}
    (h : Spells s ts ops) (hl : ts.length = ops.length + 1) (op : Operator) {b : List Char}
    (hb : Text.Blank b) : Spells (s ++ ' ' :: op.symbol :: b) ts (ops ++ [op]) := by
  have hop : Spells (s ++ [' '] ++ op.symbol :: b) ts (ops ++ [op]) :=
    .operator (h.append_blank blank_space) hl hb
  rwa [List.append_assoc, List.singleton_append] at hop

/-- Operators and terms, appended to what is spelled. -/
theorem spells_tailText {ts' : List Term} : ∀ {ops' : List Operator} {s : List Char}
    {ts : List Term} {ops : List Operator}, Spells s ts ops → ts.length = ops.length + 1 →
    (ops'.length = ts'.length ∨ ops'.length = ts'.length + 1) → (∀ t ∈ ts', t.Writable) →
    Spells (s ++ (tailText ts' ops').toList) (ts ++ ts') (ops ++ ops') := by
  induction ts' with
  | nil =>
    intro ops' s ts ops h hl hops _
    rcases ops' with _ | ⟨op, _ | ⟨op', ops'⟩⟩
    · simpa [tailText] using h
    · have hop := h.spaced_operator hl op .nil
      rw [tailText, List.append_nil]
      simpa using hop
    · simp at hops
  | cons t ts' ih =>
    intro ops' s ts ops h hl hops hw
    have hpos : 0 < ops'.length := by
      rw [List.length_cons] at hops
      omega
    obtain ⟨op, ops', rfl⟩ := List.exists_cons_of_length_pos hpos
    have hlen : ts.length = (ops ++ [op]).length := by simpa using hl
    have hterm := Spells.term (h.spaced_operator hl op blank_space) hlen
      (hw t List.mem_cons_self).spelled_text .nil
    have hrest := @ih ops' _ _ _ hterm (by simpa using hlen) (by simpa using hops)
      fun t' ht' => hw t' (List.mem_cons_of_mem t ht')
    rw [toList_tailText_cons]
    simpa using hrest

/-- Reading stops at the first term that is not writable. -/
theorem exists_stop_tailText {ts' : List Term} : ∀ {ops' : List Operator} {s : List Char}
    {ts : List Term} {ops : List Operator}, Spells s ts ops → ts.length = ops.length + 1 →
    (ops'.length = ts'.length ∨ ops'.length = ts'.length + 1) →
    ((ts ++ ts').map Term.diceCount).sum ≤ maxDice → (∃ t ∈ ts', ¬ t.Writable) →
    ∃ stop, empty.readOnto (s ++ (tailText ts' ops').toList) = .error stop := by
  induction ts' with
  | nil => exact fun _ _ _ _ ⟨_, h, _⟩ => nomatch h
  | cons t ts' ih =>
    intro ops' s ts ops h hl hops hd hw
    have hpos : 0 < ops'.length := by
      rw [List.length_cons] at hops
      omega
    obtain ⟨op, ops', rfl⟩ := List.exists_cons_of_length_pos hpos
    have hlen : ts.length = (ops ++ [op]).length := by simpa using hl
    have hspaced := h.spaced_operator hl op blank_space
    rw [toList_tailText_cons]
    by_cases ht : t.Writable
    · have hterm := Spells.term hspaced hlen ht.spelled_text .nil
      have hrest : ∃ t ∈ ts', ¬ t.Writable := by
        simpa [ht] using hw
      have hstop := @ih ops' _ _ _ hterm (by simpa using hlen) (by simpa using hops)
        (by simpa using hd) hrest
      simpa using hstop
    · have hd' : (ts.map Term.diceCount).sum ≤ maxDice := by
        rw [List.map_append, List.sum_append] at hd
        omega
      have hstop := exists_stop_of_not_writable hspaced hlen hd' ht (tailText ts' ops').toList
      simpa using hstop

theorem spells_first {t : Term} (ht : t.Writable) : Spells t.text.toList [t] [] := by
  simpa using Spells.term (.blank .nil) rfl ht.spelled_text .nil

/-- A well-formed expression with terms has as many operators as terms behind the first, or one
more. -/
theorem WellFormed.tail_alternates {t : Term} {ts : List Term} {ops : List Operator} {k : Nat}
    (h : WellFormed ⟨t :: ts, ops, k⟩) : ops.length = ts.length ∨ ops.length = ts.length + 1 := by
  have halt : (t :: ts).length = ops.length ∨ (t :: ts).length = ops.length + 1 := h.alternates
  rw [List.length_cons] at halt
  omega

/-- The text of an expression with writable terms spells the expression. -/
theorem spells_text {e : Expression} (h : e.WellFormed) (hw : ∀ t ∈ e.terms, t.Writable) :
    Spells e.text.toList e.terms e.operators := by
  obtain ⟨_ | ⟨t, ts⟩, ops, k⟩ := e
  · have hops : ops = [] := List.eq_nil_of_length_eq_zero (h.alternates.elim Eq.symm nofun)
    rw [hops]
    exact .blank .nil
  · obtain ⟨ht, hts⟩ := List.forall_mem_cons.mp hw
    have hall := spells_tailText (spells_first ht) rfl h.tail_alternates hts
    rw [← String.toList_append] at hall
    exact hall

/-- The text of an expression with a term that is not writable is not read to its end. -/
theorem exists_stop_text {e : Expression} (h : e.WellFormed) (hw : ∃ t ∈ e.terms, ¬ t.Writable) :
    ∃ stop, empty.readOnto e.text.toList = .error stop := by
  have hd : (e.terms.map Term.diceCount).sum ≤ maxDice := h.counted ▸ h.capped
  obtain ⟨_ | ⟨t, ts⟩, ops, k⟩ := e
  · obtain ⟨_, ht, _⟩ := hw
    exact nomatch ht
  · have htext : (text ⟨t :: ts, ops, k⟩).toList = t.text.toList ++ (tailText ts ops).toList :=
      String.toList_append
    rw [htext]
    by_cases ht : t.Writable
    · have hrest : ∃ t ∈ ts, ¬ t.Writable := by
        simpa [ht] using hw
      exact exists_stop_tailText (spells_first ht) rfl h.tail_alternates hd hrest
    · exact exists_stop_of_not_writable (.blank .nil) rfl (Nat.zero_le _) ht _

/-- What a text spells is writable. -/
theorem Spells.writable {s : List Char} {ts : List Term} {ops : List Operator}
    (h : Spells s ts ops) : ∀ t ∈ ts, t.Writable := by
  induction h with
  | blank _ => exact fun _ ht => nomatch ht
  | term _ _ ht _ ih =>
    intro t' ht'
    rcases List.mem_append.mp ht' with ht' | ht'
    · exact ih t' ht'
    · rw [List.mem_singleton.mp ht']
      exact ht.writable
  | operator _ _ _ ih => exact ih

theorem forall_writable_iff {ts : List Term} :
    (∀ t ∈ ts, t.Writable) ↔ ∀ v, Term.literal v ∈ ts → 0 ≤ v ∧ v ≤ 999 := by
  constructor
  · exact fun h v hv => h (.literal v) hv
  · intro h t ht
    cases t with
    | literal v => exact h v ht
    | dice _ => trivial

/-- What the text of an expression is read as: the expression, where it is complete and its
numbers are writable. -/
theorem WellFormed.parse_text_eq_ok_iff {e e' : Expression} (h : e.WellFormed) :
    parse e.text = .ok e' ↔
      e = e' ∧ e.isComplete = true ∧ ∀ v, Term.literal v ∈ e.terms → 0 ≤ v ∧ v ≤ 999 := by
  rw [← forall_writable_iff]
  by_cases hw : ∀ t ∈ e.terms, t.Writable
  · have hspelled : e.SpelledBy e.text.toList := ⟨spells_text h hw, h⟩
    cases hc : e.isComplete with
    | true =>
      rw [parse_eq_ok_iff.mpr ⟨hspelled, hc⟩, Except.ok.injEq]
      exact ⟨fun he => ⟨he, rfl, hw⟩, And.left⟩
    | false =>
      rw [hspelled.parse_eq_error hc]
      exact iff_of_false nofun nofun
  · obtain ⟨stop, hstop⟩ := exists_stop_text h (by simpa using hw)
    refine iff_of_false (fun he => ?_) fun he => hw he.2.2
    unfold parse at he
    rw [hstop] at he
    cases he

/-- What can be said of the canonical text of an expression. -/
structure Canonical (e : Expression) : Prop where
  parse_text_iff : parse e.text = .ok e ↔
    e.isComplete = true ∧ ∀ v, Term.literal v ∈ e.terms → 0 ≤ v ∧ v ≤ 999
  /-- In all other cases the text is refused, so it is never read as another expression. -/
  refused : ¬ (e.isComplete = true ∧ ∀ v, Term.literal v ∈ e.terms → 0 ≤ v ∧ v ≤ 999) →
    ∃ m, parse e.text = .error m
  /-- The text of what has been read of any text is its own canonical text. -/
  of_parse : ∀ s, parse s = .ok e →
    parse e.text = .ok e ∧ (parse e.text).map text = .ok e.text
  exchange_of_parse : ∀ s, parse s = .ok e →
    Exchange.readExpression (Exchange.writeExpression e) = .ok e
  exchange_of_read : ∀ d, Exchange.readExpression d = .ok e →
    Exchange.readExpression (Exchange.writeExpression e) = .ok e

end Expression

namespace Exchange

theorem readText_eq_ok_iff {α : Type} {parse : String → Except Malformed α} {d : Datum} {x : α} :
    readText parse d = .ok x ↔ ∃ s, d = .string s ∧ parse s = .ok x := by
  cases d with
  | string s =>
    rw [show readText parse (.string s) = (parse s).mapError .malformed from rfl]
    cases hp : parse s <;> simp [Except.mapError, hp]
  | _ => exact iff_of_false nofun nofun

end Exchange

namespace Expression

/-- What was read is read again of its canonical text. -/
theorem parse_text {s : String} {e : Expression} (h : parse s = .ok e) : parse e.text = .ok e := by
  obtain ⟨⟨hspells, hw⟩, hc⟩ := parse_eq_ok_iff.mp h
  exact hw.parse_text_eq_ok_iff.mpr ⟨rfl, hc, forall_writable_iff.mp hspells.writable⟩

/-- Every expression that can be held is written as a text which is read as the expression, or is
refused; and what has been read, be it a group or an expression, is read again from what is
written of it. -/
theorem canonical_round_trip :
    (∀ e : Expression, e.Reachable → e.Canonical) ∧
    ∀ g : DieGroup, Exchange.readGroup (Exchange.writeGroup g) = .ok g := by
  refine ⟨fun e h => ?_, fun g => Exchange.readText_eq_ok_iff.mpr ⟨_, rfl, g.parse_text⟩⟩
  have hw := h.wellFormed
  have hread : ∀ s, parse s = .ok e → parse e.text = .ok e := by
    intro s hs
    obtain ⟨hspelled, hc⟩ := parse_eq_ok_iff.mp hs
    exact hw.parse_text_eq_ok_iff.mpr ⟨rfl, hc, forall_writable_iff.mp hspelled.1.writable⟩
  have hexchange : ∀ s, parse s = .ok e →
      Exchange.readExpression (Exchange.writeExpression e) = .ok e :=
    fun s hs => Exchange.readText_eq_ok_iff.mpr ⟨_, rfl, hread s hs⟩
  constructor
  case parse_text_iff => exact hw.parse_text_eq_ok_iff.trans (and_iff_right rfl)
  case refused =>
    intro hnot
    cases hp : parse e.text with
    | error m => exact ⟨m, rfl⟩
    | ok e' => exact absurd (hw.parse_text_eq_ok_iff.mp hp).2 hnot
  case of_parse =>
    intro s hs
    rw [hread s hs]
    exact ⟨rfl, rfl⟩
  case exchange_of_parse => exact hexchange
  case exchange_of_read =>
    intro d hd
    obtain ⟨s, -, hs⟩ := Exchange.readText_eq_ok_iff.mp hd
    exact hexchange s hs

/-- A text that is not canonical, and the canonical text of what it is read as. -/
theorem canonical_round_trip_keep_two :
    let e := ofParts [.literal 12, .dice ⟨3, 6, some ⟨.highest, 2⟩,
      by decide, by decide, by decide, by decide, by decide⟩] [.sub]
    parse " 012 -03d6^2" = .ok e ∧ e.text = "12 - 3d6^2" ∧ e.Canonical ∧
      Exchange.readExpression (.string "12 - 3d6^2") = .ok e := by
  intro e
  have hread : parse " 012 -03d6^2" = .ok e := by decide +kernel
  have htext : e.text = "12 - 3d6^2" := by decide +kernel
  have hcanonical := canonical_round_trip.1 e (.parse hread)
  exact ⟨hread, htext, hcanonical, htext ▸ hcanonical.exchange_of_parse _ hread⟩

end Expression

end DiceEngine
