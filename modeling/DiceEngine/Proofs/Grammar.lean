import DiceEngine.Proofs.Building
import DiceEngine.Proofs.Spelling

/-!
# The grammar of expressions

`Spells` is the grammar of expressions, finished or not: terms and operators
in turn, with blanks around each of them. Blanks never go on with a term, and
neither does an operator (`Text.Blank.detached`, `Operator.detached`); only the
text of no term is blank (`Expression.Spells.terms_eq_nil_iff`).
-/

namespace DiceEngine

/-! ## Blanks -/

namespace Text

/-- A run of blanks, perhaps empty. -/
def Blank (s : List Char) : Prop := ∀ c ∈ s, isBlank c

theorem Blank.nil : Blank [] := fun _ hc => nomatch hc

theorem trimStart_append {b : List Char} (h : Blank b) (s : List Char) :
    trimStart (b ++ s) = trimStart s :=
  List.dropWhile_append_of_pos h

/-- A text is a run of blanks and what is left by trimming. -/
theorem exists_blank_append_trimStart (s : List Char) : ∃ b, Blank b ∧ s = b ++ trimStart s :=
  ⟨s.takeWhile isBlank, List.all_eq_true.mp List.all_takeWhile, (trimStart_append_dropped s).symm⟩

/-- A text without the blanks at its end, and these blanks. -/
theorem exists_trimEnd_append_blank (s : List Char) : ∃ b, Blank b ∧ s = trimEnd s ++ b := by
  obtain ⟨b, hb, hs⟩ := exists_blank_append_trimStart s.reverse
  refine ⟨b.reverse, fun c hc => hb c (List.mem_reverse.mp hc), ?_⟩
  rw [trimEnd, ← List.reverse_append]
  exact List.reverse_eq_iff.mp hs

theorem trimStart_eq_nil_iff {s : List Char} : trimStart s = [] ↔ Blank s := by
  constructor
  · intro h
    obtain ⟨b, hb, hs⟩ := exists_blank_append_trimStart s
    rw [h, List.append_nil] at hs
    rwa [hs]
  · intro h
    have := trimStart_append h []
    rwa [List.append_nil] at this

theorem not_blank_of_trimStart {s u : List Char} {c : Char} (h : trimStart s = c :: u) :
    isBlank c = false := by
  have := List.head?_dropWhile_not isBlank s
  rw [show s.dropWhile isBlank = c :: u from h] at this
  simpa using this

theorem trimStart_of_not_blank {u : List Char} {c : Char} (h : isBlank c = false) :
    trimStart (c :: u) = c :: u := by
  simp [trimStart, h]

/-- Blanks are no digits. -/
theorem not_digit_of_blank {c : Char} (h : isBlank c = true) : c.isDigit = false := by
  refine Bool.eq_false_iff.mpr fun hd => ?_
  simp only [Char.isDigit, Bool.and_eq_true, decide_eq_true_eq] at hd
  have h0 : 48 ≤ c.toNat := hd.1
  have h9 : c.toNat ≤ 57 := hd.2
  simp only [isBlank, isIn, blankRanges, List.any_cons, List.any_nil, Bool.or_false,
    Bool.or_eq_true, Bool.and_eq_true, decide_eq_true_eq] at h
  omega

theorem Blank.detached {b r : List Char} (h : Blank b) (hr : Detached r) : Detached (b ++ r) := by
  cases b with
  | nil => exact hr
  | cons c b =>
    have hc := h c List.mem_cons_self
    intro c' hc'
    simp only [List.cons_append, List.head?_cons, Option.mem_def, Option.some.injEq] at hc'
    rw [← hc']
    refine ⟨not_digit_of_blank hc, ?_, ?_, ?_⟩ <;> rintro rfl <;> exact absurd hc (by decide)

theorem not_blank_of_digit {c : Char} (h : c.isDigit = true) : isBlank c = false := by
  refine Bool.eq_false_iff.mpr fun hb => ?_
  rw [not_digit_of_blank hb] at h
  exact Bool.false_ne_true h

end Text

theorem Operator.symbol_not_blank (op : Operator) : Text.isBlank op.symbol = false := by
  cases op <;> decide

theorem Operator.detached (op : Operator) (s : List Char) : Detached (op.symbol :: s) := by
  intro c hc
  simp only [List.head?_cons, Option.mem_def, Option.some.injEq] at hc
  rw [← hc]
  cases op <;> decide

namespace Expression

/-! ## Terms and operators in turn -/

/-- The text consists of these terms and operators in turn, beginning with a
term, and of a run of blanks, perhaps empty, before, between and after them. -/
inductive Spells : List Char → List Term → List Operator → Prop
  | blank {b : List Char} (hb : Text.Blank b) : Spells b [] []
  | term {s cs b : List Char} {ts : List Term} {ops : List Operator} {t : Term}
      (h : Spells s ts ops) (hl : ts.length = ops.length) (ht : t.Spelled cs)
      (hb : Text.Blank b) : Spells (s ++ cs ++ b) (ts ++ [t]) ops
  | operator {s b : List Char} {ts : List Term} {ops : List Operator} {op : Operator}
      (h : Spells s ts ops) (hl : ts.length = ops.length + 1) (hb : Text.Blank b) :
      Spells (s ++ op.symbol :: b) ts (ops ++ [op])

/-- The text spells what the expression consists of. -/
def SpelledBy (e : Expression) (s : List Char) : Prop :=
  Spells s e.terms e.operators ∧ e.WellFormed

theorem SpelledBy.empty : empty.SpelledBy [] := ⟨.blank .nil, .empty⟩

/-- Blanks at the end of a text do not matter. -/
theorem Spells.append_blank {s b : List Char} {ts : List Term} {ops : List Operator}
    (h : Spells s ts ops) (hb : Text.Blank b) : Spells (s ++ b) ts ops := by
  have both : ∀ {b' : List Char}, Text.Blank b' → Text.Blank (b' ++ b) := fun hb' c hc => by
    rcases List.mem_append.mp hc with hc | hc
    · exact hb' c hc
    · exact hb c hc
  cases h with
  | blank hb' => exact .blank (both hb')
  | term h hl ht hb' =>
    rw [List.append_assoc]
    exact .term h hl ht (both hb')
  | operator h hl hb' =>
    rw [List.append_assoc, List.cons_append]
    exact .operator h hl (both hb')

/-- Where a term is due, what another text spells may come next. -/
theorem Spells.append {s s' : List Char} {ts ts' : List Term} {ops ops' : List Operator}
    (h : Spells s ts ops) (hl : ts.length = ops.length) (h' : Spells s' ts' ops') :
    Spells (s ++ s') (ts ++ ts') (ops ++ ops') := by
  induction h' with
  | blank hb =>
    rw [List.append_nil, List.append_nil]
    exact h.append_blank hb
  | @term s' cs b ts' ops' t h' hl' ht hb ih =>
    have hlen : (ts ++ ts').length = (ops ++ ops').length := by
      rw [List.length_append, List.length_append, hl, hl']
    have hnext := Spells.term ih hlen ht hb
    rwa [List.append_assoc, List.append_assoc, List.append_assoc, ← List.append_assoc s'] at hnext
  | @operator s' b ts' ops' op h' hl' hb ih =>
    have hlen : (ts ++ ts').length = (ops ++ ops').length + 1 := by
      rw [List.length_append, List.length_append, hl, hl', Nat.add_assoc]
    have hnext : Spells (s ++ s' ++ op.symbol :: b) (ts ++ ts') (ops ++ ops' ++ [op]) :=
      .operator ih hlen hb
    rwa [List.append_assoc, List.append_assoc] at hnext

/-- Only the text of no term is blank. -/
theorem Spells.terms_eq_nil_iff {s : List Char} {ts : List Term} {ops : List Operator}
    (h : Spells s ts ops) : ts = [] ↔ Text.Blank s := by
  induction h with
  | blank hb => exact iff_of_true rfl hb
  | @term s cs b ts ops t h hl ht hb ih =>
    refine iff_of_false (by simp) fun hs => ?_
    obtain ⟨c, cs', rfl, hc⟩ := ht.head
    have := hs c (by simp)
    rw [Text.not_blank_of_digit hc] at this
    exact Bool.false_ne_true this
  | @operator s b ts ops op h hl hb ih =>
    refine iff_of_false (List.ne_nil_of_length_eq_add_one hl) fun hs => ?_
    have := hs op.symbol (by simp)
    rw [op.symbol_not_blank] at this
    exact Bool.false_ne_true this

end Expression

end DiceEngine
