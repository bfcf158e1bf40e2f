import DiceEngine.Expression.Expectation
import DiceEngine.Proofs.Choices
import DiceEngine.Proofs.Guarded
import DiceEngine.Proofs.Magnitude
import DiceEngine.Proofs.SingleGroup
import DiceEngine.Proofs.Supply

/-!
# No text stops the program

Every text is read to its end: it spells an expression or a group, or it is
reported with a place in it (`ReadsSafely`). What an expression of a text is then
asked for has an answer: its terms, its bounds, its expected total, and its total
on words that are enough (`Expression.EvaluatesSafely`). None of the sums,
products and places on the way is out of range. `DieGroup.InBounds` says so of the
computations of a group, where a definition would take a list that is too short
for one that ends there.

`Expression.safe_on_every_text` puts both together.
-/

namespace DiceEngine

/-! ## Reading -/

/-- The place that a report names lies between two characters of the text. -/
def Malformed.Within (m : Malformed) (text : String) : Prop :=
  ∃ read unread, text = read ++ unread ∧ m.position = read.utf8ByteSize

theorem Malformed.within_of_toList {m : Malformed} {text : String} (read unread : List Char)
    (ht : text.toList = read ++ unread) (hpos : m.position = Text.byteLength read) :
    m.Within text := by
  refine ⟨String.ofList read, String.ofList unread, ?_, ?_⟩
  · rw [← String.ofList_append, ← ht, String.ofList_toList]
  · rw [hpos, Expression.utf8ByteSize_ofList]

/-- What the recognisers do with a text. Each takes a beginning of it and leaves the rest, and the
numbers that are taken for a group pass every check of one. -/
structure Token.Tidy (s : List Char) : Prop where
  term : ∀ {t r}, Token.term s = some (t, r) → r <:+ s
  operator : ∀ {op r}, Token.operator s = some (op, r) → r <:+ s
  dieGroup : ∀ {g r}, Token.dieGroup s = some (g, r) → r <:+ s
  keepOrAll : (Token.keepOrAll s).2 <:+ s
  create : ∀ {q n r r'}, Token.quantity s = some (q, r) → Token.dieSides r = some (n, r') →
    ∀ keep, ∃ g, DieGroup.create q n keep = .ok g

/-- Reading a text, as an expression or as a group, ends in what the text spells or in a report of
a place in it. -/
structure ReadsSafely (text : String) : Prop where
  expression : (∃ e, Expression.parse text = .ok e) ∨
    ∃ m, Expression.parse text = .error m ∧ m.Within text
  dieGroup : (∃ g, DieGroup.parse text = .ok g) ∨
    ∃ m, DieGroup.parse text = .error m ∧ m.Within text
  tokens : ∀ s, s <:+: text.toList → Token.Tidy s

namespace Token

theorem tidy (s : List Char) : Tidy s := by
  constructor
  case term =>
    intro t r h
    obtain ⟨cs, hs, -⟩ := term_sound h
    exact ⟨cs, hs.symm⟩
  case operator =>
    intro op r h
    exact ⟨[op.symbol], (operator_eq_some_iff.mp h).symm⟩
  case dieGroup =>
    intro g r h
    obtain ⟨cs, hs, -⟩ := dieGroup_sound h
    exact ⟨cs, hs.symm⟩
  case keepOrAll =>
    obtain ⟨ks, hs, -⟩ := keepOrAll_sound s
    exact ⟨ks, hs.symm⟩
  case create =>
    intro q n r r' hq hn keep
    obtain ⟨t, -, hn⟩ := dieSides_eq_some_iff.mp hn
    exact DieGroup.exists_create (quantity_range hq) (sides_range hn) keep

end Token

/-- In front of the place of the report are the blanks before the group, and the group if there is
one. -/
theorem DieGroup.within_of_parse_eq_error {text : String} {m : Malformed}
    (h : parse text = .error m) : m.Within text := by
  cases refused_of_parse_eq_error h with
  | blank => exact ⟨text, "", String.append_empty.symm, rfl⟩
  | noGroup => exact Malformed.within_of_toList (lead text) _ (lead_append text).symm rfl
  | leftOver hg hgroup ht => exact Malformed.within_of_toList _ _ ht rfl

theorem readsSafely (text : String) : ReadsSafely text := by
  constructor
  case expression =>
    cases h : Expression.parse text with
    | ok e => exact .inl ⟨e, rfl⟩
    | error m =>
      obtain ⟨read, unread, ht, hpos, -⟩ := Expression.parse_eq_error h
      exact .inr ⟨m, rfl, Malformed.within_of_toList read unread ht hpos⟩
  case dieGroup =>
    cases h : DieGroup.parse text with
    | ok g => exact .inl ⟨g, rfl⟩
    | error m => exact .inr ⟨m, rfl, DieGroup.within_of_parse_eq_error h⟩
  case tokens => exact fun s _ => Token.tidy s

/-! ## The computations of a group -/

namespace DieGroup

/-- The ranks at which the running sums of the masses of a face are looked up, where not all dice
count. -/
def ranks (g : DieGroup) : List Nat :=
  match g.keep with
  | some ⟨.highest, count⟩ => List.range (min count g.quantity)
  | some ⟨.lowest, count⟩ => (List.range' 1 (min count g.quantity)).map (g.quantity - ·)
  | none => []

theorem lt_of_mem_ranks {g : DieGroup} {rank : Nat} (h : rank ∈ g.ranks) : rank < g.quantity := by
  rw [ranks] at h
  split at h
  · exact lt_of_mem_highest h
  · exact lt_of_mem_lowest h
  · cases h

/-- The kept end of a sorted throw. -/
theorem keptRange_within (g : DieGroup) :
    g.keptRange.1 + g.keepCount = g.keptRange.2 ∧ g.keptRange.2 ≤ g.quantity := by
  have hc := g.count_le
  rw [keptRange, keepCount]
  split
  · next h =>
    have := hc _ h
    simp only [h]
    exact ⟨Nat.zero_add _, this⟩
  · next h =>
    have := hc _ h
    simp only [h]
    exact ⟨Nat.sub_add_cancel this, Nat.le_refl _⟩
  · next h =>
    simp only [h]
    exact ⟨Nat.zero_add _, Nat.le_refl _⟩

/-- However few of the faces that count have been added up, the sum is a total. -/
theorem IsThrow.inRange_sum_take {g : DieGroup} {faces : List Int} (h : g.IsThrow faces) (n : Nat) :
    Total.InRange ((g.keptFaces faces).take n).sum := by
  have hrange : ∀ f ∈ (g.keptFaces faces).take n, 0 ≤ f ∧ f ≤ 100 := by
    intro f hf
    have hface := h.keptFaces_range f (List.mem_of_mem_take hf)
    have hsides := g.sides_le
    omega
  have hlength : ((g.keptFaces faces).take n).length ≤ 99 := by
    have hkept := length_keptFaces h.length
    have hcount := g.keepCount_le
    have hquantity := g.quantity_le
    rw [List.length_take]
    omega
  have hlow := List.sum_nonneg fun f hf => (hrange f hf).1
  have hhigh := List.sum_le_card_nsmul _ 100 fun f hf => (hrange f hf).2
  rw [nsmul_eq_mul] at hhigh
  refine Total.inRange_of_natAbs_le ?_
  show _ ≤ (0x7fffffffffffffff : Int)
  omega

theorem inRange_values (g : DieGroup) : Total.InRange g.low ∧ Total.InRange g.high := by
  have hwritable : (Term.dice g).Writable := trivial
  have hb : 0 ≤ g.low ∧ g.high ≤ (Term.dice g).reach := hwritable.bounds
  have hle : g.low ≤ g.high := (Term.dice g).low_le_high
  have hreach : (Term.dice g).reach ≤ 10899 := by
    have hquantity := g.quantity_le
    rw [Term.reach, Term.diceCount]
    omega
  constructor <;> refine Total.inRange_of_natAbs_le ?_ <;> show _ ≤ (0x7fffffffffffffff : Int) <;>
    omega

/-- What the computations of a group look up is there, and their numbers are in range. -/
structure InBounds (g : DieGroup) : Prop where
  /-- The quantity and the sides pass the checks of a group. -/
  create : ∀ keep, ∃ g', DieGroup.create g.quantity g.sides keep = .ok g'
  throw : ∀ {σ : Type} [WordSource σ] (s : σ) (faces : List Int),
    (g.throw.run s).1 = .ok faces → g.IsThrow faces
  /-- The faces that count are a part of the sorted throw. -/
  keptRange : g.keptRange.1 + g.keepCount = g.keptRange.2 ∧ g.keptRange.2 ≤ g.quantity
  kept : ∀ faces : List Int, faces.length = g.quantity → (g.kept faces).length = g.keepCount
  keptSum : ∀ faces, g.IsThrow faces → ∀ n, Total.InRange ((g.keptFaces faces).take n).sum
  /-- The least and the greatest value are totals. -/
  values : Total.InRange g.low ∧ Total.InRange g.high
  /-- No product of the binomial coefficients overflows. -/
  row : ∃ row, Binomial.row g.quantity = .ok row
  /-- The expected value looks into running sums of this many masses, at these ranks. -/
  expected : ∀ (α : Type) [Add α] [Sub α] [Mul α] [Div α] [NatCast α] [IntCast α],
    ∃ row : List α, OrderStatistic.coefficients g.quantity = .ok row ∧
      (∀ face, ∀ rank ∈ g.ranks, rank < (OrderStatistic.runningSums ((0 : Nat) : α)
        (OrderStatistic.faceMass row g.sides face)).length) ∧
      g.expected = .ok (if g.keepCount < g.quantity then
        OrderStatistic.expectedAt row g.sides g.ranks else g.expectedAll)

theorem inBounds (g : DieGroup) : g.InBounds := by
  have hq : g.quantity ≤ 125 := Nat.le_trans g.quantity_le (by decide)
  constructor
  case create => exact exists_create ⟨g.quantity_pos, g.quantity_le⟩ ⟨g.sides_pos, g.sides_le⟩
  case throw =>
    intro σ _ s faces h
    have hend := g.ends_throw (E := fun _ => True)
      (fun _ hs => Draw.ends_face_any trivial trivial hs) s
    rwa [h] at hend
  case keptRange => exact g.keptRange_within
  case kept => exact fun faces hl => length_kept hl
  case keptSum => exact fun faces h n => h.inRange_sum_take n
  case values => exact g.inRange_values
  case row => exact ⟨_, Binomial.row_eq_ok hq⟩
  case expected =>
    intro α _ _ _ _ _ _
    have hrow := OrderStatistic.coefficients_eq_map (α := α) hq
    refine ⟨_, hrow, fun face rank hrank => ?_, ?_⟩
    · have := lt_of_mem_ranks hrank
      simp only [OrderStatistic.length_runningSums, OrderStatistic.length_faceMass,
        List.length_map, List.length_range]
      omega
    · rcases hk : g.keep with _ | ⟨_ | _, count⟩
      · simp only [expected, keepCount, hk, Nat.lt_irrefl, if_false]
      · simp only [expected, keepCount, ranks, hk, OrderStatistic.expectedLowest, hrow]
        split <;> rfl
      · simp only [expected, keepCount, ranks, hk, OrderStatistic.expectedHighest, hrow]
        split <;> rfl

end DieGroup

/-! ## Evaluation -/

section Expected

variable {α : Type} [Add α] [Sub α] [Mul α] [Div α] [NatCast α] [IntCast α]

theorem Term.exists_expected (t : Term) : ∃ x : α, t.expected = .ok x := by
  cases t with
  | literal v => exact ⟨_, rfl⟩
  | dice g =>
    obtain ⟨_, -, -, h⟩ := g.inBounds.expected α
    exact ⟨_, h⟩

/-- A complete expression has an expected total, in numbers of any kind. -/
theorem Expression.exists_expected {e : Expression} (h : ∃ steps, e.steps = .ok steps) :
    ∃ x : α, e.expected = .ok x := by
  obtain ⟨steps, hs⟩ := h
  rw [expected, hs]
  refine (exists_foldlM_ok (P := fun _ _ => True) ?_ steps _ trivial).imp fun _ h => h.1
  rintro ⟨op, t⟩ _ total _
  obtain ⟨v, hv⟩ := t.exists_expected (α := α)
  exact ⟨op.combine total v, by simp only [hv]; rfl, trivial⟩

end Expected

namespace Expression

/-- What an expression is asked for has an answer. -/
structure EvaluatesSafely (e : Expression) : Prop where
  steps : ∃ steps, e.steps = .ok steps
  bounds : ∃ lo hi, e.minimum = .ok lo ∧ e.maximum = .ok hi
  expected : ∀ (α : Type) [Add α] [Sub α] [Mul α] [Div α] [NatCast α] [IntCast α],
    ∃ x : α, e.expected = .ok x
  /-- From every source that supplies the dice there is a total, and both texts with it. -/
  rolls : ∀ {σ : Type} [WordSource σ] [LawfulSource σ] {s s' : σ},
    Draw.Supplies s e.diceSides s' → ∃ total brief full, e.roll.run s = (.ok total, s') ∧
      e.rollBrief.run s = (.ok (total, brief), s') ∧ e.rollFull.run s = (.ok (total, full), s')
  groups : ∀ g, Term.dice g ∈ e.terms → g.InBounds

theorem evaluatesSafely_of_bounds {e : Expression} {lo hi : Int} (hlo : e.minimum = .ok lo)
    (hhi : e.maximum = .ok hi) : e.EvaluatesSafely := by
  obtain ⟨steps, hs, -⟩ := exists_steps_of_bounds hlo hhi
  constructor
  case steps => exact ⟨steps, hs⟩
  case bounds => exact ⟨lo, hi, hlo, hhi⟩
  case expected => exact fun α => exists_expected ⟨steps, hs⟩
  case rolls =>
    intro σ _ _ s s' h
    obtain ⟨total, hroll, -⟩ := run_roll_of_supplies hlo hhi h
    have hrun := fun d (hd : d = (e.roll : Draw σ Int)) => (congrArg (·.run s) hd).trans hroll
    obtain ⟨brief, hbrief⟩ := Draw.run_of_map_fst (hrun _ e.fst_rollBrief)
    obtain ⟨full, hfull⟩ := Draw.run_of_map_fst (hrun _ e.fst_rollFull)
    exact ⟨total, brief, full, hroll, hbrief, hfull⟩
  case groups => exact fun g _ => g.inBounds

/-- Reading a text never fails otherwise than by a report of a place in it. An expression of up to
2^50 terms that was read has its bounds and its expected total, and from every source that supplies
its dice it comes to a total, in each of the three ways to roll. -/
theorem safe_on_every_text (text : String) : ReadsSafely text ∧
    ∀ e, parse text = .ok e → e.terms.length ≤ 2 ^ 50 → e.EvaluatesSafely := by
  refine ⟨readsSafely text, fun e h hl => ?_⟩
  obtain ⟨lo, hi, hlo, hhi⟩ := exists_bounds h hl
  exact evaluatesSafely_of_bounds hlo hhi

/-- The first word gives the first die no face, and the die is drawn again. -/
theorem safe_on_every_text_rejected_word :
    let e := ofParts [.literal 5, .dice ⟨2, 6, some ⟨.highest, 1⟩, by decide, by decide, by decide,
      by decide, by decide⟩] [.sub]
    let words : List UInt64 := [0x5555555555555555, 0, 0x8000000000000000]
    parse "5 - 2d6^1" = .ok e ∧ e.terms.length ≤ 2 ^ 50 ∧ Draw.Supplies words e.diceSides [] ∧
      e.EvaluatesSafely ∧ ∃ total brief full, e.roll.run words = (.ok total, []) ∧
        e.rollBrief.run words = (.ok (total, brief), []) ∧
        e.rollFull.run words = (.ok (total, full), []) := by
  intro e words
  have h : parse "5 - 2d6^1" = .ok e := by decide +kernel
  have hsupplies : Draw.Supplies words e.diceSides [] :=
    ⟨1, [0x8000000000000000], ⟨[0x5555555555555555], 0, ⟨_, rfl, _, rfl, rfl⟩,
      List.forall_mem_singleton.mpr (by decide), by decide⟩,
      4, [], ⟨[], 0x8000000000000000, ⟨_, rfl, rfl⟩, List.forall_mem_nil _, by decide⟩, rfl⟩
  have hsafe := (safe_on_every_text "5 - 2d6^1").2 e h (by decide)
  exact ⟨h, by decide, hsupplies, hsafe, hsafe.rolls hsupplies⟩

end Expression

end DiceEngine
