import DiceEngine.Proofs.Reading

/-!
# What is reported of malformed texts

A text that is no expression is a part that was read and a part that was not
(`parse_eq_error`). The reason in the report is known from the two parts
(`Stop.Justified.empty_iff` and the lemmas behind it), and the part that was
read, taken alone, is read as the same expression again: every report is exact
(`Malformed.Exact`, `parse_error_exact`).
-/

namespace DiceEngine

namespace Expression

/-! ## Why reading stops -/

section Reasons

variable {stop : Stop} {read : List Char}

theorem Stop.Justified.empty_iff (hj : stop.Justified) (hs : stop.soFar.SpelledBy read) :
    stop.reason = .empty ↔ Text.Blank (read ++ stop.unread) := by
  have hn := hs.1.terms_eq_nil_iff
  unfold Stop.Justified at hj
  split at hj
  · next hr =>
    rw [hj.1, List.append_nil]
    exact iff_of_true hr (hn.mp hj.2)
  · next hr =>
    rw [hr, hj.1, List.append_nil]
    exact iff_of_false (fun h => nomatch h) fun hb => hj.2.1 (hn.mpr hb)
  · next why hr =>
    obtain ⟨⟨c, u, hu, hc⟩, -⟩ := hj
    rw [hr, hu]
    refine iff_of_false (fun h => nomatch h) fun hb => ?_
    rw [hb c (by simp)] at hc
    exact Bool.false_ne_true hc.symm

/-- Nothing is unread where nothing was found. -/
theorem Stop.Justified.unread_of_empty (hj : stop.Justified) (hr : stop.reason = .empty) :
    stop.unread = [] := by
  unfold Stop.Justified at hj
  simp only [hr] at hj
  exact hj.1

theorem Stop.Justified.danglingOperator_iff (hj : stop.Justified) :
    stop.reason = .danglingOperator ↔ stop.unread = [] ∧ stop.soFar.EndsOnOperator := by
  unfold Stop.Justified at hj
  split at hj
  · next hr =>
    rw [hr]
    exact iff_of_false (fun h => nomatch h) fun h => h.2.1 hj.2
  · next hr => exact iff_of_true hr hj
  · next why hr =>
    obtain ⟨⟨c, u, hu, -⟩, -⟩ := hj
    rw [hr, hu]
    exact iff_of_false (fun h => nomatch h) fun h => nomatch h.1

theorem Stop.Justified.rejected_iff (hj : stop.Justified) {why : Rejection} :
    stop.reason = .rejected why ↔ ∃ c u, stop.unread = c :: u ∧ Text.isBlank c = false ∧
      stop.soFar.readToken (c :: u) = .error why := by
  unfold Stop.Justified at hj
  split at hj
  · next hr =>
    rw [hr, hj.1]
    exact iff_of_false (fun h => nomatch h) fun ⟨_, _, h, _⟩ => nomatch h
  · next hr =>
    rw [hr, hj.1]
    exact iff_of_false (fun h => nomatch h) fun ⟨_, _, h, _⟩ => nomatch h
  · next why' hr =>
    obtain ⟨⟨c, u, hu, hc⟩, ht⟩ := hj
    rw [hr, hu]
    rw [hu] at ht
    constructor
    · intro h
      cases h
      exact ⟨c, u, rfl, hc, ht⟩
    · rintro ⟨_, _, h, -, ht'⟩
      cases h
      rw [ht] at ht'
      cases ht'
      rfl

/-- Only dice make dice too many, and there must have been some before. -/
theorem SpelledBy.readToken_tooManyDice_iff {e : Expression} {s : List Char}
    (hs : e.SpelledBy read) : e.readToken s = .error .tooManyDice ↔ e.EndsOnOperator ∧
      ∃ cs u g, s = cs ++ u ∧ DieGroup.Spelled cs g ∧ 100 < g.quantity + e.diceCount := by
  have hcap : e.diceCount ≤ 100 := hs.2.capped
  rw [Expression.readToken_tooManyDice_iff, expectsTerm_iff]
  constructor
  · rintro ⟨hl, t, r, ht, hd⟩
    change 100 < e.diceCount + t.diceCount at hd
    obtain ⟨cs, rfl, hcs⟩ := Token.term_sound ht
    cases hcs with
    | literal _ => simp only [Term.diceCount] at hd; omega
    | @dice g hg =>
      simp only [Term.diceCount] at hd
      refine ⟨⟨fun hn => ?_, hl⟩, cs, r, g, rfl, hg, by omega⟩
      have hq := g.quantity_le
      rw [hs.2.counted, hn, List.map_nil, List.sum_nil] at hd
      omega
  · rintro ⟨⟨-, hl⟩, cs, u, g, rfl, hg, hd⟩
    obtain ⟨g', r, hg', hq⟩ := Token.dieGroup_quantity hg u
    refine ⟨hl, .dice g', r, by simp only [Token.term, hg'], ?_⟩
    change 100 < e.diceCount + g'.quantity
    omega

theorem Stop.Justified.expectedTerm_iff (hj : stop.Justified) :
    stop.reason = .rejected .expectedTerm ↔ stop.soFar.expectsTerm = true ∧
      ∃ c u, stop.unread = c :: u ∧ Text.isBlank c = false ∧ c.isDigit = false := by
  rw [hj.rejected_iff]
  simp only [readToken_expectedTerm_iff]
  exact ⟨fun ⟨c, u, hu, hb, he, hd⟩ => ⟨he, c, u, hu, hb, hd⟩,
    fun ⟨he, c, u, hu, hb, hd⟩ => ⟨c, u, hu, hb, he, hd⟩⟩

theorem Stop.Justified.expectedOperator_iff (hj : stop.Justified)
    (hs : stop.soFar.SpelledBy read) :
    stop.reason = .rejected .expectedOperator ↔ stop.soFar.isComplete = true ∧
      ∃ c u, stop.unread = c :: u ∧ Text.isBlank c = false ∧ c ≠ '+' ∧ c ≠ '-' := by
  rw [hj.rejected_iff, hs.2.isComplete_iff_not_expectsTerm]
  simp only [readToken_expectedOperator_iff]
  exact ⟨fun ⟨c, u, hu, hb, he, hp⟩ => ⟨he, c, u, hu, hb, hp⟩,
    fun ⟨he, c, u, hu, hb, hp⟩ => ⟨c, u, hu, hb, he, hp⟩⟩

theorem Stop.Justified.tooManyDice_iff (hj : stop.Justified) (hs : stop.soFar.SpelledBy read) :
    stop.reason = .rejected .tooManyDice ↔ stop.soFar.EndsOnOperator ∧
      ∃ cs u g, stop.unread = cs ++ u ∧ DieGroup.Spelled cs g ∧
        100 < g.quantity + stop.soFar.diceCount := by
  rw [hj.rejected_iff]
  simp only [hs.readToken_tooManyDice_iff]
  constructor
  · intro ⟨c, u, hu, _, he⟩
    rwa [hu]
  · -- A group begins with a digit, so it is no blank that is unread.
    intro ⟨he, cs, u, g, hu, hg, hd⟩
    obtain ⟨c, cs', rfl, hc⟩ := (Term.Spelled.dice hg).head
    exact ⟨c, cs' ++ u, hu, Text.not_blank_of_digit hc, he, c :: cs', u, g, rfl, hg, hd⟩

end Reasons

/-! ## Reports -/

theorem byteLength_eq (s : List Char) : Text.byteLength s = (s.map Char.utf8Size).sum := by
  rw [Text.byteLength, List.sum_eq_foldl, List.foldl_map]

theorem byteLength_append (s t : List Char) :
    Text.byteLength (s ++ t) = Text.byteLength s + Text.byteLength t := by
  simp only [byteLength_eq, List.map_append, List.sum_append]

/-- A text that is no expression is a part that was read and one that was not. -/
theorem parse_eq_error {text : String} {m : Malformed} (h : parse text = .error m) :
    ∃ read unread, text.toList = read ++ unread ∧ m.position = Text.byteLength read ∧
      m.soFar.SpelledBy read ∧ Stop.Justified ⟨unread, m.reason, m.soFar⟩ := by
  unfold parse at h
  split at h
  · cases h
  · next stop he =>
    obtain ⟨read, hr, hs, hj⟩ := (readOnto_sound SpelledBy.empty).2 stop he
    cases h
    refine ⟨read, stop.unread, hr, ?_, hs, hj⟩
    simp only [hr, byteLength_append, Nat.add_sub_cancel]

/-- A text that spells an unfinished expression is refused at its end. -/
theorem SpelledBy.parse_eq_error {e : Expression} {text : String} (h : e.SpelledBy text.toList)
    (hc : e.isComplete = false) : parse text = .error ⟨Text.byteLength text.toList,
      if e.terms.isEmpty then .empty else .danglingOperator, e⟩ := by
  unfold parse
  rw [h.readOnto, atEnd_of_incomplete hc]
  rfl

end Expression

/-- What a report of a malformed text says, when the text is the part that was read and the part
that was not. The part that was read, taken alone, is read as the same expression again. -/
structure Malformed.Exact (m : Malformed) (read unread : String) : Prop where
  position : m.position = read.utf8ByteSize
  /-- A complete expression had been read. -/
  replay_complete : m.soFar.isComplete = true → Expression.parse read = .ok m.soFar
  /-- An unfinished expression had been read. -/
  replay_unfinished : m.soFar.isComplete = false → Expression.parse read =
    .error ⟨m.position, if m.soFar.terms.isEmpty then .empty else .danglingOperator, m.soFar⟩
  unfinished : m.soFar.isComplete = false → m.soFar.terms = [] ∨ m.soFar.EndsOnOperator
  empty_iff : m.reason = .empty ↔ Text.Blank (read ++ unread).toList
  empty_position : m.reason = .empty → m.position = (read ++ unread).utf8ByteSize
  danglingOperator_iff : m.reason = .danglingOperator ↔
    m.position = (read ++ unread).utf8ByteSize ∧ unread = "" ∧ m.soFar.EndsOnOperator
  expectedTerm_iff : m.reason = .rejected .expectedTerm ↔ m.soFar.expectsTerm = true ∧
    ∃ c u, unread.toList = c :: u ∧ Text.isBlank c = false ∧ c.isDigit = false
  expectedOperator_iff : m.reason = .rejected .expectedOperator ↔ m.soFar.isComplete = true ∧
    ∃ c u, unread.toList = c :: u ∧ Text.isBlank c = false ∧ c ≠ '+' ∧ c ≠ '-'
  tooManyDice_iff : m.reason = .rejected .tooManyDice ↔ m.soFar.EndsOnOperator ∧
    ∃ cs u g, unread.toList = cs ++ u ∧ DieGroup.Spelled cs g ∧
      100 < g.quantity + m.soFar.diceCount

namespace Expression

theorem utf8ByteSize_ofList (s : List Char) :
    (String.ofList s).utf8ByteSize = Text.byteLength s := by
  induction s with
  | nil => rfl
  | cons c s ih =>
    rw [← List.singleton_append, String.ofList_append, String.utf8ByteSize_append, ih,
      byteLength_append]
    simp [Text.byteLength]

/-- Every report of a malformed text is exact: it names a place between two characters, and what
is said to have been read is what the text up to there spells. -/
theorem parse_error_exact {text : String} {m : Malformed} (h : parse text = .error m) :
    ∃ read unread, text = read ++ unread ∧ m.Exact read unread := by
  obtain ⟨read, unread, ht, hpos, hs, hj⟩ := parse_eq_error h
  have hs' : m.soFar.SpelledBy (String.ofList read).toList := by rwa [String.toList_ofList]
  have happ : (String.ofList read ++ String.ofList unread).toList = read ++ unread := by simp
  have hend : unread = [] →
      m.position = (String.ofList read ++ String.ofList unread).utf8ByteSize := by
    intro hu
    rw [String.utf8ByteSize_append, hu, hpos, utf8ByteSize_ofList]
    rfl
  refine ⟨String.ofList read, String.ofList unread, ?_, ?_⟩
  · rw [← String.ofList_append, ← ht, String.ofList_toList]
  constructor
  case position => rw [hpos, utf8ByteSize_ofList]
  case replay_complete => exact fun hc => parse_eq_ok_iff.mpr ⟨hs', hc⟩
  case replay_unfinished =>
    intro hc
    rw [hs'.parse_eq_error hc, hpos, String.toList_ofList]
  case unfinished =>
    intro hc
    by_cases hn : m.soFar.terms = []
    · exact .inl hn
    · exact .inr (hs.2.endsOnOperator hc hn)
  case empty_iff => rw [happ]; exact hj.empty_iff hs
  case empty_position => exact fun hr => hend (hj.unread_of_empty hr)
  case danglingOperator_iff =>
    rw [show m.reason = .danglingOperator ↔ _ from hj.danglingOperator_iff]
    refine ⟨fun ⟨hu, he⟩ => ⟨hend hu, ?_, he⟩, fun ⟨_, hu, he⟩ => ⟨by simpa using hu, he⟩⟩
    rw [show unread = [] from hu]
  case expectedTerm_iff => rw [String.toList_ofList]; exact hj.expectedTerm_iff
  case expectedOperator_iff => rw [String.toList_ofList]; exact hj.expectedOperator_iff hs
  case tooManyDice_iff => rw [String.toList_ofList]; exact hj.tooManyDice_iff hs

/-- Reading stops at a group that would be one die too many. -/
theorem parse_error_exact_sixty_forty_one :
    parse "60d6 + 41d6" = .error ⟨7, .rejected .tooManyDice, ofParts
      [.dice ⟨60, 6, none, by decide, by decide, by decide, by decide, by decide⟩] [.add]⟩ ∧
    ∃ read unread, "60d6 + 41d6" = read ++ unread ∧
      Malformed.Exact ⟨7, .rejected .tooManyDice, ofParts
        [.dice ⟨60, 6, none, by decide, by decide, by decide, by decide, by decide⟩] [.add]⟩
        read unread := by
  have h : parse "60d6 + 41d6" = .error ⟨7, .rejected .tooManyDice, ofParts
      [.dice ⟨60, 6, none, by decide, by decide, by decide, by decide, by decide⟩] [.add]⟩ := by
    decide +kernel
  exact ⟨h, parse_error_exact h⟩

end Expression

end DiceEngine
