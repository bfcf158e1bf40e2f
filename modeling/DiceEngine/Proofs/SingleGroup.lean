import DiceEngine.Proofs.Capped
import DiceEngine.Proofs.Lookahead
import DiceEngine.Proofs.Trimmed

/-!
# Groups read alone

A text is read as a die group in one piece: the blanks at both its ends are taken
away first, and the group has to fill what is left. As an expression it is read
token by token. A recogniser does not see what is detached from its token
(`Token.Passes`), so both find the same group at the start of the text
(`Token.dieGroup_passes`), and the first term that is read of a text is the one
that stands there, whatever comes behind it (`Expression.head_termsRead`).

What follows for the groups and for the reports of the two is `readers_agree`.
-/

namespace DiceEngine

/-! ## The first term -/

theorem Token.term_eq_dice_iff {g : DieGroup} {s r : List Char} :
    term s = some (.dice g, r) ↔ dieGroup s = some (g, r) := by
  unfold term
  cases dieGroup s with
  | none => cases literal s <;> simp
  | some found => simp [Prod.ext_iff]

namespace Expression

/-- The terms that reading has found in a text, also where it stopped. -/
def termsRead (text : String) : List Term :=
  match parse text with
  | .ok e => e.terms
  | .error m => m.soFar.terms

/-- The expression that reading ends with. -/
def reached : Except Stop Expression → Expression
  | .ok e => e
  | .error stop => stop.soFar

theorem reached_atEnd (e : Expression) : reached e.atEnd = e := by
  unfold atEnd
  split
  · rfl
  · split <;> rfl

theorem termsRead_eq (text : String) :
    termsRead text = (reached (empty.readOnto text.toList)).terms := by
  unfold termsRead parse
  cases empty.readOnto text.toList <;> rfl

/-- A token adds to the terms or leaves them. -/
theorem terms_prefix_of_readToken {e e' : Expression} {s r : List Char}
    (h : e.readToken s = .ok (e', r)) : e.terms <+: e'.terms := by
  rcases readToken_eq_ok_iff.mp h with ⟨-, t, -, hp⟩ | ⟨-, op, -, hp⟩
  · obtain ⟨-, -, rfl⟩ := pushTerm_eq_ok_iff.mp hp
    exact List.prefix_append _ _
  · obtain ⟨-, rfl⟩ := pushOperator_eq_ok_iff.mp hp
    exact List.prefix_refl _

/-- What has been read stays. -/
theorem terms_prefix_readOnto (e : Expression) (s : List Char) :
    e.terms <+: (reached (e.readOnto s)).terms := by
  fun_induction readOnto e s with
  | case1 e s hs => exact (reached_atEnd e).symm ▸ List.prefix_refl e.terms
  | case2 e s c cs hs why ht => exact List.prefix_refl _
  | case3 e s c cs hs e' r ht ih => exact (terms_prefix_of_readToken ht).trans ih

/-- The first term that is read is the one at the start of the text. -/
theorem head_termsRead (text : String) :
    (termsRead text).head? = (Token.term (Text.trimStart text.toList)).map Prod.fst := by
  rw [termsRead_eq]
  cases hs : Text.trimStart text.toList with
  | nil =>
    rw [readOnto_of_blank (Text.trimStart_eq_nil_iff.mp hs), reached_atEnd]
    rfl
  | cons c cs =>
    cases ht : Token.term (c :: cs) with
    | none =>
      have hrefused : empty.readToken (c :: cs) = .error .expectedTerm :=
        readToken_expectedTerm_iff.mpr ⟨rfl, Token.term_eq_none_iff.mp ht⟩
      rw [readOnto_of_refused hs hrefused]
      rfl
    | some found =>
      obtain ⟨t, r⟩ := found
      have htoken : empty.readToken (c :: cs) = .ok (ofPairs t [], r) :=
        readToken_eq_ok_iff.mpr (.inl ⟨rfl, t, ht, ofTerm_eq_ok t⟩)
      rw [readOnto_of_token hs htoken]
      obtain ⟨ts, hts⟩ := terms_prefix_readOnto (ofPairs t []) r
      rw [← hts]
      rfl

/-- A text of one group is a spelling of the group with blanks around it. -/
theorem spells_dice_iff {s : List Char} {g : DieGroup} : Spells s [.dice g] [] ↔
    ∃ lead cs trail, s = lead ++ (cs ++ trail) ∧ Text.Blank lead ∧ DieGroup.Spelled cs g ∧
      Text.Blank trail := by
  constructor
  · intro h
    generalize hts : [Term.dice g] = ts at h
    generalize hops : ([] : List Operator) = ops at h
    cases h with
    | blank hb => cases hts
    | @term lead cs trail ts ops t h hl ht hb =>
      subst hops
      rw [List.eq_nil_of_length_eq_zero hl] at h hts
      cases hts
      cases ht with
      | dice hg => exact ⟨lead, cs, trail, List.append_assoc .., h.terms_eq_nil_iff.mp rfl, hg, hb⟩
    | operator => simp at hops
  · intro h
    obtain ⟨lead, cs, trail, hs, hlead, hg, htrail⟩ := h
    rw [hs, ← List.append_assoc]
    show Spells (lead ++ cs ++ trail) ([] ++ [.dice g]) []
    exact .term (.blank hlead) rfl (.dice hg) htrail

theorem parse_eq_single_iff {text : String} {g : DieGroup} :
    parse text = .ok (ofParts [.dice g] []) ↔ Spells text.toList [.dice g] [] := by
  rw [parse_eq_ok_iff]
  exact ⟨fun h => h.1.1, fun h => ⟨⟨h, WellFormed.empty.pushTerm (ofTerm_eq_ok (.dice g))⟩, rfl⟩⟩

end Expression

/-! ## One group and blanks -/

namespace DieGroup

theorem parse_eq_ok_iff_dieGroup {text : String} {g : DieGroup} :
    parse text = .ok g ↔ Token.dieGroup (Text.trim text.toList) = some (g, []) := by
  unfold parse
  simp only
  split <;> simp_all

/-- The texts that are read as a group. -/
theorem parse_eq_ok_iff_spells {text : String} {g : DieGroup} :
    parse text = .ok g ↔ Expression.Spells text.toList [.dice g] [] := by
  rw [parse_eq_ok_iff_dieGroup, Expression.spells_dice_iff]
  constructor
  · intro h
    obtain ⟨cs, hcs, hg⟩ := Token.dieGroup_sound h
    rw [List.append_nil] at hcs
    obtain ⟨lead, hlead, hs⟩ := Text.exists_blank_append_trimStart text.toList
    obtain ⟨trail, htrail, hstart⟩ := Text.exists_trimEnd_append_blank (Text.trimStart text.toList)
    rw [← Text.trim, hcs] at hstart
    exact ⟨lead, cs, trail, hstart ▸ hs, hlead, hg, htrail⟩
  · intro h
    obtain ⟨lead, cs, trail, hs, hlead, hg, htrail⟩ := h
    rw [hs, (Term.Spelled.dice hg).trimmed.trim_padded hlead htrail]
    simpa using Token.dieGroup_append hg .nil

/-- The group at the start of a text is found before and after the blanks at its end are
trimmed. -/
theorem dieGroup_trimStart (s : List Char) : ∃ trail, Text.Blank trail ∧
    Text.trimStart s = Text.trim s ++ trail ∧ Token.dieGroup (Text.trimStart s) =
      (Token.dieGroup (Text.trim s)).map fun found => (found.1, found.2 ++ trail) := by
  obtain ⟨trail, htrail, hstart⟩ := Text.exists_trimEnd_append_blank (Text.trimStart s)
  refine ⟨trail, htrail, hstart, ?_⟩
  have hdetached : Detached trail := by
    simpa using htrail.detached .nil
  rw [hstart]
  exact Token.dieGroup_passes hdetached _

/-- The blanks in front of a text. -/
def lead (text : String) : List Char := text.toList.takeWhile Text.isBlank

theorem blank_lead (text : String) : Text.Blank (lead text) :=
  List.all_eq_true.mp List.all_takeWhile

theorem lead_append (text : String) : lead text ++ Text.trimStart text.toList = text.toList :=
  Text.trimStart_append_dropped _

/-- Why a text is no group, with the report of it. -/
inductive Refused (text : String) : Malformed → Prop
  | blank (hb : Text.Blank text.toList) : Refused text ⟨text.utf8ByteSize, .empty, .empty⟩
  /-- No group begins behind the blanks in front. -/
  | noGroup (hb : ¬ Text.Blank text.toList)
      (hnone : Token.dieGroup (Text.trim text.toList) = none) :
      Refused text ⟨Text.byteLength (lead text), .rejected .expectedTerm, .empty⟩
  /-- A group begins there and does not fill the text. -/
  | leftOver {g : DieGroup} {cs rest unread : List Char} (hg : Spelled cs g)
      (hgroup : Token.dieGroup (Text.trim text.toList) = some (g, rest))
      (ht : text.toList = lead text ++ cs ++ unread) :
      Refused text ⟨Text.byteLength (lead text ++ cs), .rejected .expectedOperator, .empty⟩

theorem refused_of_parse_eq_error {text : String} {m : Malformed} (h : parse text = .error m) :
    Refused text m := by
  have hoffset : Text.byteLength text.toList - Text.byteLength (Text.trimStart text.toList) =
      Text.byteLength (lead text) := by
    have hlength := congrArg Text.byteLength (lead_append text)
    rw [Expression.byteLength_append] at hlength
    omega
  unfold parse at h
  simp only [hoffset] at h
  split at h
  · cases h
  · next g rest _ hgroup =>
    cases h
    obtain ⟨cs, hcs, hg⟩ := Token.dieGroup_sound hgroup
    have hpos : Text.byteLength (lead text) + Text.byteLength (Text.trim text.toList) -
        Text.byteLength rest = Text.byteLength (lead text ++ cs) := by
      rw [hcs]
      simp only [Expression.byteLength_append]
      omega
    obtain ⟨trail, -, hstart⟩ := Text.exists_trimEnd_append_blank (Text.trimStart text.toList)
    have ht : text.toList = lead text ++ cs ++ (rest ++ trail) := by
      rw [← Text.trim, hcs] at hstart
      conv_lhs => rw [← lead_append, hstart]
      simp only [List.append_assoc]
    rw [hpos]
    exact .leftOver hg hgroup ht
  · next hnone =>
    cases h
    by_cases hb : Text.Blank text.toList
    · have hall : lead text = text.toList := by
        rw [← lead_append, Text.trimStart_eq_nil_iff.mpr hb, List.append_nil]
      have hsize : Text.byteLength (lead text) = text.utf8ByteSize := by
        rw [hall, ← Expression.utf8ByteSize_ofList, String.ofList_toList]
      rw [Text.trim_eq_nil_iff.mpr hb, hsize]
      exact .blank hb
    · rw [if_neg (by simpa [Text.trim_eq_nil_iff] using hb)]
      exact .noGroup hb hnone

/-- Of blanks alone the size of the text is reported. -/
theorem parse_of_blank {text : String} (hb : Text.Blank text.toList) :
    parse text = .error ⟨text.utf8ByteSize, .empty, .empty⟩ := by
  cases h : parse text with
  | ok g =>
    rw [parse_eq_ok_iff_dieGroup, Text.trim_eq_nil_iff.mpr hb] at h
    cases h
  | error m =>
    cases refused_of_parse_eq_error h with
    | blank => rfl
    | noGroup hnot => exact absurd hb hnot
    | leftOver hg hgroup =>
      rw [Text.trim_eq_nil_iff.mpr hb] at hgroup
      cases hgroup

end DieGroup

open Expression (termsRead ofParts)

/-- What a text is as a group, against what it is as an expression. -/
structure ReadersAgree (text : String) : Prop where
  /-- A text is a group where it is the expression of that group alone. -/
  ok_iff : ∀ g, DieGroup.parse text = .ok g ↔
    Expression.parse text = .ok (ofParts [.dice g] [])
  reported : ∀ m, DieGroup.parse text = .error m → m.soFar = .empty ∧
    (m.reason = .empty ∨ m.reason = .rejected .expectedTerm ∨
      m.reason = .rejected .expectedOperator)
  /-- The text in front of the place is a group, and the expression begins with it. -/
  expectedOperator : ∀ m, DieGroup.parse text = .error m → m.reason = .rejected .expectedOperator →
    ∃ read unread g, text = read ++ unread ∧ m.position = read.utf8ByteSize ∧
      DieGroup.parse read = .ok g ∧ (termsRead text).head? = some (.dice g)
  /-- The place is behind the blanks in front, and the expression begins with no group. -/
  expectedTerm : ∀ m, DieGroup.parse text = .error m → m.reason = .rejected .expectedTerm →
    m.position = Text.byteLength (DieGroup.lead text) ∧
      ¬ Text.Blank text.toList ∧ ∀ g, (termsRead text).head? ≠ some (.dice g)
  empty_iff : (∃ m, DieGroup.parse text = .error m ∧ m.reason = .empty) ↔ Text.Blank text.toList
  empty_position : ∀ m, DieGroup.parse text = .error m → m.reason = .empty →
    m.position = text.utf8ByteSize

/-- Reading begins with a group exactly where the trimmed text does. -/
theorem Expression.head_termsRead_eq_dice_iff {text : String} {g : DieGroup} :
    (termsRead text).head? = some (.dice g) ↔
      ∃ rest, Token.dieGroup (Text.trim text.toList) = some (g, rest) := by
  obtain ⟨trail, -, -, hfound⟩ := DieGroup.dieGroup_trimStart text.toList
  rw [head_termsRead, Option.map_eq_some_iff]
  constructor
  · intro h
    obtain ⟨⟨t, r⟩, hterm, ht⟩ := h
    rw [show t = .dice g from ht, Token.term_eq_dice_iff, hfound, Option.map_eq_some_iff] at hterm
    obtain ⟨⟨g', rest⟩, hgroup, heq⟩ := hterm
    cases heq
    exact ⟨rest, hgroup⟩
  · intro h
    obtain ⟨rest, hgroup⟩ := h
    refine ⟨(.dice g, rest ++ trail), ?_, rfl⟩
    rw [Token.term_eq_dice_iff, hfound, hgroup]
    rfl

/-- The two ways to read a text agree: the group is the expression of the group alone, and where
there is none, the report tells how the expression begins. -/
theorem readers_agree (text : String) : ReadersAgree text := by
  constructor
  case ok_iff =>
    intro g
    rw [DieGroup.parse_eq_ok_iff_spells, Expression.parse_eq_single_iff]
  case reported =>
    intro m h
    refine ⟨?_, ?_⟩ <;> cases DieGroup.refused_of_parse_eq_error h <;> simp
  case expectedOperator =>
    intro m h hreason
    cases DieGroup.refused_of_parse_eq_error h with
    | blank | noGroup => cases hreason
    | @leftOver g cs rest unread hg hgroup ht =>
      refine ⟨String.ofList (DieGroup.lead text ++ cs), String.ofList unread, g, ?_,
        (Expression.utf8ByteSize_ofList _).symm, ?_,
        Expression.head_termsRead_eq_dice_iff.mpr ⟨rest, hgroup⟩⟩
      · rw [← String.ofList_append, ← ht, String.ofList_toList]
      · rw [DieGroup.parse_eq_ok_iff_spells, String.toList_ofList, Expression.spells_dice_iff]
        exact ⟨_, cs, [], by rw [List.append_nil], DieGroup.blank_lead text, hg, .nil⟩
  case expectedTerm =>
    intro m h hreason
    cases DieGroup.refused_of_parse_eq_error h with
    | blank | leftOver => cases hreason
    | noGroup hb hnone =>
      refine ⟨rfl, hb, fun g hhead => ?_⟩
      obtain ⟨rest, hgroup⟩ := Expression.head_termsRead_eq_dice_iff.mp hhead
      rw [hnone] at hgroup
      cases hgroup
  case empty_iff =>
    constructor
    · intro hempty
      obtain ⟨m, h, hreason⟩ := hempty
      cases DieGroup.refused_of_parse_eq_error h with
      | blank hb => exact hb
      | noGroup | leftOver => cases hreason
    · exact fun hb => ⟨_, DieGroup.parse_of_blank hb, rfl⟩
  case empty_position =>
    intro m h hreason
    cases DieGroup.refused_of_parse_eq_error h with
    | blank => rfl
    | noGroup | leftOver => cases hreason

/-- A hundred dice are no group, but a number with something behind it. -/
example : DieGroup.parse " 100d6" = .error ⟨1, .rejected .expectedTerm, .empty⟩ ∧
    Expression.parse " 100d6" = .error ⟨4, .rejected .expectedOperator,
      ofParts [.literal 100] []⟩ := by
  decide +kernel

end DiceEngine
