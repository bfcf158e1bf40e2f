import DiceEngine.Console.Command
import DiceEngine.Proofs.Trimmed

/-!
# Lines with a keyword

A line with a keyword is a word, a gap and a text, with blanks around them
(`Spacing.line`), and every line on which a keyword is found is of this form
(`exists_spacing`). What it asks for is known from the keyword and the text
(`Spacing.parse_line`), so another keyword asks for the same expression, and an
alias may be put for the text of its expression (`Spacing.parse_line_alias`,
`Spacing.parse_line_text`).
-/

namespace DiceEngine

/-! ## Canonical texts have no blank at either end -/

namespace Expression

theorem trimmed_tailText {ts : List Term} : ∀ {ops : List Operator} {s : List Char},
    ts.length = ops.length → (∀ t ∈ ts, t.Writable) → Text.Trimmed s →
    Text.Trimmed (s ++ (tailText ts ops).toList) := by
  induction ts with
  | nil =>
    intro ops s hl _ hs
    rw [List.eq_nil_of_length_eq_zero hl.symm]
    simpa [tailText] using hs
  | cons t ts ih =>
    intro ops s hl hw hs
    obtain ⟨op, ops, rfl⟩ := List.exists_cons_of_length_eq_add_one hl.symm
    obtain ⟨ht, hts⟩ := List.forall_mem_cons.mp hw
    have hfirst := hs.append (t := [' ', op.symbol, ' ']) ht.spelled_text.trimmed
    have hrest := ih (Nat.succ_inj.mp hl) hts hfirst
    rw [toList_tailText_cons]
    simpa only [List.append_assoc] using hrest

/-- The text of what was read begins and ends with a term. -/
theorem trimmed_text {text : String} {e : Expression} (h : parse text = .ok e) :
    Text.Trimmed e.text.toList := by
  obtain ⟨⟨hspells, -⟩, hc⟩ := parse_eq_ok_iff.mp h
  have hw := hspells.writable
  have hl := isComplete_iff.mp hc
  obtain ⟨_ | ⟨t, ts⟩, ops, k⟩ := e
  · exact nomatch hl
  · obtain ⟨ht, hts⟩ := List.forall_mem_cons.mp hw
    rw [Expression.text, String.toList_append]
    exact trimmed_tailText (Nat.succ_inj.mp hl) hts ht.spelled_text.trimmed

/-- What was read is read again of its text, also behind some blanks. -/
theorem parse_blank_append_text {text : String} {e : Expression} (h : parse text = .ok e)
    {b : List Char} (hb : Text.Blank b) : parse (String.ofList (b ++ e.text.toList)) = .ok e := by
  obtain ⟨⟨hspells, hw⟩, hc⟩ := parse_eq_ok_iff.mp h
  have htext : parse e.text = .ok e :=
    hw.parse_text_eq_ok_iff.mpr ⟨rfl, hc, forall_writable_iff.mp hspells.writable⟩
  rw [parse_eq_ok_iff_readOnto] at htext ⊢
  rw [String.toList_ofList, readOnto_append_blank hb, htext]

end Expression

/-! ## Keywords -/

namespace Console

/-- A word, in letters of any case, is this keyword. -/
def Keyword.Names (k : Keyword) (word : String) : Prop :=
  ofWord? (Command.lowercase word.toList) = some k

instance (k : Keyword) (word : String) : Decidable (k.Names word) :=
  inferInstanceAs (Decidable (_ = _))

theorem isBlank_of_isGap {c : Char} (h : Command.isGap c = true) : Text.isBlank c = true := by
  simp only [Command.isGap, Bool.or_eq_true, beq_iff_eq] at h
  rcases h with ((rfl | rfl) | rfl) | rfl <;> decide

theorem not_isGap_of_not_blank {c : Char} (h : Text.isBlank c = false) :
    Command.isGap c = false := by
  by_contra hgap
  have hblank := isBlank_of_isGap (c := c) (by simpa using hgap)
  exact Bool.false_ne_true (h.symm.trans hblank)

/-- Blanks have no case. -/
theorem toLower_of_blank {c : Char} (h : Text.isBlank c = true) : c.toLower = c := by
  refine dif_neg fun hupper => ?_
  have hA : 65 ≤ c.toNat := hupper.1
  have hZ : c.toNat ≤ 90 := hupper.2
  simp only [Text.isBlank, Text.isIn, Text.blankRanges, List.any_cons, List.any_nil, Bool.or_false,
    Bool.or_eq_true, Bool.and_eq_true, decide_eq_true_eq] at h
  omega

/-- Blanks of a text are blanks of its small letters. -/
theorem mem_lowercase_of_blank {s : List Char} {c : Char} (hc : c ∈ s)
    (hb : Text.isBlank c = true) : c ∈ (Command.lowercase s).toList := by
  rw [Command.lowercase, String.toList_ofList]
  exact List.mem_map.mpr ⟨c, hc, toLower_of_blank hb⟩

theorem Keyword.not_blank_of_ofWord? {w : String} {k : Keyword} (h : ofWord? w = some k) :
    w ≠ "" ∧ ∀ c ∈ w.toList, Text.isBlank c = false := by
  have hall : w ≠ "" ∧ w.toList.all (fun c => !Text.isBlank c) = true := by
    unfold ofWord? at h
    split at h
    case h_9 => cases h
    all_goals exact ⟨by decide, by decide⟩
  exact ⟨hall.1, fun c hc => by simpa using List.all_eq_true.mp hall.2 c hc⟩

theorem Keyword.Names.not_blank {k : Keyword} {word : String} (h : k.Names word) :
    ∀ c ∈ word.toList, Text.isBlank c = false := by
  intro c hc
  by_contra hb
  have hb : Text.isBlank c = true := by simpa using hb
  have hlower := (not_blank_of_ofWord? h).2 c (mem_lowercase_of_blank hc hb)
  exact Bool.false_ne_true (hlower.symm.trans hb)

theorem Keyword.Names.trimmed {k : Keyword} {word : String} (h : k.Names word) :
    Text.Trimmed word.toList := by
  refine .of_not_blank (fun hnil => ?_) h.not_blank
  have hne := (not_blank_of_ofWord? h).1
  rw [hnil] at hne
  exact hne rfl

namespace Command

/-- The keyword of a word in front of a gap. -/
theorem keyword?_append {k : Keyword} {word : String} (h : k.Names word) {g : Char}
    (hg : isGap g = true) (rest : List Char) :
    keyword? (word.toList ++ g :: rest) = some (k, rest.dropWhile isGap) := by
  have hword : (word.toList ++ g :: rest).takeWhile (fun c => !isGap c) = word.toList := by
    rw [List.takeWhile_append_of_pos, List.takeWhile_cons_of_neg (by simp [hg]), List.append_nil]
    intro c hc
    rw [not_isGap_of_not_blank (h.not_blank c hc), Bool.not_false]
  have hk : Keyword.ofWord? (lowercase word.toList) = some k := h
  simp only [keyword?, hword, hk, List.drop_left, Option.bind_eq_bind, Option.bind_some,
    List.dropWhile_cons, hg, if_true]

/-- What a keyword is found in is the word, a gap and the rest. -/
theorem exists_gap {s text : List Char} {k : Keyword} (h : keyword? s = some (k, text)) :
    ∃ word g r, s = word ++ g :: r ∧ isGap g = true ∧
      Keyword.ofWord? (lowercase word) = some k := by
  simp only [keyword?, Option.bind_eq_bind, Option.bind_eq_some_iff] at h
  obtain ⟨k', hk, h⟩ := h
  have hsplit : s.takeWhile (fun c => !isGap c) ++ s.dropWhile (fun c => !isGap c) = s :=
    List.takeWhile_append_dropWhile
  have hstop := List.head?_dropWhile_not (fun c => !isGap c) s
  generalize s.takeWhile (fun c => !isGap c) = word at hk h hsplit
  generalize s.dropWhile (fun c => !isGap c) = behind at hsplit hstop
  subst hsplit
  rw [List.drop_left] at h
  rcases behind with _ | ⟨g, r⟩
  · cases h
  · cases h
    exact ⟨word, g, r, rfl, by simpa using hstop, hk⟩

/-- A line with a gap in it does not ask for help. -/
theorem lowercase_ne_help {s : List Char} {g : Char} (hmem : g ∈ s) (hg : isGap g = true) :
    lowercase s ≠ "help" ∧ lowercase s ≠ "h" := by
  have hb := isBlank_of_isGap hg
  have hlower := mem_lowercase_of_blank hmem hb
  have hnot : "help".toList.all (fun c => !Text.isBlank c) = true := by decide
  have hhelp : g ∉ "help".toList := by
    intro hmem
    have hfalse : Text.isBlank g = false := by simpa using List.all_eq_true.mp hnot g hmem
    exact Bool.false_ne_true (hfalse.symm.trans hb)
  constructor <;> intro heq <;> rw [heq] at hlower
  · exact hhelp hlower
  · refine hhelp ?_
    rw [List.mem_singleton.mp hlower]
    decide

/-- A name comes before what its text spells. -/
theorem expression_of_find? {aliases : Aliases} {name : String} {e : Expression}
    (hfind : aliases.find? name = some e) {text : List Char} (h : Text.trim text = name.toList) :
    expression aliases text = .ok e := by
  rw [expression, h, String.ofList_toList, hfind]

end Command

/-- Where a line with a keyword has its blanks: in front of the word, between the word and the
text, and behind the text. The first one behind the word is a gap. -/
structure Spacing where
  lead : List Char
  gap : Char
  mid : List Char
  trail : List Char
  lead_blank : Text.Blank lead
  gap_isGap : Command.isGap gap = true
  mid_blank : Text.Blank mid
  trail_blank : Text.Blank trail

namespace Spacing

/-- The line of a word and a text. -/
def line (b : Spacing) (word body : String) : String :=
  String.ofList (b.lead ++ (word.toList ++ b.gap :: (b.mid ++ body.toList) ++ b.trail))

variable {b : Spacing} {k : Keyword} {word : String} {mode : Mode} {aliases : Aliases}

/-- What is left of the blanks between the word and the text when the gap is taken. -/
def rest (b : Spacing) : List Char := b.mid.dropWhile Command.isGap

theorem rest_blank (b : Spacing) : Text.Blank b.rest :=
  fun c hc => b.mid_blank c ((List.dropWhile_sublist _).mem hc)

theorem trim_line (hword : k.Names word) {body : String} (hbody : Text.Trimmed body.toList) :
    Text.trim (b.line word body).toList = word.toList ++ b.gap :: (b.mid ++ body.toList) := by
  have htrimmed := hword.trimmed.append (t := b.gap :: b.mid) hbody
  rw [line, String.toList_ofList]
  exact htrimmed.trim_padded b.lead_blank b.trail_blank

/-- The command of a line with a keyword: the keyword says what to do with the expression of the
text, and the text says which expression that is. -/
theorem parse_line (hword : k.Names word) {body : String} (hbody : Text.Trimmed body.toList) :
    Command.parse mode aliases (b.line word body) =
      (Command.expression aliases (b.rest ++ body.toList)).map k.command := by
  have hhelp := Command.lowercase_ne_help
    (s := word.toList ++ b.gap :: (b.mid ++ body.toList)) (by simp) b.gap_isGap
  have hrest : (b.mid ++ body.toList).dropWhile Command.isGap = b.rest ++ body.toList := by
    have hbegin : body.toList.dropWhile Command.isGap = body.toList := by
      cases hcs : body.toList with
      | nil => rfl
      | cons c cs =>
        have hc := not_isGap_of_not_blank (hbody.head c (by rw [hcs]; rfl))
        exact List.dropWhile_cons_of_neg (Bool.eq_false_iff.mp hc)
    rw [List.dropWhile_append, hbegin]
    split
    · next hempty => rw [rest, List.isEmpty_iff.mp hempty, List.nil_append]
    · rfl
  rw [Command.parse, trim_line hword hbody]
  simp only [hhelp.1, hhelp.2, decide_false, Bool.or_self, Bool.false_eq_true, if_false,
    Command.keyword?_append hword b.gap_isGap, hrest]

theorem expression_of_find? {name : String} {e : Expression} (hname : Text.Trimmed name.toList)
    (hfind : aliases.find? name = some e) :
    Command.expression aliases (b.rest ++ name.toList) = .ok e := by
  have htrim : Text.trim (b.rest ++ name.toList) = name.toList := by
    simpa using hname.trim_padded b.rest_blank .nil
  exact Command.expression_of_find? hfind htrim

/-- An alias behind a keyword. -/
theorem parse_line_alias (hword : k.Names word) {name : String} {e : Expression}
    (hname : Text.Trimmed name.toList) (hfind : aliases.find? name = some e) :
    Command.parse mode aliases (b.line word name) = .ok (k.command e) := by
  rw [parse_line hword hname, expression_of_find? hname hfind]
  rfl

/-- The text of an expression behind a keyword, where it is no alias. -/
theorem parse_line_text (hword : k.Names word) {text : String} {e : Expression}
    (h : Expression.parse text = .ok e) (hfind : aliases.find? e.text = none) :
    Command.parse mode aliases (b.line word e.text) = .ok (k.command e) := by
  have htrimmed := Expression.trimmed_text h
  have htrim : Text.trim (b.rest ++ e.text.toList) = e.text.toList := by
    simpa using htrimmed.trim_padded b.rest_blank .nil
  rw [parse_line hword htrimmed, Command.expression, htrim, String.ofList_toList, hfind]
  simp only [Expression.parse_blank_append_text h b.rest_blank]
  rfl

end Spacing

/-- Every line on which a keyword is found is a word that is the keyword and a text. -/
theorem exists_spacing {line : String} {k : Keyword} {text : List Char}
    (h : Command.keyword? (Text.trim line.toList) = some (k, text)) :
    ∃ (b : Spacing) (word body : String), line = b.line word body ∧ k.Names word ∧
      Text.Trimmed body.toList := by
  have hline : ¬ Text.Blank line.toList := by
    intro hblank
    rw [Text.trim, Text.trimStart_eq_nil_iff.mpr hblank] at h
    cases h
  obtain ⟨lead, trail, hlead, htrail, hpadded, htrimmed⟩ := Text.exists_padding hline
  obtain ⟨word, g, r, hsplit, hg, hword⟩ := Command.exists_gap h
  rw [hsplit] at hpadded htrimmed
  have hr := htrimmed.not_blank_behind (isBlank_of_isGap hg)
  obtain ⟨mid, trail', hmid, htrail', hbody, hbodyTrimmed⟩ := Text.exists_padding hr
  refine ⟨⟨lead, g, mid, trail' ++ trail, hlead, hg, hmid, fun c hc =>
    (List.mem_append.mp hc).elim (htrail' c) (htrail c)⟩, String.ofList word,
    String.ofList (Text.trim r), ?_, ?_, ?_⟩
  · rw [← String.toList_inj, hpadded, Spacing.line]
    conv_lhs => rw [hbody]
    simp only [String.toList_ofList, List.append_assoc, List.cons_append]
  · rwa [Keyword.Names, String.toList_ofList]
  · rwa [String.toList_ofList]

end Console

end DiceEngine
