import DiceEngine.Proofs.CommandLine
import Mathlib.Data.List.Forall2

/-!
# What a line is taken for

A line is taken for a request for help, for a line with a keyword or for a bare
expression by its trimmed text alone: by its letters, of either case, and by the
gap behind its first word (`AsksForHelp`, `BeginsWith`). `Command.parse` finds
exactly these lines (`Command.lowercase_eq_iff`, `Command.keyword?_eq_some_iff`),
and what is left of the line decides the answer (`Resolves`, `classified`).

An expression begins with a digit (`Expression.exists_digit_of_parse_ok`), and no
word that means something does. So a line that is an expression is never taken for
anything else.
-/

namespace DiceEngine

/-! ## Trimmed expressions -/

namespace Expression

/-- The blanks behind a complete expression may be left out. -/
theorem Spells.trimEnd {s : List Char} {ts : List Term} {ops : List Operator}
    (h : Spells s ts ops) (hl : ts.length = ops.length + 1) :
    Spells (Text.trimEnd s) ts ops := by
  cases h with
  | blank => cases hl
  | @term s' cs b ts' _ t h' hl' ht hb =>
    have hlast : Text.trimEnd (s' ++ cs ++ b) = s' ++ cs := by
      rw [Text.trimEnd_append_blank hb]
      apply Text.trimEnd_of_last
      rw [List.getLast?_append_of_ne_nil _ ht.trimmed.ne_nil]
      exact ht.trimmed.last
    rw [hlast, ← List.append_nil (s' ++ cs)]
    exact .term h' hl' ht .nil
  | @operator s' b _ ops' op h' hl' hb =>
    rw [List.length_append, List.length_singleton] at hl
    omega

/-- An expression is read from its trimmed text. -/
theorem parse_trim {text : String} {e : Expression} (h : parse text = .ok e) :
    parse (String.ofList (Text.trim text.toList)) = .ok e := by
  obtain ⟨lead, hlead, hs⟩ := Text.exists_blank_append_trimStart text.toList
  have hstart : parse (String.ofList (Text.trimStart text.toList)) = .ok e := by
    rw [parse_eq_ok_iff_readOnto] at h ⊢
    rwa [hs, readOnto_append_blank hlead, ← String.toList_ofList (l := Text.trimStart _)] at h
  obtain ⟨⟨hspells, hw⟩, hc⟩ := parse_eq_ok_iff.mp hstart
  refine parse_eq_ok_iff.mpr ⟨⟨?_, hw⟩, hc⟩
  rw [String.toList_ofList] at hspells ⊢
  exact hspells.trimEnd (isComplete_iff.mp hc)

/-- The first character of an expression that is not blank is a digit. -/
theorem exists_digit_of_parse_ok {text : String} {e : Expression} (h : parse text = .ok e) :
    ∃ c u, Text.trimStart text.toList = c :: u ∧ c.isDigit = true := by
  rw [parse_eq_ok_iff_readOnto] at h
  cases hs : Text.trimStart text.toList with
  | nil =>
    rw [readOnto_of_blank (Text.trimStart_eq_nil_iff.mp hs)] at h
    cases h
  | cons c u =>
    refine ⟨c, u, rfl, ?_⟩
    by_contra hc
    have hrefused : empty.readToken (c :: u) = .error .expectedTerm :=
      readToken_expectedTerm_iff.mpr ⟨rfl, Bool.eq_false_iff.mpr hc⟩
    rw [readOnto_of_refused hs hrefused] at h
    cases h

end Expression

namespace Console

/-! ## Letters of either case -/

/-- The text is this word, in letters of any case. -/
def AnyCase (word : String) (s : List Char) : Prop :=
  List.Forall₂ (fun c l => c = l ∨ c = l.toUpper) s word.toList

instance (word : String) (s : List Char) : Decidable (AnyCase word s) :=
  inferInstanceAs (Decidable (List.Forall₂ _ _ _))

/-- The code points of small letters. -/
theorem isLower_iff {c : Char} :
    c.isLower = true ↔ 97 ≤ c.val.toNat ∧ c.val.toNat ≤ 122 := by
  show (decide (c.val ≥ 'a'.val) && decide (c.val ≤ 'z'.val)) = true ↔ _
  rw [Bool.and_eq_true, decide_eq_true_eq, decide_eq_true_eq]
  exact Iff.rfl

theorem toLower_eq_iff {c l : Char} (h : l.isLower = true) :
    c.toLower = l ↔ c = l ∨ c = l.toUpper := by
  obtain ⟨ha, hz⟩ := isLower_iff.mp h
  have hupper : l.toUpper.val.toNat = l.val.toNat - 32 := by
    have hl : 'a'.val ≤ l.val ∧ l.val ≤ 'z'.val := ⟨ha, hz⟩
    rw [show l.toUpper = ⟨l.val + ('A'.val - 'a'.val), _⟩ from dif_pos hl, UInt32.toNat_add,
      show ('A'.val - 'a'.val).toNat = 2 ^ 32 - 32 from rfl]
    omega
  simp only [Char.ext_iff, ← UInt32.toNat_inj, hupper]
  by_cases hc : c.val ≥ 'A'.val ∧ c.val ≤ 'Z'.val
  · have hA : 65 ≤ c.val.toNat := hc.1
    have hZ : c.val.toNat ≤ 90 := hc.2
    rw [show c.toLower = ⟨c.val + ('a'.val - 'A'.val), _⟩ from dif_pos hc, UInt32.toNat_add,
      show ('a'.val - 'A'.val).toNat = 32 from rfl]
    omega
  · have hnot : ¬ (65 ≤ c.val.toNat ∧ c.val.toNat ≤ 90) := hc
    rw [show c.toLower = c from dif_neg hc]
    omega

/-- The word has small letters, at least one, and nothing else. -/
def Small (word : String) : Prop := word ≠ "" ∧ word.toList.all Char.isLower = true

instance (word : String) : Decidable (Small word) := inferInstanceAs (Decidable (_ ∧ _))

theorem Command.lowercase_eq_iff {word : String} (hw : Small word) {s : List Char} :
    lowercase s = word ↔ AnyCase word s := by
  have hall : ∀ l ∈ word.toList, l.isLower = true := List.all_eq_true.mp hw.2
  rw [← String.toList_inj, lowercase, String.toList_ofList, ← List.forall₂_eq_eq_eq,
    List.forall₂_map_left_iff, AnyCase]
  generalize word.toList = ls at hall
  induction ls generalizing s with
  | nil => rw [List.forall₂_nil_right_iff, List.forall₂_nil_right_iff]
  | cons l ls ih =>
    obtain ⟨hl, hls⟩ := List.forall_mem_cons.mp hall
    simp only [List.forall₂_cons_right_iff, toLower_eq_iff hl, ih hls]

/-- Digits have no case, and are no letters. -/
theorem not_digit_of_toLower {c : Char} (h : c.toLower.isLower = true) : c.isDigit = false := by
  by_contra hdigit
  simp only [Char.isDigit, Bool.and_eq_true, decide_eq_true_eq, Bool.not_eq_false] at hdigit
  have h9 : c.val.toNat ≤ 57 := hdigit.2
  have hsame : c.toLower = c := dif_neg fun hupper => by
    have hA : 65 ≤ c.val.toNat := hupper.1
    omega
  rw [hsame, isLower_iff] at h
  omega

/-- A word of letters begins with no digit. -/
theorem AnyCase.exists_head {word : String} (hw : Small word) {s : List Char}
    (h : AnyCase word s) : ∃ c u, s = c :: u ∧ c.isDigit = false := by
  rw [← Command.lowercase_eq_iff hw] at h
  obtain ⟨hne, hall⟩ := hw
  rw [← h, Command.lowercase, String.toList_ofList] at hall
  cases s with
  | nil => exact absurd h.symm hne
  | cons c u =>
    rw [List.map_cons, List.all_cons, Bool.and_eq_true] at hall
    exact ⟨c, u, rfl, not_digit_of_toLower hall.1⟩

/-! ## Requests for help, and keywords -/

/-- The line is `help`, or `h` for short. -/
def AsksForHelp (line : List Char) : Prop := AnyCase "help" line ∨ AnyCase "h" line

instance (line : List Char) : Decidable (AsksForHelp line) := inferInstanceAs (Decidable (_ ∨ _))

/-- The words of a keyword: in full, and with one letter. -/
def Keyword.words : Keyword → List String
  | .roll .total => ["roll", "r"]
  | .roll .verbose => ["verbose", "v"]
  | .roll .full => ["full", "f"]
  | .stats => ["stats", "s"]

theorem Keyword.small_of_mem_words {k : Keyword} {word : String} (h : word ∈ k.words) :
    Small word := by
  have hall : k.words.all (fun word => decide (Small word)) = true := by
    rcases k with (_ | _ | _) | _ <;> decide
  exact of_decide_eq_true (List.all_eq_true.mp hall word h)

theorem Keyword.ofWord?_eq_some_iff {k : Keyword} {word : String} :
    ofWord? word = some k ↔ word ∈ k.words := by
  constructor
  · intro h
    unfold ofWord? at h
    split at h <;> cases h <;> simp [words]
  · intro h
    rcases k with (_ | _ | _) | _ <;>
    · rcases List.mem_pair.mp h with rfl | rfl <;> rfl

theorem Keyword.command_ne_help (k : Keyword) (e : Expression) : k.command e ≠ .help := by
  cases k with
  | roll mode => exact nofun
  | stats => exact nofun

theorem Keyword.names_iff {k : Keyword} {s : List Char} :
    ofWord? (Command.lowercase s) = some k ↔ ∃ word ∈ k.words, AnyCase word s := by
  rw [ofWord?_eq_some_iff]
  constructor
  · exact fun h => ⟨_, h, (Command.lowercase_eq_iff (small_of_mem_words h)).mp rfl⟩
  · intro hword
    obtain ⟨word, h, hcase⟩ := hword
    rwa [(Command.lowercase_eq_iff (small_of_mem_words h)).mpr hcase]

/-- The line is a word of the keyword in letters of any case, a gap that is not empty and as long
as can be, and the text. -/
def BeginsWith (line : List Char) (k : Keyword) (text : List Char) : Prop :=
  ∃ word gap, line = word ++ (gap ++ text) ∧ (∃ w ∈ k.words, AnyCase w word) ∧ gap ≠ [] ∧
    (∀ c ∈ gap, Command.isGap c = true) ∧ ∀ c ∈ text.head?, Command.isGap c = false

namespace Command

/-- The keywords that are found are those that a line begins with. -/
theorem keyword?_eq_some_iff {line text : List Char} {k : Keyword} :
    keyword? line = some (k, text) ↔ BeginsWith line k text := by
  constructor
  · intro h
    obtain ⟨word, g, r, rfl, hg, hword⟩ := exists_gap h
    have hnames : k.Names (String.ofList word) := by
      rwa [Keyword.Names, String.toList_ofList]
    have happ := keyword?_append hnames hg r
    rw [String.toList_ofList, h] at happ
    cases happ
    refine ⟨word, g :: r.takeWhile isGap, ?_, Keyword.names_iff.mp hword, List.cons_ne_nil _ _,
      ?_, ?_⟩
    · rw [List.cons_append, List.takeWhile_append_dropWhile]
    · exact List.forall_mem_cons.mpr ⟨hg, List.all_eq_true.mp List.all_takeWhile⟩
    · intro c hc
      have hstop := List.head?_dropWhile_not isGap r
      rw [Option.mem_def.mp hc] at hstop
      exact hstop
  · intro hbegins
    obtain ⟨word, gap, rfl, hword, hne, hgap, htext⟩ := hbegins
    obtain ⟨g, r, rfl⟩ := List.exists_cons_of_ne_nil hne
    obtain ⟨hg, hr⟩ := List.forall_mem_cons.mp hgap
    have hnames : k.Names (String.ofList word) := by
      rw [Keyword.Names, String.toList_ofList]
      exact Keyword.names_iff.mpr hword
    have hrest : (r ++ text).dropWhile isGap = text := by
      rw [List.dropWhile_append_of_pos hr]
      cases text with
      | nil => rfl
      | cons c u => rw [List.dropWhile_cons_of_neg (Bool.eq_false_iff.mp (htext c rfl))]
    have happ := keyword?_append hnames hg (r ++ text)
    rwa [hrest, String.toList_ofList] at happ

theorem asksForHelp_iff {line : List Char} :
    AsksForHelp line ↔ lowercase line = "help" ∨ lowercase line = "h" := by
  rw [AsksForHelp, lowercase_eq_iff (by decide), lowercase_eq_iff (by decide)]

/-- A line with a keyword has a gap, so it does not ask for help. -/
theorem not_asksForHelp_of_beginsWith {line text : List Char} {k : Keyword}
    (h : BeginsWith line k text) : ¬ AsksForHelp line := by
  obtain ⟨word, gap, rfl, -, hne, hgap, -⟩ := h
  obtain ⟨g, r, rfl⟩ := List.exists_cons_of_ne_nil hne
  rw [asksForHelp_iff, not_or]
  exact lowercase_ne_help (by simp) (hgap g List.mem_cons_self)

end Command

/-! ## The answer to a line -/

/-- What is answered with the expression of this name, or else of this text, or not at all. -/
structure Resolves (aliases : Aliases) (name text : List Char) (command : Expression → Command)
    (answer : Except Malformed Command) : Prop where
  named : ∀ e, aliases.find? (String.ofList name) = some e → answer = .ok (command e)
  read : aliases.find? (String.ofList name) = none →
    ∀ e, Expression.parse (String.ofList text) = .ok e → answer = .ok (command e)
  /-- The report is that of the text. -/
  refused : aliases.find? (String.ofList name) = none →
    ∀ m, Expression.parse (String.ofList text) = .error m → answer = .error m

theorem Command.resolves_expression (aliases : Aliases) (text : List Char)
    (command : Expression → Command) :
    Resolves aliases (Text.trim text) text command ((expression aliases text).map command) := by
  unfold expression
  constructor
  case named =>
    intro e h
    rw [h]
    rfl
  case read =>
    intro h e he
    rw [h, he]
    rfl
  case refused =>
    intro h m hm
    rw [h, hm]
    rfl

/-- What a line is taken for, and what is answered. -/
structure Classified (mode : Mode) (aliases : Aliases) (line : String) : Prop where
  help_iff : Command.parse mode aliases line = .ok .help ↔ AsksForHelp (Text.trim line.toList)
  /-- The name behind a keyword is the trimmed text, and the text that is read is the whole of
  it. -/
  keyword : ∀ k text, BeginsWith (Text.trim line.toList) k text →
    Resolves aliases (Text.trim text) text k.command (Command.parse mode aliases line)
  bare : ¬ AsksForHelp (Text.trim line.toList) →
    (∀ k text, ¬ BeginsWith (Text.trim line.toList) k text) →
    Resolves aliases (Text.trim line.toList) (Text.trim line.toList) (.roll mode)
      (Command.parse mode aliases line)
  /-- What can be read as an expression is rolled, if it is not the name of another one. -/
  accepted : aliases.find? (String.ofList (Text.trim line.toList)) = none →
    ∀ e, Expression.parse line = .ok e → Command.parse mode aliases line = .ok (.roll mode e)

namespace Command

variable {mode : Mode} {aliases : Aliases} {line : String}

theorem parse_of_asksForHelp (h : AsksForHelp (Text.trim line.toList)) :
    parse mode aliases line = .ok .help := by
  rw [asksForHelp_iff] at h
  rw [parse]
  exact if_pos (by simpa using h)

theorem parse_of_beginsWith {k : Keyword} {text : List Char}
    (h : BeginsWith (Text.trim line.toList) k text) :
    parse mode aliases line = (expression aliases text).map k.command := by
  have hhelp := not_asksForHelp_of_beginsWith h
  rw [asksForHelp_iff, not_or] at hhelp
  rw [parse]
  simp only [hhelp.1, hhelp.2, decide_false, Bool.or_self, Bool.false_eq_true, if_false,
    keyword?_eq_some_iff.mpr h]

theorem parse_of_bare (hhelp : ¬ AsksForHelp (Text.trim line.toList))
    (hkeyword : ∀ k text, ¬ BeginsWith (Text.trim line.toList) k text) :
    parse mode aliases line = (expression aliases (Text.trim line.toList)).map (.roll mode) := by
  have hnone : keyword? (Text.trim line.toList) = none := by
    refine Option.eq_none_iff_forall_ne_some.mpr fun found hfound => ?_
    exact hkeyword found.1 found.2 (keyword?_eq_some_iff.mp hfound)
  rw [asksForHelp_iff, not_or] at hhelp
  rw [parse]
  simp only [hhelp.1, hhelp.2, decide_false, Bool.or_self, Bool.false_eq_true, if_false, hnone]

/-- What is done with an expression is not to ask for help. -/
theorem map_command_ne_help {x : Except Malformed Expression} {command : Expression → Command}
    (h : ∀ e, command e ≠ .help) : x.map command ≠ .ok .help := by
  cases x with
  | error m => exact nofun
  | ok e => exact fun heq => h e (Except.ok.inj heq)

end Command

/-- A line that begins with a digit is a bare expression. -/
theorem bare_of_digit {c : Char} (hc : c.isDigit = true) (u : List Char) :
    ¬ AsksForHelp (c :: u) ∧ ∀ k text, ¬ BeginsWith (c :: u) k text := by
  have hword : ∀ {w : String} {s r : List Char}, Small w → AnyCase w s → c :: u ≠ s ++ r := by
    intro w s r hw h hline
    obtain ⟨c', u', rfl, hc'⟩ := h.exists_head hw
    cases hline
    exact Bool.false_ne_true (hc'.symm.trans hc)
  constructor
  · refine not_or.mpr ⟨fun h => ?_, fun h => ?_⟩ <;>
    · apply hword _ h (List.append_nil _).symm
      decide
  · intro k text h
    obtain ⟨word, gap, hline, ⟨w, hw, hcase⟩, -⟩ := h
    exact hword (Keyword.small_of_mem_words hw) hcase hline

/-- Lines are classified exactly, and no line that is an expression is taken for anything else. -/
theorem classified (mode : Mode) (aliases : Aliases) (line : String) :
    Classified mode aliases line := by
  have hbare : ¬ AsksForHelp (Text.trim line.toList) →
      (∀ k text, ¬ BeginsWith (Text.trim line.toList) k text) →
      Resolves aliases (Text.trim line.toList) (Text.trim line.toList) (.roll mode)
        (Command.parse mode aliases line) := by
    intro hhelp hkeyword
    have hresolves := Command.resolves_expression aliases (Text.trim line.toList) (.roll mode)
    rw [Text.trim_trim] at hresolves
    rwa [Command.parse_of_bare hhelp hkeyword]
  constructor
  case help_iff =>
    refine ⟨fun h => ?_, Command.parse_of_asksForHelp⟩
    by_contra hhelp
    by_cases hkeyword : ∀ k text, ¬ BeginsWith (Text.trim line.toList) k text
    · rw [Command.parse_of_bare hhelp hkeyword] at h
      exact Command.map_command_ne_help (Keyword.roll mode).command_ne_help h
    · push Not at hkeyword
      obtain ⟨k, text, hbegins⟩ := hkeyword
      rw [Command.parse_of_beginsWith hbegins] at h
      exact Command.map_command_ne_help k.command_ne_help h
  case keyword =>
    intro k text h
    rw [Command.parse_of_beginsWith h]
    exact Command.resolves_expression aliases text k.command
  case bare => exact hbare
  case accepted =>
    intro hfind e he
    have hparse := Expression.parse_trim he
    obtain ⟨c, u, hline, hc⟩ := Expression.exists_digit_of_parse_ok hparse
    rw [String.toList_ofList, Text.trimStart_trim] at hline
    have hclass := bare_of_digit hc u
    rw [← hline] at hclass
    exact (hbare hclass.1 hclass.2).read hfind e hparse

/-- A no-break space is a blank, but no gap. -/
example : Command.parse .verbose [] "FULL \t7 " =
      .ok (.roll .full (Expression.ofParts [.literal 7] [])) ∧
    Command.parse .verbose [] "full\u00a07" = .error ⟨0, .rejected .expectedTerm, .empty⟩ := by
  decide +kernel

end Console

end DiceEngine
