import DiceEngine.Proofs.Classified

/-!
# Names that lines reach

Which lines get an expression by its name. A name that is trimmed is reached by
itself, unless the line is taken for something else (`parse_of_named`), and
behind every keyword (`parse_keyword_name`). A name that is not trimmed is never
looked for, so it might as well not be there (`parse_erase_of_untrimmed`). This
is `names_reached`.

What is looked for after a name is taken away or given is told by
`Aliases.find?_erase` and `Aliases.find?_insert`.
-/

namespace DiceEngine

theorem Text.trimmed_of_trim_eq {s : List Char} (hne : s ≠ []) (h : trim s = s) : Trimmed s := by
  have hblank : ¬ Blank s := fun hb => hne (h.symm.trans (trim_eq_nil_iff.mpr hb))
  obtain ⟨-, -, -, -, -, htrimmed⟩ := exists_padding hblank
  rwa [h] at htrimmed

theorem Text.Trimmed.trim_eq {s : List Char} (h : Trimmed s) : trim s = s := by
  simpa using h.trim_padded .nil .nil

namespace Console

/-! ## Looking for a name -/

namespace Aliases

theorem find?_erase (a : Aliases) (name other : String) :
    (a.erase name).find? other = if other = name then none else a.find? other := by
  unfold erase find?
  induction a with
  | nil => simp
  | cons r a ih =>
    obtain ⟨key, e⟩ := r
    by_cases hother : other = key
    · subst hother
      by_cases hname : other = name
      · subst hname
        rw [List.filter_cons_of_neg (by simp), ih, if_pos rfl, if_pos rfl]
      · simp [hname]
    · rw [List.lookup_cons, beq_false_of_ne hother, List.filter_cons]
      split
      · rw [List.lookup_cons, beq_false_of_ne hother, ih]
      · exact ih

/-- A name that is given to another expression is looked for with the new one. -/
theorem find?_insert (a : Aliases) (name other : String) (e : Expression) :
    (a.insert name e).find? other = if other = name then some e else a.find? other := by
  have herase := find?_erase a name other
  unfold insert find? at *
  rw [List.lookup_append, herase]
  by_cases hother : other = name
  · simp [hother]
  · simp [hother, List.lookup_cons, beq_false_of_ne hother]

end Aliases

variable {mode : Mode} {aliases : Aliases} {name : String} {e : Expression}

/-! ## Lines that are a name -/

/-- The line begins with a word of a keyword, in letters of any case, and one character of a
gap. -/
def StartsWithKeyword (line : List Char) : Prop :=
  ∃ (k : Keyword) (word : List Char) (g : Char) (rest : List Char), line = word ++ g :: rest ∧
    (∃ w ∈ k.words, AnyCase w word) ∧ Command.isGap g = true

/-- The gap may be taken as long as it can be. -/
theorem startsWithKeyword_iff {line : List Char} :
    StartsWithKeyword line ↔ ∃ k text, BeginsWith line k text := by
  constructor
  · rintro ⟨k, word, g, rest, rfl, hword, hg⟩
    refine ⟨k, rest.dropWhile Command.isGap, word, g :: rest.takeWhile Command.isGap, ?_, hword,
      List.cons_ne_nil _ _, ?_, ?_⟩
    · rw [List.cons_append, List.takeWhile_append_dropWhile]
    · exact List.forall_mem_cons.mpr ⟨hg, List.all_eq_true.mp List.all_takeWhile⟩
    · intro c hc
      have hstop := List.head?_dropWhile_not Command.isGap rest
      rw [Option.mem_def.mp hc] at hstop
      exact hstop
  · rintro ⟨k, text, word, gap, rfl, hword, hne, hgap, -⟩
    obtain ⟨g, r, rfl⟩ := List.exists_cons_of_ne_nil hne
    exact ⟨k, word, g, r ++ text, rfl, hword, hgap g List.mem_cons_self⟩

theorem parse_of_named (hfind : aliases.find? name = some e)
    (htrim : Text.trim name.toList = name.toList) (hhelp : ¬ AsksForHelp name.toList)
    (hkeyword : ¬ StartsWithKeyword name.toList) :
    Command.parse mode aliases name = .ok (.roll mode e) := by
  have hbare : ∀ k text, ¬ BeginsWith name.toList k text :=
    fun k text h => hkeyword (startsWithKeyword_iff.mpr ⟨k, text, h⟩)
  rw [Command.parse_of_bare (by rwa [htrim]) (by rwa [htrim]),
    Command.expression_of_find? hfind (by rw [htrim, htrim])]
  rfl

/-! ## Names behind keywords -/

theorem beginsWith_name {k : Keyword} {word gap : String}
    (hword : ∃ w ∈ k.words, AnyCase w word.toList) (hgap : gap ≠ "")
    (hgaps : ∀ c ∈ gap.toList, Command.isGap c = true) (hname : Text.Trimmed name.toList) :
    BeginsWith (Text.trim (word ++ gap ++ name).toList) k name.toList := by
  have hnames : k.Names word := Keyword.names_iff.mpr hword
  have hline : (word ++ gap ++ name).toList = word.toList ++ (gap.toList ++ name.toList) := by
    rw [String.toList_append, String.toList_append, List.append_assoc]
  rw [hline, (hnames.trimmed.append hname).trim_eq]
  refine ⟨word.toList, gap.toList, rfl, hword, fun hnil => hgap (String.toList_eq_nil_iff.mp hnil),
    hgaps, fun c hc => not_isGap_of_not_blank (hname.head c hc)⟩

theorem parse_keyword_name (hfind : aliases.find? name = some e) {k : Keyword} {word gap : String}
    (hword : ∃ w ∈ k.words, AnyCase w word.toList) (hgap : gap ≠ "")
    (hgaps : ∀ c ∈ gap.toList, Command.isGap c = true) (hname : Text.Trimmed name.toList) :
    Command.parse mode aliases (word ++ gap ++ name) = .ok (k.command e) := by
  rw [Command.parse_of_beginsWith (beginsWith_name hword hgap hgaps hname),
    Command.expression_of_find? hfind hname.trim_eq]
  rfl

/-! ## Names that no line reaches -/

/-- Names are looked for trimmed. -/
theorem Command.expression_erase_of_untrimmed (h : Text.trim name.toList ≠ name.toList)
    (text : List Char) : expression (aliases.erase name) text = expression aliases text := by
  have hother : String.ofList (Text.trim text) ≠ name := by
    intro heq
    rw [← heq, String.toList_ofList, Text.trim_trim] at h
    exact h rfl
  rw [expression, Aliases.find?_erase, if_neg hother, expression]

theorem parse_erase_of_untrimmed (h : Text.trim name.toList ≠ name.toList) (line : String) :
    Command.parse mode (aliases.erase name) line = Command.parse mode aliases line := by
  simp only [Command.parse, Command.expression_erase_of_untrimmed h]

/-! ## All lines -/

/-- The lines that get an expression by its name. -/
structure Reached (mode : Mode) (aliases : Aliases) (name : String) (e : Expression) : Prop where
  /-- The name itself, also where it can be read as another expression. -/
  bare : Text.trim name.toList = name.toList → ¬ AsksForHelp name.toList →
    ¬ StartsWithKeyword name.toList → Command.parse mode aliases name = .ok (.roll mode e)
  /-- The name behind a keyword and a gap, also where the name alone is taken for something
  else. -/
  keyword : name ≠ "" → Text.trim name.toList = name.toList →
    ∀ (k : Keyword) (word gap : String), (∃ w ∈ k.words, AnyCase w word.toList) → gap ≠ "" →
      (∀ c ∈ gap.toList, Command.isGap c = true) →
      Command.parse mode aliases (word ++ gap ++ name) = .ok (k.command e)
  /-- Without the name every line asks for the same. -/
  unreached : Text.trim name.toList ≠ name.toList →
    ∀ line, Command.parse mode (aliases.erase name) line = Command.parse mode aliases line

/-- A trimmed name is reached by itself and behind every keyword, and any other name by no line. -/
theorem names_reached (mode : Mode) {aliases : Aliases} {name : String} {e : Expression}
    (h : aliases.find? name = some e) : Reached mode aliases name e where
  bare htrim hhelp hkeyword := parse_of_named h htrim hhelp hkeyword
  keyword hne htrim k word gap hword hgap hgaps := by
    refine parse_keyword_name h hword hgap hgaps (Text.trimmed_of_trim_eq ?_ htrim)
    exact fun hnil => hne (String.toList_eq_nil_iff.mp hnil)
  unreached htrim line := parse_erase_of_untrimmed htrim line

/-- Names that are an expression, a request for help, and no trimmed text. -/
theorem names_reached_shadowing :
    Aliases.find? [("2d6", .ofParts [.literal 7] [])] "2d6" = some (.ofParts [.literal 7] []) ∧
    Command.parse .verbose [("2d6", .ofParts [.literal 7] [])] "2d6" =
      .ok (.roll .verbose (.ofParts [.literal 7] [])) ∧
    Command.parse .full [("help", .ofParts [.literal 7] [])] ("STATS" ++ " \t" ++ "help") =
      .ok (.stats (.ofParts [.literal 7] [])) ∧
    ∀ line, Command.parse .total [] line =
      Command.parse .total [(" pad", .ofParts [.literal 7] [])] line := by
  have hdice : Aliases.find? [("2d6", .ofParts [.literal 7] [])] "2d6" = some _ := rfl
  have hhelp : Aliases.find? [("help", .ofParts [.literal 7] [])] "help" = some _ := rfl
  have hpad : Aliases.find? [(" pad", .ofParts [.literal 7] [])] " pad" = some _ := rfl
  refine ⟨hdice, ?_, ?_, ?_⟩
  · refine (names_reached .verbose hdice).bare (by decide) (by decide) fun hkeyword => ?_
    obtain ⟨k, text, hbegins⟩ := startsWithKeyword_iff.mp hkeyword
    exact (bare_of_digit (c := '2') rfl ['d', '6']).2 k text hbegins
  · exact (names_reached .full hhelp).keyword (by decide) (by decide) .stats "STATS" " \t"
      ⟨"stats", by decide, by decide⟩ (by decide) (by simp [Command.isGap])
  · exact (names_reached .total hpad).unreached (by decide)

end Console

end DiceEngine
