import DiceEngine.Proofs.Configured
import DiceEngine.Proofs.Modes

/-!
# Lines of a session do not interfere

All lines of a session draw from one source, and a line takes from it what its
roll takes: nothing if it rolls nothing (`run_answer_of_rollsNothing`), and the
same in each mode (`exists_answers_of_modes`). So a line is answered as if the
lines before it that roll nothing were not there, and as if the others were
rolled in other modes; and an alias may be put for its text
(`NonInterfering`, `sessions_do_not_interfere`).
-/

namespace DiceEngine.Console

/-! ## Single lines -/

/-- A line that is answered by the help text, by the bounds of an expression or by a notice. -/
def RollsNothing (c : Config) (line : String) : Prop :=
  ∀ mode e, Command.parse c.mode c.aliases line ≠ .ok (.roll mode e)

/-- The answer that a mode gives for the result of a roll. -/
structure Shows (r : Except Fault Int) (mode : Mode) (a : Except Fault String) : Prop where
  fault : ∀ f, r = .error f → a = .error f
  total : ∀ total, r = .ok total → ∃ text, a = .ok text ∧ ShowsTotal text total mode

/-- A total is no notice. -/
theorem Shows.ne_notice {r : Except Fault Int} {a : Except Fault String} (h : Shows r .total a) :
    a ≠ .ok "invalid expression" := by
  intro ha
  cases r with
  | error f =>
    rw [h.fault f rfl] at ha
    cases ha
  | ok total =>
    obtain ⟨text, hok, htext⟩ := h.total total rfl
    rw [hok] at ha
    cases ha
    have hmem : 'i' ∈ (toString total).toList := by
      rw [← show "invalid expression" = toString total from htext]
      decide
    rcases mem_toString hmem with hc | hc <;> exact absurd hc (by decide)

section Lines

variable {σ : Type} [WordSource σ] {c : Config}

/-- A line that rolls nothing is answered alike from every source, and leaves it as it is. -/
theorem run_answer_of_rollsNothing {line : String} (h : RollsNothing c line) :
    ∃ a, ∀ s : σ, (answer c line).run s = (a, s) := by
  cases hparse : Command.parse c.mode c.aliases line with
  | error m => exact ⟨.ok "invalid expression", fun s => by rw [answer, hparse]; rfl⟩
  | ok command =>
    cases command with
    | help => exact ⟨.ok helpText, fun s => by rw [answer, hparse]; rfl⟩
    | stats e => exact ⟨stats e, fun s => by rw [answer, hparse]; rfl⟩
    | roll mode e => exact absurd hparse (h mode e)

/-- Two lines that roll one expression, each in its mode, show the same result and leave the same
source. -/
theorem exists_answers_of_modes {line line' : String} {mode mode' : Mode} {e : Expression}
    (h : Command.parse c.mode c.aliases line = .ok (.roll mode e))
    (h' : Command.parse c.mode c.aliases line' = .ok (.roll mode' e)) (s : σ) :
    ∃ r a a' s', (answer c line).run s = (a, s') ∧ (answer c line').run s = (a', s') ∧
      Shows r mode a ∧ Shows r mode' a' := by
  obtain ⟨r, ws, s', hagree⟩ := e.exists_agreement s
  obtain ⟨a, hdraws, hfault, htotal⟩ := hagree.answer c line mode h
  obtain ⟨a', hdraws', hfault', htotal'⟩ := hagree.answer c line' mode' h'
  exact ⟨r, a, a', s', hdraws.run, hdraws'.run, ⟨hfault, htotal⟩, ⟨hfault', htotal'⟩⟩

theorem answer_congr {line line' : String} (h : Command.parse c.mode c.aliases line =
    Command.parse c.mode c.aliases line') : (answer c line : Draw σ String) = answer c line' := by
  rw [answer, answer, h]

/-- The first line is answered from the source, and the others from what it leaves. -/
theorem run_answers_cons (line : String) (lines : List String) (s : σ) :
    (answers c (line :: lines)).run s =
      (((answer c line).run s).1 :: ((answers c lines).run ((answer c line).run s).2).1,
        ((answers c lines).run ((answer c line).run s).2).2) := by
  rw [answers]
  generalize (answer c line : Draw σ String) = first
  rfl

end Lines

/-! ## Aliases -/

/-- The expressions that have names are what was read of some texts. -/
def Aliases.Read (a : Aliases) : Prop := ∀ r ∈ a, ∃ text, Expression.parse text = .ok r.2

theorem Aliases.Read.nil : Aliases.Read [] := List.forall_mem_nil _

theorem Aliases.Read.insert {a : Aliases} (h : a.Read) {text : String} {e : Expression}
    (he : Expression.parse text = .ok e) (name : String) : (a.insert name e).Read := by
  intro r hr
  rcases List.mem_append.mp hr with hr | hr
  · exact h r (List.mem_filter.mp hr).1
  · rw [List.mem_singleton.mp hr]
    exact ⟨text, he⟩

theorem Aliases.Read.of_find? {a : Aliases} (h : a.Read) {name : String} {e : Expression}
    (hfind : a.find? name = some e) : ∃ text, Expression.parse text = .ok e := by
  obtain ⟨before, after, rfl, -⟩ := List.lookup_eq_some_iff.mp hfind
  exact h (name, e) (List.mem_append_right before List.mem_cons_self)

/-- What every step of a fold keeps holds at its end, if there is one. -/
theorem foldlM_preserves {α β : Type} {P : β → Prop} {f : β → α → Option β}
    (hf : ∀ x b b', P b → f b x = some b' → P b') {xs : List α} : ∀ {b b' : β}, P b →
    xs.foldlM f b = some b' → P b' := by
  induction xs with
  | nil =>
    intro b b' hb h
    cases h
    exact hb
  | cons x xs ih =>
    intro b b' hb h
    rw [List.foldlM_cons] at h
    obtain ⟨b₁, hfirst, hrest⟩ := Option.bind_eq_some_iff.mp h
    exact ih (hf x b b₁ hb hfirst) hrest

namespace Config

theorem read_of_aliasesOf {v : Toml.Value} {a : Aliases} (h : aliasesOf v = some a) : a.Read := by
  obtain ⟨f, hf, haliases⟩ := exists_alias_step
  rw [haliases] at h
  obtain ⟨entries, -, h⟩ := Option.bind_eq_some_iff.mp h
  refine foldlM_preserves (P := Aliases.Read) ?_ .nil h
  intro r b b' hb hstep
  obtain ⟨e, ⟨s, -, he⟩, rfl⟩ := (hf b r b').mp hstep
  exact hb.insert he r.1

/-- A configuration that is loaded names nothing but expressions that were read. -/
theorem read_of_load (text : Option String) : (load text).aliases.Read := by
  rw [load]
  cases h : text.bind parse with
  | none => exact .nil
  | some c =>
    obtain ⟨text, -, h⟩ := Option.bind_eq_some_iff.mp h
    obtain ⟨d, -, h⟩ := Option.bind_eq_some_iff.mp h
    simp only [ofDocument, Option.bind_eq_bind, Option.bind_eq_some_iff] at h
    obtain ⟨_, -, _, -, _, -, aliases, -, _, -, _, -, named, hnamed, h⟩ := h
    cases h
    cases aliases with
    | none =>
      cases hnamed
      exact .nil
    | some v =>
      obtain ⟨a, ha, h⟩ := Option.map_eq_some_iff.mp hnamed
      cases h
      exact read_of_aliasesOf ha

end Config

/-! ## Sessions -/

/-- Lines that are the same, or roll the same expression, each in a mode of its own. -/
inductive SameRoll (c : Config) : String → String → Prop
  | same (line : String) : SameRoll c line line
  | modes {line line' : String} {mode mode' : Mode} {e : Expression}
      (h : Command.parse c.mode c.aliases line = .ok (.roll mode e))
      (h' : Command.parse c.mode c.aliases line' = .ok (.roll mode' e)) : SameRoll c line line'

/-- Lines that are the same, or have behind the same keyword an alias and the text of its
expression, which is no alias itself. -/
inductive Respelled (c : Config) : String → String → Prop
  | same (line : String) : Respelled c line line
  | spelled (b : Spacing) {k : Keyword} {word name : String} {e : Expression} (hword : k.Names word)
      (hname : Text.Trimmed name.toList) (hfind : c.aliases.find? name = some e)
      (htext : c.aliases.find? e.text = none) :
      Respelled c (b.line word name) (b.line word e.text)

/-- Two lines at the same place of two sessions, and their answers. -/
structure Counterparts (c : Config) (line line' : String) (a a' : Except Fault String) : Prop where
  same : line = line' → a = a'
  total : ∀ mode mode' e, Command.parse c.mode c.aliases line = .ok (.roll mode e) →
    Command.parse c.mode c.aliases line' = .ok (.roll mode' e) →
    ∃ r, Shows r mode a ∧ Shows r mode' a'

/-- What the answers of a session do not depend on. -/
structure NonInterfering (σ : Type) [WordSource σ] (c : Config) : Prop where
  /-- Without some lines that roll nothing, the other lines are answered as they are with them. -/
  idle : ∀ (session : List (Bool × String)) (s s' : σ) (as : List (Except Fault String)),
    (∀ r ∈ session, r.1 = false → RollsNothing c r.2) →
    (answers c (session.map Prod.snd)).run s = (as, s') →
    (answers c ((session.filter Prod.fst).map Prod.snd)).run s =
      (((session.zip as).filter fun r => r.1.1).map Prod.snd, s')
  /-- With some lines rolled in other modes, these show the same totals, and the other lines are
  answered as before. -/
  modes : ∀ (lines lines' : List String) (s : σ), List.Forall₂ (SameRoll c) lines lines' →
    ∃ as as' s', (answers c lines).run s = (as, s') ∧ (answers c lines').run s = (as', s') ∧
      ∀ (i : Nat) (line line' : String), lines[i]? = some line → lines'[i]? = some line' →
        ∃ a a', as[i]? = some a ∧ as'[i]? = some a' ∧ Counterparts c line line' a a'
  /-- A line that rolls behind a keyword rolls the same behind any other keyword that rolls. -/
  keyword : ∀ (line : String) (k : Keyword) (rest : List Char) (mode : Mode) (e : Expression),
    Command.keyword? (Text.trim line.toList) = some (k, rest) →
    Command.parse c.mode c.aliases line = .ok (.roll mode e) →
    ∃ (b : Spacing) (word body : String), line = b.line word body ∧ k.Names word ∧
      ∀ mode' word', (Keyword.roll mode').Names word' →
        Command.parse c.mode c.aliases (b.line word' body) = .ok (.roll mode' e)
  /-- With the texts of some aliases in place of them, every line is answered as before. -/
  aliases : ∀ (lines lines' : List String) (s : σ), List.Forall₂ (Respelled c) lines lines' →
    (answers c lines').run s = (answers c lines).run s

section Sessions

variable {σ : Type} [WordSource σ] {c : Config}

theorem run_answers_filter (session : List (Bool × String)) :
    ∀ {s s' : σ} {as : List (Except Fault String)},
    (∀ r ∈ session, r.1 = false → RollsNothing c r.2) →
    (answers c (session.map Prod.snd)).run s = (as, s') →
    (answers c ((session.filter Prod.fst).map Prod.snd)).run s =
      (((session.zip as).filter fun r => r.1.1).map Prod.snd, s') := by
  induction session with
  | nil =>
    intro s s' as _ h
    obtain ⟨rfl, rfl⟩ := Prod.mk.inj h
    rfl
  | cons r session ih =>
    intro s s' as hidle h
    obtain ⟨hr, hrest⟩ := List.forall_mem_cons.mp hidle
    obtain ⟨stays, line⟩ := r
    cases stays with
    | true =>
      rw [List.map_cons, run_answers_cons] at h
      obtain ⟨rfl, rfl⟩ := Prod.mk.inj h
      simp only [List.filter_cons, if_true, List.map_cons, List.zip_cons_cons]
      rw [run_answers_cons, ih hrest (Prod.eta _).symm]
    | false =>
      obtain ⟨a, ha⟩ := run_answer_of_rollsNothing (σ := σ) (hr rfl)
      rw [List.map_cons, run_answers_cons, ha] at h
      obtain ⟨rfl, rfl⟩ := Prod.mk.inj h
      simp only [List.filter_cons, Bool.false_eq_true, if_false, List.zip_cons_cons]
      exact ih hrest (Prod.eta _).symm

/-- Two lines that are answered from the same source. -/
theorem counterparts_of_run {line line' : String} {a a' : Except Fault String} {s s₁ s₁' : σ}
    (h : (answer c line).run s = (a, s₁)) (h' : (answer c line').run s = (a', s₁')) :
    Counterparts c line line' a a' where
  same heq := by
    rw [heq, h'] at h
    exact (Prod.mk.inj h).1.symm
  total mode mode' e hline hline' := by
    obtain ⟨r, b, b', t, hrun, hrun', hshows, hshows'⟩ := exists_answers_of_modes hline hline' s
    rw [h] at hrun
    rw [h'] at hrun'
    cases hrun
    cases hrun'
    exact ⟨r, hshows, hshows'⟩

theorem SameRoll.source_eq {line line' : String} (h : SameRoll c line line') (s : σ) :
    ((answer c line).run s).2 = ((answer c line').run s).2 := by
  cases h with
  | same => rfl
  | modes h h' =>
    obtain ⟨_, _, _, s', hrun, hrun', -⟩ := exists_answers_of_modes h h' s
    rw [hrun, hrun']

theorem run_answers_modes {lines lines' : List String}
    (h : List.Forall₂ (SameRoll c) lines lines') :
    ∀ s : σ, ((answers c lines).run s).2 = ((answers c lines').run s).2 ∧
      ∀ (i : Nat) (line line' : String), lines[i]? = some line → lines'[i]? = some line' →
        ∃ a a', ((answers c lines).run s).1[i]? = some a ∧
          ((answers c lines').run s).1[i]? = some a' ∧ Counterparts c line line' a a' := by
  induction h with
  | nil => exact fun s => ⟨rfl, fun _ _ _ h => nomatch h⟩
  | cons hfirst _ ih =>
    intro s
    rw [run_answers_cons, run_answers_cons, ← hfirst.source_eq s]
    refine ⟨(ih _).1, fun i line line' hline hline' => ?_⟩
    cases i with
    | zero =>
      cases hline
      cases hline'
      exact ⟨_, _, rfl, rfl, counterparts_of_run (Prod.eta _).symm (Prod.eta _).symm⟩
    | succ i => exact (ih _).2 i line line' hline hline'

/-- The text of an alias asks for what the alias asks for. -/
theorem Respelled.parse_eq (hc : c.aliases.Read) {line line' : String}
    (h : Respelled c line line') :
    Command.parse c.mode c.aliases line' = Command.parse c.mode c.aliases line := by
  cases h with
  | same => rfl
  | @spelled b k word name e hword hname hfind htext =>
    obtain ⟨text, hread⟩ := hc.of_find? hfind
    rw [b.parse_line_alias hword hname hfind, b.parse_line_text hword hread htext]

theorem run_answers_aliases (hc : c.aliases.Read) {lines lines' : List String}
    (h : List.Forall₂ (Respelled c) lines lines') :
    ∀ s : σ, (answers c lines').run s = (answers c lines).run s := by
  induction h with
  | nil => exact fun _ => rfl
  | cons hfirst _ ih =>
    intro s
    rw [run_answers_cons, run_answers_cons, answer_congr (hfirst.parse_eq hc), ih]

/-- The keyword of a line only chooses the mode in which its expression is rolled. -/
theorem exists_line_in_modes {line : String} {k : Keyword} {rest : List Char} {mode : Mode}
    {e : Expression} (hkeyword : Command.keyword? (Text.trim line.toList) = some (k, rest))
    (h : Command.parse c.mode c.aliases line = .ok (.roll mode e)) :
    ∃ (b : Spacing) (word body : String), line = b.line word body ∧ k.Names word ∧
      ∀ mode' word', (Keyword.roll mode').Names word' →
        Command.parse c.mode c.aliases (b.line word' body) = .ok (.roll mode' e) := by
  obtain ⟨b, word, body, rfl, hword, hbody⟩ := exists_spacing hkeyword
  refine ⟨b, word, body, rfl, hword, fun mode' word' hword' => ?_⟩
  rw [b.parse_line hword hbody] at h
  rw [b.parse_line hword' hbody]
  cases hexpression : Command.expression c.aliases (b.rest ++ body.toList) with
  | error m =>
    rw [hexpression] at h
    cases h
  | ok e' =>
    rw [hexpression] at h
    cases k with
    | stats => cases h
    | roll mode =>
      cases h
      rfl

theorem nonInterfering_of_read (hc : c.aliases.Read) : NonInterfering σ c where
  idle session _ _ _ hidle h := run_answers_filter session hidle h
  modes lines lines' s h := by
    obtain ⟨hsource, hanswers⟩ := run_answers_modes h s
    refine ⟨((answers c lines).run s).1, ((answers c lines').run s).1, ((answers c lines).run s).2,
      (Prod.eta _).symm, ?_, hanswers⟩
    rw [hsource, Prod.eta]
  keyword _ _ _ _ _ hkeyword h := exists_line_in_modes hkeyword h
  aliases _ _ s h := run_answers_aliases hc h s

/-- The lines of a session do not interfere: those that roll nothing may be left out, those that
roll may roll in other modes, and the texts of aliases may stand for the aliases. This is so wherever
the aliases were read of some texts, and thus under every configuration that is loaded. -/
theorem sessions_do_not_interfere (σ : Type) [WordSource σ] :
    (∀ c : Config, c.aliases.Read → NonInterfering σ c) ∧
      ∀ text : Option String, NonInterfering σ (Config.load text) :=
  ⟨fun _ hc => nonInterfering_of_read hc,
    fun text => nonInterfering_of_read (Config.read_of_load text)⟩

/-- An alias for eight dice. -/
theorem sessions_do_not_interfere_fireball :
    let e := Expression.ofParts [.dice ⟨8, 6, none, by decide, by decide, by decide, by decide,
      by decide⟩] []
    let c : Config := ⟨some 7, .total, [("fireball", e)]⟩
    Expression.parse "8d6" = .ok e ∧ c.aliases.Read ∧ NonInterfering ChaCha c ∧
      (answers c ["verbose\t8d6 ", "full fireball"]).run (ChaCha.ofSeed20 7) =
        (answers c ["verbose\tfireball ", "full fireball"]).run (ChaCha.ofSeed20 7) := by
  intro e c
  have h : Expression.parse "8d6" = .ok e := by decide +kernel
  have hread : c.aliases.Read := Aliases.Read.nil.insert h "fireball"
  have hall := (sessions_do_not_interfere ChaCha).1 c hread
  let b : Spacing := ⟨[], '\t', [], [' '], .nil, rfl, .nil, Expression.blank_space⟩
  have hname : Text.Trimmed "fireball".toList := by decide
  have hword : Keyword.Names (.roll .verbose) "verbose" := by decide +kernel
  have hspelled : Respelled c "verbose\tfireball " "verbose\t8d6 " := by
    have hspelled := Respelled.spelled (c := c) (e := e) b hword hname rfl (by decide +kernel)
    rwa [show b.line "verbose" "fireball" = "verbose\tfireball " by decide +kernel,
      show b.line "verbose" e.text = "verbose\t8d6 " by decide +kernel] at hspelled
  exact ⟨h, hread, hall, hall.aliases _ _ _ (.cons hspelled (.cons (.same _) .nil))⟩

/-- A name with a blank at its end is never looked up: behind a keyword it is no expression, where
the text of its expression is rolled. -/
theorem padded_alias_is_not_found :
    let e := Expression.ofParts [.dice ⟨8, 6, none, by decide, by decide, by decide, by decide,
      by decide⟩] []
    let c : Config := ⟨some 7, .total, [("fireball ", e)]⟩
    Expression.parse "8d6" = .ok e ∧ c.aliases.Read ∧ c.aliases.find? "fireball " = some e ∧
      e.text = "8d6" ∧ c.aliases.find? e.text = none ∧
      ((answers c ["roll " ++ "fireball "]).run (ChaCha.ofSeed20 7)).1 ≠
        ((answers c ["roll " ++ e.text]).run (ChaCha.ofSeed20 7)).1 := by
  intro e c
  have h : Expression.parse "8d6" = .ok e := by decide +kernel
  have hread : c.aliases.Read := Aliases.Read.nil.insert h "fireball "
  have htext : e.text = "8d6" := by decide +kernel
  refine ⟨h, hread, by decide +kernel, htext, by decide +kernel, ?_⟩
  have hline : Command.parse c.mode c.aliases ("roll " ++ e.text) = .ok (.roll .total e) := by
    decide +kernel
  obtain ⟨r, a, -, s', hrun, -, hshows, -⟩ :=
    exists_answers_of_modes hline hline (ChaCha.ofSeed20 7)
  have hnotice : Command.parse c.mode c.aliases ("roll " ++ "fireball ") =
      .error ⟨0, .rejected .expectedTerm, .empty⟩ := by decide +kernel
  rw [run_answers_cons, run_answers_cons, hrun, answer, hnotice]
  exact fun heq => hshows.ne_notice (List.cons.inj heq).1.symm

end Sessions

end DiceEngine.Console
