import DiceEngine.Proofs.Documents
import DiceEngine.Proofs.Named

/-!
# Configurations are read whole or not at all

A text is a configuration exactly where it is a document whose seed, mode and
aliases can each be read (`Acceptable`), and then the configuration is what they
tell (`Describes`): every alias is what its last value spells. A text with any
fault configures nothing (`all_or_nothing`).

The aliases are read one after another: each one gives its name to what it
spells (`named_insert`), so the last one of each name counts (`named_foldlM`).
-/

namespace DiceEngine

namespace Toml

/-- The values of a key, in the order of the document. -/
def valuesOf (key : String) (entries : Entries) : List Value :=
  (entries.filter fun r => r.1 == key).map Prod.snd

theorem mem_of_mem_valuesOf {key : String} {entries : Entries} {v : Value}
    (h : v ∈ valuesOf key entries) : (key, v) ∈ entries := by
  obtain ⟨⟨k, v'⟩, hr, rfl⟩ := List.mem_map.mp h
  obtain ⟨hmem, hkey⟩ := List.mem_filter.mp hr
  rwa [← show k = key by simpa using hkey]

theorem valuesOf_concat (key : String) (entries : Entries) (r : String × Value) :
    valuesOf key (entries ++ [r]) =
      if key = r.1 then valuesOf key entries ++ [r.2] else valuesOf key entries := by
  rw [valuesOf, List.filter_append, List.map_append]
  by_cases hkey : key = r.1
  · rw [if_pos hkey, List.filter_cons_of_pos (by simp [hkey])]
    rfl
  · rw [if_neg hkey, List.filter_cons_of_neg (by simpa using Ne.symm hkey), List.filter_nil,
      List.map_nil, List.append_nil]
    rfl

/-- The entries of the document that a text is. -/
def entriesOf (text : String) : Option Entries := (Document.parse text).bind Document.entries

/-- What a value holds as a table. A date holds one entry, its text, which the document does not
show. -/
inductive Holds : Value → Entries → Prop
  | table (spelling : Spelling) (entries : Entries) : Holds (.table spelling entries) entries
  | date (text : String) : Holds (.date text) [(Value.dateKey, .string text)]

theorem holds_iff {v : Value} {entries : Entries} :
    Holds v entries ↔ v.entries? = some entries := by
  constructor
  · intro h
    cases h <;> rfl
  · intro h
    cases v with
    | table spelling es => exact Option.some.inj h ▸ .table spelling es
    | date text => exact Option.some.inj h ▸ .date text
    | _ => cases h

end Toml

namespace Console

open Toml (Value Entries Document valuesOf entriesOf Holds)

/-! ## Single keys -/

/-- There is at most one value, and what it tells, where it is there. -/
inductive Once {β : Type} (R : Value → β → Prop) : List Value → Option β → Prop
  | missing : Once R [] none
  | present {v : Value} {b : β} (h : R v b) : Once R [v] (some b)

theorem Once.congr {β : Type} {R R' : Value → β → Prop} {vs : List Value} {b : Option β}
    (h : ∀ v ∈ vs, ∀ b, R v b ↔ R' v b) : Once R vs b ↔ Once R' vs b := by
  constructor
  · intro honce
    cases honce with
    | missing => exact .missing
    | present hv => exact .present ((h _ List.mem_cons_self _).mp hv)
  · intro honce
    cases honce with
    | missing => exact .missing
    | present hv => exact .present ((h _ List.mem_cons_self _).mpr hv)

/-- A key that may stand in a document once is read by what its value is read as. -/
theorem once_iff {β : Type} {f : Value → Option β} {key : String} {entries : Entries}
    {b : Option β} : Once (fun v b => f v = some b) (valuesOf key entries) b ↔
      ∃ v, Config.single? key entries = some v ∧ v.mapM f = some b := by
  unfold valuesOf Config.single?
  generalize entries.filter (fun r => r.1 == key) = found
  constructor
  · intro h
    rcases found with _ | ⟨⟨k, v⟩, _ | ⟨r, found⟩⟩
    · cases h
      exact ⟨none, rfl, rfl⟩
    · cases h with
      | present hv => exact ⟨some v, rfl, Option.map_eq_some_iff.mpr ⟨_, hv, rfl⟩⟩
    · cases h
  · rintro ⟨v, hsingle, hread⟩
    rcases found with _ | ⟨⟨k, v'⟩, _ | ⟨r, found⟩⟩
    · cases hsingle
      cases hread
      exact .missing
    · cases hsingle
      obtain ⟨b, hv, rfl⟩ := Option.map_eq_some_iff.mp hread
      exact .present hv
    · cases hsingle

/-! ## What values tell -/

/-- A seed is a number of 63 bits. -/
def TellsSeed (v : Value) (seed : UInt64) : Prop :=
  ∃ n : Nat, n < 0x8000000000000000 ∧ v = .integer n ∧ seed = n.toUInt64

/-- A mode is its name. -/
def TellsMode (v : Value) (mode : Mode) : Prop := v = .string mode.name

/-- An expression is its text. -/
def TellsExpression (v : Value) (e : Expression) : Prop :=
  ∃ s, v = .string s ∧ Expression.parse s = .ok e

/-- Each name is that of the expression which the last of its values tells. -/
def Named (names : Entries) (a : Aliases) : Prop :=
  ∀ name, Option.Rel TellsExpression (valuesOf name names).getLast? (a.find? name)

/-- A document from which a configuration is read. -/
structure Acceptable (entries : Entries) : Prop where
  seed : ∃ seed, Once TellsSeed (valuesOf "seed" entries) seed
  mode : ∃ mode, Once TellsMode (valuesOf "mode" entries) mode
  /-- Also a value that another one of the same name goes before is the text of an expression. -/
  aliases : ∃ names, Once Holds (valuesOf "aliases" entries) names ∧
    ∀ r ∈ names.getD [], ∃ e, TellsExpression r.2 e

/-- What a document tells of a configuration. -/
structure Describes (entries : Entries) (c : Config) : Prop where
  seed : Once TellsSeed (valuesOf "seed" entries) c.seed
  mode : ∃ mode, Once TellsMode (valuesOf "mode" entries) mode ∧ c.mode = mode.getD .total
  aliases : ∃ names, Once Holds (valuesOf "aliases" entries) names ∧
    Named (names.getD []) c.aliases
  /-- What has a name can be rolled, and is read again of its canonical text. -/
  stored : ∀ name e, c.aliases.find? name = some e →
    e.isComplete = true ∧ e.diceCount ≤ 100 ∧ Expression.parse e.text = .ok e

theorem Mode.ofName?_eq_some_iff {s : String} {m : Mode} : ofName? s = some m ↔ s = m.name := by
  constructor
  · intro h
    have hname := List.find?_some h
    exact (beq_iff_eq.mp hname).symm
  · intro h
    subst h
    cases m <;> rfl

theorem seedOf_eq_some_iff {v : Value} (h : v.Sized) {seed : UInt64} :
    Config.seedOf v = some seed ↔ TellsSeed v seed := by
  constructor
  · intro hseed
    cases v with
    | integer n =>
      have hn : n ≤ 0x7fffffffffffffff := (h n rfl).2
      simp only [Config.seedOf, Option.ite_none_right_eq_some, Option.some.injEq] at hseed
      obtain ⟨hnonneg, rfl⟩ := hseed
      exact ⟨n.toNat, by omega, by rw [Int.toNat_of_nonneg hnonneg], rfl⟩
    | _ => cases hseed
  · intro htells
    obtain ⟨n, -, rfl, rfl⟩ := htells
    rw [Config.seedOf, if_pos (Int.natCast_nonneg n), Int.toNat_natCast]

theorem modeOf_eq_some_iff {d : Document} {v : Value} (h : ∃ s, v = .string s) {m : Mode} :
    Config.modeOf d v = some m ↔ TellsMode v m := by
  obtain ⟨s, rfl⟩ := h
  rw [Config.modeOf, Mode.ofName?_eq_some_iff, TellsMode, Value.string.injEq]

/-! ## Aliases -/

theorem Named.nil : Named [] [] := fun _ => .none

/-- One more value gives its name to what it tells. -/
theorem named_insert {names : Entries} {a : Aliases} (h : Named names a) {r : String × Value}
    {e : Expression} (he : TellsExpression r.2 e) : Named (names ++ [r]) (a.insert r.1 e) := by
  intro name
  rw [Toml.valuesOf_concat, Aliases.find?_insert]
  by_cases hname : name = r.1
  · rw [if_pos hname, if_pos hname, List.getLast?_concat]
    exact .some he
  · rw [if_neg hname, if_neg hname]
    exact h name

section Fold

variable {f : Aliases → String × Value → Option Aliases}
  (hf : ∀ a r b, f a r = some b ↔ ∃ e, TellsExpression r.2 e ∧ b = a.insert r.1 e)

include hf

theorem named_foldlM {names : Entries} : ∀ {done : Entries} {a b : Aliases}, Named done a →
    names.foldlM f a = some b → Named (done ++ names) b := by
  induction names with
  | nil =>
    intro done a b ha h
    cases h
    rwa [List.append_nil]
  | cons r names ih =>
    intro done a b ha h
    rw [List.foldlM_cons] at h
    obtain ⟨a₁, hstep, hrest⟩ := Option.bind_eq_some_iff.mp h
    obtain ⟨e, he, rfl⟩ := (hf a r a₁).mp hstep
    rw [List.append_cons]
    exact ih (named_insert ha he) hrest

theorem exists_foldlM_iff {names : Entries} : ∀ {a : Aliases},
    (∃ b, names.foldlM f a = some b) ↔ ∀ r ∈ names, ∃ e, TellsExpression r.2 e := by
  induction names with
  | nil => exact fun {a} => ⟨fun _ => List.forall_mem_nil _, fun _ => ⟨a, rfl⟩⟩
  | cons r names ih =>
    intro a
    rw [List.forall_mem_cons, List.foldlM_cons]
    constructor
    · rintro ⟨b, h⟩
      obtain ⟨a₁, hstep, hrest⟩ := Option.bind_eq_some_iff.mp h
      obtain ⟨e, he, -⟩ := (hf a r a₁).mp hstep
      exact ⟨⟨e, he⟩, ih.mp ⟨b, hrest⟩⟩
    · rintro ⟨⟨e, he⟩, hnames⟩
      obtain ⟨b, hrest⟩ := ih.mpr hnames
      exact ⟨b, Option.bind_eq_some_iff.mpr ⟨_, (hf a r _).mpr ⟨e, he, rfl⟩, hrest⟩⟩

end Fold

theorem toOption_eq_some_iff {ε α : Type} {x : Except ε α} {a : α} :
    x.toOption = some a ↔ x = .ok a := by
  cases x <;> simp [Except.toOption]

/-- Aliases are read by such steps. -/
theorem exists_alias_step : ∃ f : Aliases → String × Value → Option Aliases,
    (∀ a r b, f a r = some b ↔ ∃ e, TellsExpression r.2 e ∧ b = a.insert r.1 e) ∧
    ∀ v, Config.aliasesOf v = v.entries?.bind fun names => names.foldlM f [] := by
  refine ⟨_, ?_, fun v => rfl⟩
  rintro a ⟨name, v⟩ b
  cases v with
  | string s =>
    constructor
    · intro h
      obtain ⟨e, he, rfl⟩ := Option.map_eq_some_iff.mp h
      exact ⟨e, ⟨s, rfl, toOption_eq_some_iff.mp he⟩, rfl⟩
    · rintro ⟨e, ⟨s', hs, he⟩, rfl⟩
      cases hs
      exact Option.map_eq_some_iff.mpr ⟨e, toOption_eq_some_iff.mpr he, rfl⟩
  | _ => exact ⟨nofun, fun h => nomatch h⟩

theorem exists_aliasesOf_iff {vs : List Value} :
    (∃ a, Once (fun v a => Config.aliasesOf v = some a) vs a) ↔
      ∃ names, Once Holds vs names ∧ ∀ r ∈ names.getD [], ∃ e, TellsExpression r.2 e := by
  obtain ⟨f, hf, haliases⟩ := exists_alias_step
  constructor
  · intro h
    obtain ⟨a, ha⟩ := h
    cases ha with
    | missing => exact ⟨none, .missing, List.forall_mem_nil _⟩
    | present hv =>
      rw [haliases] at hv
      obtain ⟨names, hnames, hfold⟩ := Option.bind_eq_some_iff.mp hv
      exact ⟨some names, .present (Toml.holds_iff.mpr hnames), (exists_foldlM_iff hf).mp ⟨_, hfold⟩⟩
  · intro h
    obtain ⟨names, hnames, htells⟩ := h
    cases hnames with
    | missing => exact ⟨none, .missing⟩
    | present hv =>
      obtain ⟨a, hfold⟩ := (exists_foldlM_iff hf (a := [])).mpr htells
      refine ⟨some a, .present ?_⟩
      rw [haliases, Toml.holds_iff.mp hv]
      exact hfold

theorem named_of_aliasesOf {vs : List Value} {a : Option Aliases}
    (h : Once (fun v a => Config.aliasesOf v = some a) vs a) :
    ∃ names, Once Holds vs names ∧ Named (names.getD []) (a.getD []) := by
  obtain ⟨f, hf, haliases⟩ := exists_alias_step
  cases h with
  | missing => exact ⟨none, .missing, .nil⟩
  | present hv =>
    rw [haliases] at hv
    obtain ⟨names, hnames, hfold⟩ := Option.bind_eq_some_iff.mp hv
    exact ⟨some names, .present (Toml.holds_iff.mpr hnames), named_foldlM hf .nil hfold⟩

/-- What a text spells can be rolled, and is read again of its canonical text. -/
theorem Named.stored {names : Entries} {a : Aliases} (h : Named names a) {name : String}
    {e : Expression} (hfind : a.find? name = some e) :
    e.isComplete = true ∧ e.diceCount ≤ 100 ∧ Expression.parse e.text = .ok e := by
  have hrel := h name
  rw [hfind] at hrel
  generalize (valuesOf name names).getLast? = last at hrel
  cases hrel with
  | some htells =>
    obtain ⟨s, -, hs⟩ := htells
    obtain ⟨⟨-, hw⟩, hc⟩ := Expression.parse_eq_ok_iff.mp hs
    exact ⟨hc, hw.capped, Expression.parse_text hs⟩

/-! ## Documents -/

section Documents

variable {d : Document} {entries : Entries} {c : Config}

/-- The configuration of a document, part by part. -/
theorem ofDocument_eq_some_iff (hd : d.entries = some entries)
    (hsized : entries.Sized) (hmode : ∀ v ∈ valuesOf "mode" entries, ∃ s, v = .string s) :
    Config.ofDocument d = some c ↔ ∃ seed mode aliases,
      Once TellsSeed (valuesOf "seed" entries) seed ∧
      Once TellsMode (valuesOf "mode" entries) mode ∧
      Once (fun v a => Config.aliasesOf v = some a) (valuesOf "aliases" entries) aliases ∧
      c = ⟨seed, mode.getD .total, aliases.getD []⟩ := by
  have hseed : ∀ v ∈ valuesOf "seed" entries, ∀ n, Config.seedOf v = some n ↔ TellsSeed v n :=
    fun v hv n => seedOf_eq_some_iff (hsized _ (Toml.mem_of_mem_valuesOf hv))
  have hmodes : ∀ v ∈ valuesOf "mode" entries, ∀ m, Config.modeOf d v = some m ↔ TellsMode v m :=
    fun v hv m => modeOf_eq_some_iff (hmode v hv)
  simp only [← Once.congr hseed, ← Once.congr hmodes, once_iff, Config.ofDocument, hd,
    Option.bind_eq_bind, Option.bind_eq_some_iff]
  constructor
  · rintro ⟨_, hes, sv, hsv, mv, hmv, av, hav, seed, hseed, mode, hmode, aliases, haliases, heq⟩
    cases hes
    cases heq
    exact ⟨seed, mode, aliases, ⟨sv, hsv, hseed⟩, ⟨mv, hmv, hmode⟩, ⟨av, hav, haliases⟩, rfl⟩
  · rintro ⟨seed, mode, aliases, ⟨sv, hsv, hseed⟩, ⟨mv, hmv, hmode⟩, ⟨av, hav, haliases⟩, rfl⟩
    exact ⟨entries, rfl, sv, hsv, mv, hmv, av, hav, seed, hseed, mode, hmode, aliases, haliases,
      rfl⟩

theorem exists_ofDocument_iff (hd : d.entries = some entries) (hsized : entries.Sized)
    (hmode : ∀ v ∈ valuesOf "mode" entries, ∃ s, v = .string s) :
    (∃ c, Config.ofDocument d = some c) ↔ Acceptable entries := by
  simp only [ofDocument_eq_some_iff hd hsized hmode]
  constructor
  · rintro ⟨_, seed, mode, aliases, hseed, hmode, haliases, -⟩
    exact ⟨⟨seed, hseed⟩, ⟨mode, hmode⟩, exists_aliasesOf_iff.mp ⟨aliases, haliases⟩⟩
  · rintro ⟨⟨seed, hseed⟩, ⟨mode, hmode⟩, haliases⟩
    obtain ⟨aliases, ha⟩ := exists_aliasesOf_iff.mpr haliases
    exact ⟨_, seed, mode, aliases, hseed, hmode, ha, rfl⟩

theorem describes_of_ofDocument (hd : d.entries = some entries) (hsized : entries.Sized)
    (hmode : ∀ v ∈ valuesOf "mode" entries, ∃ s, v = .string s)
    (h : Config.ofDocument d = some c) : Describes entries c := by
  obtain ⟨seed, mode, aliases, hseed, hmode, haliases, rfl⟩ :=
    (ofDocument_eq_some_iff hd hsized hmode).mp h
  obtain ⟨names, hnames, hnamed⟩ := named_of_aliasesOf haliases
  exact ⟨hseed, ⟨mode, hmode, rfl⟩, ⟨names, hnames, hnamed⟩, fun _ _ => hnamed.stored⟩

/-- Keys of other names do not count. -/
theorem ofDocument_congr {d' : Document} {entries' : Entries} (hd : d.entries = some entries)
    (hd' : d'.entries = some entries') (hsized : entries.Sized) (hsized' : entries'.Sized)
    (hmode : ∀ v ∈ valuesOf "mode" entries, ∃ s, v = .string s)
    (h : ∀ key ∈ ["seed", "mode", "aliases"], valuesOf key entries' = valuesOf key entries) :
    Config.ofDocument d' = Config.ofDocument d := by
  have hmodes := h "mode" (by decide)
  refine Option.ext fun c => ?_
  rw [ofDocument_eq_some_iff hd hsized hmode, ofDocument_eq_some_iff hd' hsized' (hmodes ▸ hmode),
    h "seed" (by decide), hmodes, h "aliases" (by decide)]

end Documents

/-! ## Texts -/

/-- What becomes of a text that is to configure the console. -/
structure AllOrNothing (text : String) : Prop where
  accepted_iff : (∃ c, Config.parse text = some c) ↔
    ∃ entries, entriesOf text = some entries ∧ Acceptable entries
  describes : ∀ c, Config.parse text = some c →
    ∃ entries, entriesOf text = some entries ∧ Describes entries c
  /-- Two documents that differ in keys of other names alone are read alike. -/
  unknown : ∀ text' entries entries', entriesOf text = some entries →
    entriesOf text' = some entries' →
    (∀ key ∈ ["seed", "mode", "aliases"], valuesOf key entries' = valuesOf key entries) →
    Config.parse text' = Config.parse text
  loaded : ∀ c, Config.parse text = some c → Config.load (some text) = c
  refused : (∀ entries, entriesOf text = some entries → ¬ Acceptable entries) →
    Config.load (some text) = ⟨none, .total, []⟩

theorem entriesOf_eq_some_iff {text : String} {entries : Entries} : entriesOf text = some entries ↔
    ∃ d, Document.parse text = some d ∧ d.entries = some entries := Option.bind_eq_some_iff

theorem parse_eq_ofDocument {text : String} {d : Document} (h : Document.parse text = some d) :
    Config.parse text = Config.ofDocument d := by
  rw [Config.parse, h]
  rfl

/-- A text from which a configuration is read is a document. -/
theorem exists_entriesOf {text : String} {c : Config} (h : Config.parse text = some c) :
    ∃ entries, entriesOf text = some entries := by
  obtain ⟨d, hd, hc⟩ := Option.bind_eq_some_iff.mp h
  obtain ⟨entries, hentries, -⟩ := Option.bind_eq_some_iff.mp hc
  exact ⟨entries, entriesOf_eq_some_iff.mpr ⟨d, hd, hentries⟩⟩

theorem exists_document {text : String} {entries : Entries} (h : entriesOf text = some entries) :
    ∃ d : Document, d.entries = some entries ∧ entries.Sized ∧
      Config.parse text = Config.ofDocument d := by
  obtain ⟨d, hd, hentries⟩ := entriesOf_eq_some_iff.mp h
  exact ⟨d, hentries, Document.sized_of_entries hd hentries, parse_eq_ofDocument hd⟩

theorem exists_parse_iff {text : String} {entries : Entries} (h : entriesOf text = some entries)
    (hmode : ∀ v ∈ valuesOf "mode" entries, ∃ s, v = .string s) :
    (∃ c, Config.parse text = some c) ↔ Acceptable entries := by
  obtain ⟨d, hd, hsized, hparse⟩ := exists_document h
  rw [hparse]
  exact exists_ofDocument_iff hd hsized hmode

/-- A text is read as a configuration whole or not at all, where its mode, if there is one, is a
string. -/
theorem all_or_nothing {text : String} (hmode : ∀ entries, entriesOf text = some entries →
    ∀ v ∈ valuesOf "mode" entries, ∃ s, v = .string s) : AllOrNothing text := by
  have haccepted : (∃ c, Config.parse text = some c) ↔
      ∃ entries, entriesOf text = some entries ∧ Acceptable entries := by
    constructor
    · intro h
      obtain ⟨c, hc⟩ := h
      obtain ⟨entries, htext⟩ := exists_entriesOf hc
      exact ⟨entries, htext, (exists_parse_iff htext (hmode _ htext)).mp ⟨c, hc⟩⟩
    · intro h
      obtain ⟨entries, htext, hacceptable⟩ := h
      exact (exists_parse_iff htext (hmode _ htext)).mpr hacceptable
  constructor
  case accepted_iff => exact haccepted
  case describes =>
    intro c hc
    obtain ⟨entries, htext⟩ := exists_entriesOf hc
    obtain ⟨d, hd, hsized, hparse⟩ := exists_document htext
    rw [hparse] at hc
    exact ⟨entries, htext, describes_of_ofDocument hd hsized (hmode _ htext) hc⟩
  case unknown =>
    intro text' entries entries' htext htext' hsame
    obtain ⟨d, hd, hsized, hparse⟩ := exists_document htext
    obtain ⟨d', hd', hsized', hparse'⟩ := exists_document htext'
    rw [hparse, hparse']
    exact ofDocument_congr hd hd' hsized hsized' (hmode _ htext) hsame
  case loaded =>
    intro c hc
    rw [Config.load, Option.bind_some, hc]
    rfl
  case refused =>
    intro hnot
    have hnone : Config.parse text = none := by
      refine Option.eq_none_iff_forall_ne_some.mpr fun c hc => ?_
      obtain ⟨entries, htext, hacceptable⟩ := haccepted.mp ⟨c, hc⟩
      exact hnot entries htext hacceptable
    rw [Config.load, Option.bind_some, hnone]
    rfl

/-- A value that is no expression refuses the file, though a good one of the same name follows. -/
theorem all_or_nothing_overridden :
    entriesOf "seed = 3\nmode = 'full'\n[aliases]\na = '2d6 +'\na = '1'" =
      some [("seed", .integer 3), ("mode", .string "full"),
        ("aliases", .table .sections [("a", .string "2d6 +"), ("a", .string "1")])] ∧
    Config.load (some "seed = 3\nmode = 'full'\n[aliases]\na = '2d6 +'\na = '1'") =
      ⟨none, .total, []⟩ := by
  have hscan : Toml.Token.scan "seed = 3\nmode = 'full'\n[aliases]\na = '2d6 +'\na = '1'" =
      some [.bare ['s', 'e', 'e', 'd'], .blanks [' '], .equals, .blanks [' '], .bare ['3'],
        .newline, .bare ['m', 'o', 'd', 'e'], .blanks [' '], .equals, .blanks [' '],
        .quoted ['f', 'u', 'l', 'l'] false, .newline, .leftBracket,
        .bare ['a', 'l', 'i', 'a', 's', 'e', 's'], .rightBracket, .newline, .bare ['a'],
        .blanks [' '], .equals, .blanks [' '], .quoted ['2', 'd', '6', ' ', '+'] false, .newline,
        .bare ['a'], .blanks [' '], .equals, .blanks [' '], .quoted ['1'] false] := by
    decide +kernel
  have hentries : entriesOf "seed = 3\nmode = 'full'\n[aliases]\na = '2d6 +'\na = '1'" = some
      [("seed", .integer 3), ("mode", .string "full"),
        ("aliases", .table .sections [("a", .string "2d6 +"), ("a", .string "1")])] := by
    rw [entriesOf, Document.parse, hscan]
    rfl
  refine ⟨hentries, (all_or_nothing fun entries h v hv => ?_).refused fun entries h haccept => ?_⟩
  · rw [hentries] at h
    cases h
    exact ⟨"full", List.mem_singleton.mp hv⟩
  · rw [hentries] at h
    cases h
    obtain ⟨names, hnames, htells⟩ := haccept.aliases
    change Once Holds [.table .sections [("a", .string "2d6 +"), ("a", .string "1")]] names
      at hnames
    cases hnames with
    | present hv =>
      cases hv
      obtain ⟨e, s, hs, he⟩ := htells _ List.mem_cons_self
      cases hs
      have hbad : (Expression.parse "2d6 +").toOption = none := by decide +kernel
      rw [toOption_eq_some_iff.mpr he] at hbad
      cases hbad

/-- A value that passes for a date is no table, and is read as one. -/
theorem date_is_read_as_aliases :
    entriesOf "aliases = 1-2" = some [("aliases", .date "1-2")] ∧
    (∀ spelling entries, Value.date "1-2" ≠ .table spelling entries) ∧
    Config.parse "aliases = 1-2" = some ⟨none, .total,
      [("$__toml_private_datetime", .ofParts [.literal 1, .literal 2] [.sub])]⟩ := by
  have hscan : Toml.Token.scan "aliases = 1-2" =
      some [.bare ['a', 'l', 'i', 'a', 's', 'e', 's'], .blanks [' '], .equals, .blanks [' '],
        .bare ['1', '-', '2']] := by
    decide +kernel
  have hdocument : Document.parse "aliases = 1-2" = some ⟨[("aliases", .date "1-2")], []⟩ := by
    rw [Document.parse, hscan]
    rfl
  have hread : Expression.parse "1-2" = .ok (.ofParts [.literal 1, .literal 2] [.sub]) := by
    decide +kernel
  refine ⟨entriesOf_eq_some_iff.mpr ⟨_, hdocument, rfl⟩, fun _ _ => nofun, ?_⟩
  have haliases : Config.aliasesOf (.date "1-2") =
      some [("$__toml_private_datetime", .ofParts [.literal 1, .literal 2] [.sub])] := by
    show ((Expression.parse "1-2").toOption.map (Aliases.insert [] _)).bind _ = _
    rw [hread]
    rfl
  rw [parse_eq_ofDocument hdocument]
  show ((Config.aliasesOf (.date "1-2")).map some).bind _ = _
  rw [haliases]
  rfl

end Console

end DiceEngine
