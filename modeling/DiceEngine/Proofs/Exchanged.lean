import DiceEngine.Proofs.ByteOrder
import DiceEngine.Proofs.Canonical
import Mathlib.Data.List.Forall2

/-!
# Collections are exchanged whole or not at all

A list or a map is read item by item, up to the first item that is refused
(`mapM_eq_ok_iff`, `mapM_eq_error_iff`); for a map this is the one with the least
key (`ordered`). What is written of a collection holds the canonical texts of its
items, and is read and written again as it is (`collections_normalise`).
-/

namespace DiceEngine

/-! ## Reading item by item -/

theorem exists_of_forall₂ {α β : Type} {R : α → β → Prop} {xs : List α} {ys : List β}
    (h : List.Forall₂ R xs ys) {x : α} (hx : x ∈ xs) : ∃ y ∈ ys, R x y := by
  induction h with
  | nil => cases hx
  | cons hxy _ ih =>
    rcases List.mem_cons.mp hx with rfl | hx
    · exact ⟨_, List.mem_cons_self, hxy⟩
    · obtain ⟨y, hy, hxy⟩ := ih hx
      exact ⟨y, List.mem_cons_of_mem _ hy, hxy⟩

section Traversal

variable {α β ε : Type} {f : α → Except ε β}

theorem mapM_cons_eq_ok_iff {x : α} {xs : List α} {ys : List β} : (x :: xs).mapM f = .ok ys ↔
    ∃ y ys', f x = .ok y ∧ xs.mapM f = .ok ys' ∧ ys = y :: ys' := by
  rw [List.mapM_cons]
  cases f x with
  | error r => exact ⟨nofun, nofun⟩
  | ok y =>
    cases xs.mapM f with
    | error r => exact ⟨nofun, nofun⟩
    | ok ys' =>
      constructor
      · intro h
        cases h
        exact ⟨y, ys', rfl, rfl, rfl⟩
      · intro h
        obtain ⟨_, _, hy, hys, rfl⟩ := h
        cases hy
        cases hys
        rfl

theorem mapM_cons_eq_error_iff {r : ε} {x : α} {xs : List α} : (x :: xs).mapM f = .error r ↔
    f x = .error r ∨ ∃ y, f x = .ok y ∧ xs.mapM f = .error r := by
  rw [List.mapM_cons]
  cases f x with
  | error r' =>
    constructor
    · intro h
      cases h
      exact .inl rfl
    · intro h
      rcases h with h | ⟨_, h, -⟩
      · cases h
        rfl
      · cases h
  | ok y =>
    cases xs.mapM f with
    | error r' =>
      constructor
      · intro h
        cases h
        exact .inr ⟨y, rfl, rfl⟩
      · intro h
        rcases h with h | ⟨_, -, h⟩
        · cases h
        · cases h
          rfl
    | ok ys => exact ⟨nofun, nofun⟩

theorem mapM_eq_ok_iff {xs : List α} : ∀ {ys : List β},
    xs.mapM f = .ok ys ↔ List.Forall₂ (fun x y => f x = .ok y) xs ys := by
  induction xs with
  | nil =>
    intro ys
    rw [List.forall₂_nil_left_iff, List.mapM_nil]
    exact ⟨fun h => (Except.ok.inj h).symm, fun h => congrArg Except.ok h.symm⟩
  | cons x xs ih =>
    intro ys
    rw [mapM_cons_eq_ok_iff, List.forall₂_cons_left_iff]
    simp only [ih]

/-- What is refused is the first item that is refused by itself. -/
theorem mapM_eq_error_iff {r : ε} {xs : List α} : xs.mapM f = .error r ↔
    ∃ before x after, xs = before ++ x :: after ∧ (∀ x' ∈ before, ∃ y, f x' = .ok y) ∧
      f x = .error r := by
  induction xs with
  | nil =>
    refine ⟨nofun, fun h => ?_⟩
    obtain ⟨before, x, after, heq, -⟩ := h
    exact absurd heq.symm (List.append_ne_nil_of_right_ne_nil _ (List.cons_ne_nil _ _))
  | cons x xs ih =>
    rw [mapM_cons_eq_error_iff, ih]
    constructor
    · intro h
      rcases h with hx | ⟨y, hy, before, x', after, rfl, hbefore, hx'⟩
      · exact ⟨[], x, xs, rfl, List.forall_mem_nil _, hx⟩
      · exact ⟨x :: before, x', after, rfl, List.forall_mem_cons.mpr ⟨⟨y, hy⟩, hbefore⟩, hx'⟩
    · intro h
      obtain ⟨before, x', after, heq, hbefore, hx'⟩ := h
      cases before with
      | nil =>
        cases heq
        exact .inl hx'
      | cons b before =>
        cases heq
        obtain ⟨⟨y, hy⟩, hbefore⟩ := List.forall_mem_cons.mp hbefore
        exact .inr ⟨y, hy, before, x', after, rfl, hbefore, hx'⟩

theorem exists_mapM_iff {xs : List α} :
    (∃ ys, xs.mapM f = .ok ys) ↔ ∀ x ∈ xs, ∃ y, f x = .ok y := by
  cases hxs : xs.mapM f with
  | error r =>
    refine ⟨nofun, fun h => ?_⟩
    obtain ⟨before, x, after, rfl, -, hx⟩ := mapM_eq_error_iff.mp hxs
    obtain ⟨y, hy⟩ := h x (List.mem_append_right before List.mem_cons_self)
    rw [hy] at hx
    cases hx
  | ok ys =>
    refine ⟨fun _ x hx => ?_, fun _ => ⟨ys, rfl⟩⟩
    obtain ⟨y, -, hy⟩ := exists_of_forall₂ (mapM_eq_ok_iff.mp hxs) hx
    exact ⟨y, hy⟩

end Traversal

namespace Exchange

/-! ## Items -/

/-- The item is a string that can be read. -/
def IsText {α : Type} (parse : String → Except Malformed α) (d : Datum) : Prop :=
  ∃ s x, d = .string s ∧ parse s = .ok x

/-- The item is a string that can be read, and the other one is the canonical text of what is
read. -/
def Canonicalised {α : Type} (parse : String → Except Malformed α) (text : α → String)
    (d d' : Datum) : Prop :=
  ∃ s x, d = .string s ∧ parse s = .ok x ∧ d' = .string (text x)

theorem isText_iff {α : Type} {parse : String → Except Malformed α} {d : Datum} :
    IsText parse d ↔ ∃ x, readText parse d = .ok x := by
  simp only [readText_eq_ok_iff]
  exact exists_comm

theorem canonicalised_iff {α : Type} {parse : String → Except Malformed α} {text : α → String}
    {d d' : Datum} :
    Canonicalised parse text d d' ↔ ∃ x, readText parse d = .ok x ∧ d' = .string (text x) := by
  simp only [readText_eq_ok_iff]
  constructor
  · intro h
    obtain ⟨s, x, hd, hs, hd'⟩ := h
    exact ⟨x, ⟨s, hd, hs⟩, hd'⟩
  · intro h
    obtain ⟨x, ⟨s, hd, hs⟩, hd'⟩ := h
    exact ⟨s, x, hd, hs, hd'⟩

theorem readGroup_writeGroup (g : DieGroup) : readGroup (writeGroup g) = .ok g :=
  readText_eq_ok_iff.mpr ⟨_, rfl, g.parse_text⟩

/-- An expression that was read is read again of what is written of it. -/
theorem readExpression_writeExpression {d : Datum} {e : Expression}
    (h : readExpression d = .ok e) : readExpression (writeExpression e) = .ok e := by
  obtain ⟨s, -, hs⟩ := readText_eq_ok_iff.mp h
  exact readText_eq_ok_iff.mpr ⟨_, rfl, Expression.parse_text hs⟩

/-! ## Lists -/

/-- What is written of the groups that are read. -/
def normalGroups (d : Datum) : Except Refusal Datum := (readGroups d).map writeGroups

/-- What becomes of a list of groups. -/
structure NormalisesList (items : List Datum) : Prop where
  accepted_iff : (∃ d, normalGroups (.sequence items) = .ok d) ↔
    ∀ d ∈ items, IsText DieGroup.parse d
  /-- Each text is made canonical in its place. -/
  rewritten : ∀ d, normalGroups (.sequence items) = .ok d → ∃ items', d = .sequence items' ∧
    List.Forall₂ (Canonicalised DieGroup.parse DieGroup.text) items items'
  settled : ∀ d, normalGroups (.sequence items) = .ok d → normalGroups d = .ok d
  /-- The first item that is refused decides, whatever stands behind it. -/
  refused_iff : ∀ r, normalGroups (.sequence items) = .error r ↔
    ∃ before d after, items = before ++ d :: after ∧
      (∀ d' ∈ before, IsText DieGroup.parse d') ∧ readGroup d = .error r

theorem map_eq_ok_iff {α β ε : Type} {x : Except ε α} {g : α → β} {b : β} :
    x.map g = .ok b ↔ ∃ a, x = .ok a ∧ g a = b := by
  cases x <;> simp [Except.map]

theorem map_eq_error_iff {α β ε : Type} {x : Except ε α} {g : α → β} {r : ε} :
    x.map g = .error r ↔ x = .error r := by
  cases x <;> simp [Except.map]

theorem exists_map_iff {α β ε : Type} {x : Except ε α} {g : α → β} :
    (∃ b, x.map g = .ok b) ↔ ∃ a, x = .ok a := by
  cases x <;> simp [Except.map]

theorem normalGroups_eq_ok_iff {items : List Datum} {d : Datum} :
    normalGroups (.sequence items) = .ok d ↔
      ∃ gs, List.Forall₂ (fun d g => readGroup d = .ok g) items gs ∧ writeGroups gs = d := by
  rw [normalGroups, map_eq_ok_iff]
  simp only [readGroups, mapM_eq_ok_iff]

theorem normalises_list (items : List Datum) : NormalisesList items where
  accepted_iff := by
    rw [normalGroups, exists_map_iff, readGroups, exists_mapM_iff]
    exact forall₂_congr fun d _ => isText_iff.symm
  rewritten d h := by
    obtain ⟨gs, hgs, rfl⟩ := normalGroups_eq_ok_iff.mp h
    refine ⟨gs.map writeGroup, rfl, List.forall₂_map_right_iff.mpr (hgs.imp fun d g hg => ?_)⟩
    exact canonicalised_iff.mpr ⟨g, hg, rfl⟩
  settled d h := by
    obtain ⟨gs, -, rfl⟩ := normalGroups_eq_ok_iff.mp h
    refine normalGroups_eq_ok_iff.mpr ⟨gs, List.forall₂_map_left_iff.mpr ?_, rfl⟩
    exact List.forall₂_same.mpr fun g _ => readGroup_writeGroup g
  refused_iff r := by
    rw [normalGroups, map_eq_error_iff, readGroups, mapM_eq_error_iff]
    simp only [isText_iff]
    exact Iff.rfl

/-! ## Maps -/

/-- What is written of the expressions that are read. -/
def normalExpressions (d : Datum) : Except Refusal Datum := (readExpressions d).map writeExpressions

/-- The entries in the order of their keys. -/
def ordered (entries : List (String × Datum)) : List (String × Datum) :=
  entries.mergeSort fun a b => a.1 ≤ b.1

/-- What becomes of a map to expressions. -/
structure NormalisesMap (entries : List (String × Datum)) : Prop where
  accepted_iff : (∃ d, normalExpressions (.mapping entries) = .ok d) ↔
    ∀ r ∈ entries, IsText Expression.parse r.2
  /-- Each text is made canonical under its key. -/
  rewritten : ∀ d, normalExpressions (.mapping entries) = .ok d → ∃ sorted entries',
    sorted.Perm entries ∧ d = .mapping entries' ∧
      List.Forall₂ (fun r r' => r.1 = r'.1 ∧
        Canonicalised Expression.parse Expression.text r.2 r'.2) sorted entries'
  settled : ∀ d, normalExpressions (.mapping entries) = .ok d → normalExpressions d = .ok d
  /-- The value that is refused and has the least key, in the order of bytes, decides. -/
  refused_iff : ∀ r, normalExpressions (.mapping entries) = .error r ↔
    ∃ key d, (key, d) ∈ entries ∧ readExpression d = .error r ∧
      ∀ key' d', (key', d') ∈ entries → Text.bytes key' < Text.bytes key →
        IsText Expression.parse d'

theorem ordered_perm (entries : List (String × Datum)) : (ordered entries).Perm entries :=
  List.mergeSort_perm _ _

theorem ordered_pairwise (entries : List (String × Datum)) :
    ((ordered entries).map Prod.fst).Pairwise (· ≤ ·) := by
  rw [List.pairwise_map]
  have hsorted : (ordered entries).Pairwise fun a b => decide (a.1 ≤ b.1) = true := by
    apply List.pairwise_mergeSort
    · intro a b c hab hbc
      exact decide_eq_true (String.le_trans (of_decide_eq_true hab) (of_decide_eq_true hbc))
    · intro a b
      simpa using String.le_total a.1 b.1
  exact hsorted.imp of_decide_eq_true

/-- Entries in the order of their keys are in order. -/
theorem ordered_of_pairwise {entries : List (String × Datum)}
    (h : (entries.map Prod.fst).Pairwise (· ≤ ·)) : ordered entries = entries :=
  List.mergeSort_of_pairwise ((List.pairwise_map.mp h).imp fun h => decide_eq_true h)

/-- The values are read by such a step, in order. -/
theorem exists_entry_step : ∃ f : String × Datum → Except Refusal (String × Expression),
    (∀ r r', f r = .ok r' ↔ r.1 = r'.1 ∧ readExpression r.2 = .ok r'.2) ∧
    (∀ r x, f r = .error x ↔ readExpression r.2 = .error x) ∧
    ∀ entries, readExpressions (.mapping entries) = (ordered entries).mapM f := by
  refine ⟨_, ?_, ?_, fun entries => rfl⟩
  · rintro ⟨key, d⟩ ⟨key', e'⟩
    show (readExpression d >>= fun e => Except.ok (key, e)) = .ok (key', e') ↔ _
    cases readExpression d with
    | error x => exact ⟨nofun, nofun⟩
    | ok e =>
      show Except.ok (key, e) = Except.ok (key', e') ↔ key = key' ∧ Except.ok e = Except.ok e'
      simp only [Except.ok.injEq, Prod.mk.injEq]
  · rintro ⟨key, d⟩ x
    show (readExpression d >>= fun e => Except.ok (key, e)) = .error x ↔ _
    cases readExpression d with
    | error x' =>
      show Except.error x' = Except.error x ↔ _
      simp only [Except.error.injEq]
    | ok e => exact ⟨nofun, nofun⟩

theorem exists_entry_step_iff {f : String × Datum → Except Refusal (String × Expression)}
    (hf : ∀ r r', f r = .ok r' ↔ r.1 = r'.1 ∧ readExpression r.2 = .ok r'.2)
    (r : String × Datum) : (∃ r', f r = .ok r') ↔ IsText Expression.parse r.2 := by
  simp only [hf, isText_iff]
  constructor
  · intro h
    obtain ⟨r', -, he⟩ := h
    exact ⟨r'.2, he⟩
  · intro h
    obtain ⟨e, he⟩ := h
    exact ⟨(r.1, e), rfl, he⟩

/-- What is written of the entries that are read, in the order of their keys. -/
theorem normalExpressions_eq_ok_iff {entries : List (String × Datum)} {d : Datum} :
    normalExpressions (.mapping entries) = .ok d ↔ ∃ es : List (String × Expression),
      List.Forall₂ (fun r r' => r.1 = r'.1 ∧ readExpression r.2 = .ok r'.2) (ordered entries) es ∧
      writeExpressions es = d := by
  obtain ⟨f, hok, -, hread⟩ := exists_entry_step
  rw [normalExpressions, map_eq_ok_iff]
  simp only [hread, mapM_eq_ok_iff, hok]

/-- What is written of a map has its keys, in order. -/
theorem keys_of_forall₂ {R : Datum → Expression → Prop} {entries : List (String × Datum)}
    {es : List (String × Expression)}
    (h : List.Forall₂ (fun r r' => r.1 = r'.1 ∧ R r.2 r'.2) entries es) :
    es.map Prod.fst = entries.map Prod.fst := by
  induction h with
  | nil => rfl
  | cons hr _ ih => rw [List.map_cons, List.map_cons, ih, hr.1]

/-- Different keys are in strict order. -/
theorem ordered_strict {entries : List (String × Datum)} (hkeys : (entries.map Prod.fst).Nodup) :
    ((ordered entries).map Prod.fst).Pairwise (· < ·) := by
  have hnodup : ((ordered entries).map Prod.fst).Nodup :=
    ((ordered_perm entries).map Prod.fst).nodup_iff.mpr hkeys
  refine (ordered_pairwise entries).imp₂ (fun a b hle hne => ?_) hnodup
  exact Decidable.byContradiction fun hnot => hne (String.le_antisymm hle hnot)

/-- In front of an entry stand those with smaller keys. -/
theorem mem_before_iff {entries before after : List (String × Datum)} {r : String × Datum}
    (hkeys : (entries.map Prod.fst).Nodup) (h : ordered entries = before ++ r :: after)
    {r' : String × Datum} : r' ∈ before ↔ r' ∈ entries ∧ Text.bytes r'.1 < Text.bytes r.1 := by
  have hstrict := ordered_strict hkeys
  rw [h, List.pairwise_map, List.pairwise_append, List.pairwise_cons] at hstrict
  obtain ⟨-, ⟨hbehind, -⟩, hbefore⟩ := hstrict
  rw [Text.bytes_lt_iff, ← (ordered_perm entries).mem_iff, h]
  constructor
  · exact fun hr' => ⟨List.mem_append_left _ hr', hbefore r' hr' r List.mem_cons_self⟩
  · intro hr'
    obtain ⟨hmem, hlt⟩ := hr'
    rcases List.mem_append.mp hmem with hr' | hr'
    · exact hr'
    · rcases List.mem_cons.mp hr' with rfl | hr'
      · exact absurd hlt (String.lt_irrefl _)
      · exact absurd hlt (String.lt_asymm (hbehind r' hr'))

theorem normalises_map {entries : List (String × Datum)}
    (hkeys : (entries.map Prod.fst).Nodup) : NormalisesMap entries where
  accepted_iff := by
    obtain ⟨f, hok, -, hread⟩ := exists_entry_step
    rw [normalExpressions, exists_map_iff, hread, exists_mapM_iff]
    simp only [exists_entry_step_iff hok, (ordered_perm entries).mem_iff]
  rewritten d h := by
    obtain ⟨es, hes, rfl⟩ := normalExpressions_eq_ok_iff.mp h
    refine ⟨ordered entries, _, ordered_perm entries, rfl, List.forall₂_map_right_iff.mpr ?_⟩
    refine hes.imp fun r r' hr => ⟨hr.1, canonicalised_iff.mpr ⟨r'.2, hr.2, rfl⟩⟩
  settled d h := by
    obtain ⟨es, hes, rfl⟩ := normalExpressions_eq_ok_iff.mp h
    refine normalExpressions_eq_ok_iff.mpr ⟨es, ?_, rfl⟩
    have hsorted := ordered_pairwise entries
    rw [← keys_of_forall₂ (R := fun d e => readExpression d = .ok e) hes] at hsorted
    rw [ordered_of_pairwise (by rw [List.map_map]; exact hsorted)]
    refine List.forall₂_map_left_iff.mpr (List.forall₂_same.mpr fun r hr => ⟨rfl, ?_⟩)
    obtain ⟨r₀, -, hr₀⟩ := exists_of_forall₂ hes.flip hr
    exact readExpression_writeExpression hr₀.2
  refused_iff x := by
    obtain ⟨f, hok, herror, hread⟩ := exists_entry_step
    rw [normalExpressions, map_eq_error_iff, hread, mapM_eq_error_iff]
    simp only [exists_entry_step_iff hok, herror]
    constructor
    · intro h
      obtain ⟨before, r, after, hsplit, hbefore, hr⟩ := h
      have hmem : r ∈ ordered entries := hsplit ▸ List.mem_append_right _ List.mem_cons_self
      refine ⟨r.1, r.2, (ordered_perm entries).mem_iff.mp hmem, hr, fun key' d' hmem' hlt => ?_⟩
      exact hbefore (key', d') ((mem_before_iff hkeys hsplit).mpr ⟨hmem', hlt⟩)
    · intro h
      obtain ⟨key, d, hmem, hd, hsmaller⟩ := h
      obtain ⟨before, after, hsplit⟩ := List.append_of_mem ((ordered_perm entries).mem_iff.mpr hmem)
      refine ⟨before, (key, d), after, hsplit, fun r hr => ?_, hd⟩
      obtain ⟨hr, hlt⟩ := (mem_before_iff hkeys hsplit).mp hr
      exact hsmaller r.1 r.2 hr hlt

/-- Lists of groups and maps to expressions are exchanged as a whole, in canonical texts, and what
is written once is not changed by a second time. -/
theorem collections_normalise : (∀ items : List Datum, NormalisesList items) ∧
    ∀ entries : List (String × Datum), (entries.map Prod.fst).Nodup → NormalisesMap entries :=
  ⟨normalises_list, fun _ hkeys => normalises_map hkeys⟩

/-- The least key decides, wherever it stands. -/
theorem collections_normalise_least_key :
    ([("b", .string "5 +"), ("a", .boolean true)].map (Prod.fst (β := Datum))).Nodup ∧
    normalExpressions (.mapping [("b", .string "5 +"), ("a", .boolean true)]) =
      .error (.wrongType (.boolean true) .expressionString) := by
  have hkeys : (List.map (Prod.fst (β := Datum))
      [("b", .string "5 +"), ("a", .boolean true)]).Nodup := by
    decide
  refine ⟨hkeys, ((collections_normalise.2 _ hkeys).refused_iff _).mpr ?_⟩
  refine ⟨"a", .boolean true, List.mem_cons_of_mem _ List.mem_cons_self, rfl, ?_⟩
  intro key' d' hmem hlt
  rw [Text.bytes_lt_iff] at hlt
  rcases List.mem_pair.mp hmem with heq | heq
  · cases heq
    exact absurd hlt (by decide)
  · cases heq
    exact absurd hlt (String.lt_irrefl _)

end Exchange

end DiceEngine
