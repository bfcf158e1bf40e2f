import DiceEngine.Text.Blank
import DiceEngine.Token
import Mathlib.Algebra.Ring.Nat

/-!
# The spelling of terms

The grammar of the parts of an expression, as relations between a run of
characters and what it stands for, and the recognisers of `Token` against it.
A recogniser takes the longest spelling it can, so the two agree where what
follows cannot go on with the token:

* `Token.term_sound`: what is recognised is a spelling at the start of the
  text, and the rest is left as it was;
* `Token.term_append`: a spelling is recognised as a whole in front of a text
  that is `Detached` from it;
* `Token.dieGroup_quantity`: a group at the start of a text fixes the quantity
  of the group that is recognised there, whatever follows it.
-/

namespace DiceEngine

/-- A run of one to `limit` digits that stands for the number. -/
def Numeral (limit : Nat) (ds : List Char) (n : Nat) : Prop :=
  0 < ds.length ∧ ds.length ≤ limit ∧ (∀ c ∈ ds, c.isDigit) ∧ Nat.ofDigitChars 10 ds 0 = n

/-- The spelling of a number of sides: `100`, or one or two digits. -/
def SidesSpelled (ds : List Char) (n : Nat) : Prop :=
  (ds = ['1', '0', '0'] ∧ n = 100) ∨ (Numeral 2 ds n ∧ 1 ≤ n)

/-- The spelling of how many dice are kept: nothing for all of them, or a
selector and one to three digits. -/
inductive KeepSpelled : List Char → Option Keep → Prop
  | all : KeepSpelled [] none
  | few {sel : Selector} {ds : List Char} {n : Nat} (h : Numeral 3 ds n) :
      KeepSpelled (sel.symbol :: ds) (some ⟨sel, n⟩)

/-- The spelling of a die group, without blanks inside. A count of kept dice
beyond the quantity stands for all dice. -/
inductive DieGroup.Spelled : List Char → DieGroup → Prop
  | mk {g : DieGroup} {qs ss ks : List Char} {k : Option Keep} (hq : Numeral 2 qs g.quantity)
      (hs : SidesSpelled ss g.sides) (hk : KeepSpelled ks k)
      (hg : g.keep = k.map fun k => { k with count := min k.count g.quantity }) :
      Spelled (qs ++ 'd' :: (ss ++ ks)) g

/-- The spelling of a term: one to three digits, or a die group. -/
inductive Term.Spelled : List Char → Term → Prop
  | literal {ds : List Char} {n : Nat} (h : Numeral 3 ds n) : Spelled ds (.literal n)
  | dice {cs : List Char} {g : DieGroup} (h : DieGroup.Spelled cs g) : Spelled cs (.dice g)

/-- No digit comes first. -/
def NoDigit (s : List Char) : Prop := ∀ c ∈ s.head?, c.isDigit = false

/-- What comes first can go on with no term. -/
def Detached (s : List Char) : Prop :=
  ∀ c ∈ s.head?, c.isDigit = false ∧ c ≠ 'd' ∧ c ≠ 'v' ∧ c ≠ '^'

theorem NoDigit.cons {c : Char} (h : c.isDigit = false) (s : List Char) : NoDigit (c :: s) := by
  intro c' hc
  simp only [List.head?_cons, Option.mem_def, Option.some.injEq] at hc
  rw [← hc, h]

theorem NoDigit.d (s : List Char) : NoDigit ('d' :: s) := NoDigit.cons (c := 'd') rfl s

theorem Detached.noDigit {s : List Char} (h : Detached s) : NoDigit s := fun c hc => (h c hc).1

theorem Detached.nil : Detached [] := fun _ hc => nomatch hc

/-! ## Numbers as they are written -/

/-- A number below a power of ten is written with no more digits than the power has zeros. -/
theorem numeral_toString {limit n : Nat} (hpos : 0 < limit) (h : n < 10 ^ limit) :
    Numeral limit (toString n).toList n := by
  rw [Nat.toString_eq_repr, Nat.toList_repr]
  refine ⟨Nat.length_toDigits_pos, (Nat.length_toDigits_le_iff (by decide) hpos).mpr h, ?_,
    Nat.ofDigitChars_ten_toDigits⟩
  exact fun c hc => Nat.isDigit_of_mem_toDigits (by decide) (by decide) hc

theorem Numeral.singleton {limit : Nat} {c : Char} (hpos : 0 < limit) (h : c.isDigit) :
    Numeral limit [c] (Nat.ofDigitChars 10 [c] 0) :=
  ⟨Nat.zero_lt_one, hpos, by simpa using h, rfl⟩

/-- A number that is not negative is written without a sign. -/
theorem toString_natCast (n : Nat) : toString (n : Int) = toString n := by
  rw [Int.toString_eq_repr, Int.repr_eq_if, if_pos (Int.natCast_nonneg n), Int.toNat_natCast,
    Nat.toString_eq_repr]

/-- A negative number is written with a sign and digits. -/
theorem toString_of_neg {v : Int} (h : v < 0) : toString v = "-" ++ toString (-v).toNat := by
  rw [Int.toString_eq_repr, Int.repr_eq_if, if_neg (by omega), Nat.toString_eq_repr]

/-- A number is written with digits and a sign, and nothing else. -/
theorem mem_toString {v : Int} {c : Char} (h : c ∈ (toString v).toList) :
    c.isDigit = true ∨ c = '-' := by
  have hnat : ∀ n : Nat, c ∈ (toString n).toList → c.isDigit = true := by
    intro n hc
    rw [Nat.toString_eq_repr, Nat.toList_repr] at hc
    exact Nat.isDigit_of_mem_toDigits (by decide) (by decide) hc
  by_cases hv : v < 0
  · rw [toString_of_neg hv, String.toList_append] at h
    rcases List.mem_append.mp h with h | h
    · exact .inr (List.mem_singleton.mp h)
    · exact .inl (hnat _ h)
  · obtain ⟨n, rfl⟩ := Int.eq_ofNat_of_zero_le (Int.not_lt.mp hv)
    rw [toString_natCast] at h
    exact .inl (hnat n h)

theorem Selector.symbol_not_digit (sel : Selector) : sel.symbol.isDigit = false := by
  cases sel <;> rfl

/-! ## The characters of a token -/

theorem SidesSpelled.digits {ds : List Char} {n : Nat} (h : SidesSpelled ds n) :
    ∀ c ∈ ds, c.isDigit := by
  rcases h with ⟨rfl, -⟩ | ⟨hd, -⟩
  · exact List.all_eq_true.mp rfl
  · exact hd.2.2.1

/-- A group is spelled with digits, a `d` and the symbol of a selector. -/
theorem DieGroup.Spelled.chars {cs : List Char} {g : DieGroup} (h : Spelled cs g) :
    ∀ c ∈ cs, c.isDigit ∨ c = 'd' ∨ ∃ sel : Selector, c = sel.symbol := by
  obtain ⟨hq, hs, hk, -⟩ := h
  intro c hc
  simp only [List.mem_append, List.mem_cons] at hc
  rcases hc with hc | rfl | hc | hc
  · exact .inl (hq.2.2.1 c hc)
  · exact .inr (.inl rfl)
  · exact .inl (hs.digits c hc)
  · cases hk with
    | all => exact nomatch hc
    | few hd =>
      rcases List.mem_cons.mp hc with rfl | hc
      · exact .inr (.inr ⟨_, rfl⟩)
      · exact .inl (hd.2.2.1 c hc)

/-! ## Numbers -/

/-- The digits in front of a text that starts with none. -/
theorem takeWhile_digits {ds r : List Char} (hd : ∀ c ∈ ds, c.isDigit) (hr : NoDigit r) :
    (ds ++ r).takeWhile Char.isDigit = ds := by
  rw [List.takeWhile_append_of_pos hd]
  cases r with
  | nil => simp
  | cons c r => simp [hr c rfl]

theorem NoDigit.take {r : List Char} (h : NoDigit r) (n : Nat) : NoDigit (r.take n) := by
  intro c hc
  cases n with
  | zero => simp at hc
  | succ n => exact h c (by simpa [List.head?_take] using hc)

namespace Token

theorem number_sound {limit n : Nat} {s r : List Char} (h : number limit s = some (n, r)) :
    ∃ ds, s = ds ++ r ∧ Numeral limit ds n := by
  simp only [number] at h
  split at h
  · cases h
  · next hd =>
    cases h
    have hp : (s.take limit).takeWhile Char.isDigit <+: s :=
      (List.takeWhile_prefix _).trans (List.take_prefix _ _)
    refine ⟨_, (List.prefix_iff_eq_append.mp hp).symm, ?_, ?_, fun c hc => ?_, rfl⟩
    · exact List.length_pos_iff.mpr (by simpa using hd)
    · have h1 := (List.takeWhile_sublist Char.isDigit (l := s.take limit)).length_le
      simp only [List.length_take] at h1
      omega
    · exact List.all_eq_true.mp List.all_takeWhile c hc

/-- Behind its first digits a number goes on as far as digits follow and may be taken. -/
theorem number_append_eq {limit n : Nat} {ds : List Char} (h : Numeral limit ds n)
    (r : List Char) : number limit (ds ++ r) =
      some (Nat.ofDigitChars 10 (ds ++ (r.take (limit - ds.length)).takeWhile Char.isDigit) 0,
        r.drop ((r.take (limit - ds.length)).takeWhile Char.isDigit).length) := by
  obtain ⟨hpos, hle, hd, -⟩ := h
  have ht : ((ds ++ r).take limit).takeWhile Char.isDigit =
      ds ++ (r.take (limit - ds.length)).takeWhile Char.isDigit := by
    rw [List.take_append, List.take_of_length_le hle, List.takeWhile_append_of_pos hd]
  have hne : (ds ++ (r.take (limit - ds.length)).takeWhile Char.isDigit).isEmpty = false := by
    simp [List.length_pos_iff.mp hpos]
  simp only [number, ht, hne, Bool.false_eq_true, if_false, List.length_append, List.drop_append,
    List.drop_eq_nil_of_le (Nat.le_add_right _ _), List.nil_append, Nat.add_sub_cancel_left]

theorem takeWhile_take_eq_nil_iff {k : Nat} {r : List Char} :
    (r.take k).takeWhile Char.isDigit = [] ↔ k = 0 ∨ NoDigit r := by
  cases k with
  | zero => simp
  | succ k =>
    cases r with
    | nil => simp [NoDigit]
    | cons c r => simp [NoDigit, List.takeWhile_cons]

/-- A number is taken as a whole where no more digits may be taken, or none follow. -/
theorem number_append_iff {limit n : Nat} {ds r : List Char} :
    number limit (ds ++ r) = some (n, r) ↔
      Numeral limit ds n ∧ (ds.length = limit ∨ NoDigit r) := by
  constructor
  · intro h
    obtain ⟨ds', hs, hd⟩ := number_sound h
    obtain rfl := List.append_cancel_right hs
    rw [number_append_eq hd] at h
    have hdrop := congrArg List.length (Prod.mk.inj (Option.some.inj h)).2
    have hle := ((List.takeWhile_sublist Char.isDigit).trans
      (List.take_sublist (limit - ds.length) r)).length_le
    rw [List.length_drop] at hdrop
    have hnil := List.eq_nil_of_length_eq_zero (by omega :
      ((r.take (limit - ds.length)).takeWhile Char.isDigit).length = 0)
    refine ⟨hd, (takeWhile_take_eq_nil_iff.mp hnil).imp_left fun hk => ?_⟩
    exact Nat.le_antisymm hd.2.1 (Nat.le_of_sub_eq_zero hk)
  · intro h
    obtain ⟨hd, hend⟩ := h
    have hnil : (r.take (limit - ds.length)).takeWhile Char.isDigit = [] :=
      takeWhile_take_eq_nil_iff.mpr (hend.imp_left fun hl => by omega)
    rw [number_append_eq hd, hnil, List.append_nil, hd.2.2.2]
    rfl

theorem number_append {limit n : Nat} {ds r : List Char} (h : Numeral limit ds n)
    (hr : NoDigit r) : number limit (ds ++ r) = some (n, r) :=
  number_append_iff.mpr ⟨h, .inr hr⟩

theorem quantity_sound {n : Nat} {s r : List Char} (h : quantity s = some (n, r)) :
    ∃ ds, s = ds ++ r ∧ Numeral 2 ds n :=
  number_sound (Option.filter_eq_some_iff.mp h).1

theorem quantity_append {n : Nat} {ds r : List Char} (h : Numeral 2 ds n) (hn : 1 ≤ n)
    (hr : NoDigit r) : quantity (ds ++ r) = some (n, r) := by
  simp only [quantity, number_append h hr]
  exact Option.filter_eq_some_iff.mpr ⟨rfl, by simpa using hn⟩

/-- Other sides than `100` are recognised as a quantity is. -/
theorem sides_eq_quantity {s : List Char} (h : ∀ t, s ≠ '1' :: '0' :: '0' :: t) :
    sides s = quantity s := by
  unfold sides
  split
  · next t => exact absurd rfl (h t)
  · rfl

theorem sides_sound {n : Nat} {s r : List Char} (h : sides s = some (n, r)) :
    ∃ ds, s = ds ++ r ∧ SidesSpelled ds n := by
  unfold sides at h
  split at h
  · cases h
    exact ⟨['1', '0', '0'], rfl, .inl ⟨rfl, rfl⟩⟩
  · obtain ⟨hnum, hn⟩ := Option.filter_eq_some_iff.mp h
    obtain ⟨ds, hs, hd⟩ := number_sound hnum
    exact ⟨ds, hs, .inr ⟨hd, by simpa using hn⟩⟩

/-- Two digits and what is no digit do not start with `100`. -/
theorem not_hundred {n : Nat} {ds r : List Char} (h : Numeral 2 ds n) (hr : NoDigit r)
    (t : List Char) : ds ++ r ≠ '1' :: '0' :: '0' :: t := by
  intro he
  have hd := takeWhile_digits h.2.2.1 hr
  rw [he] at hd
  have hl := h.2.1
  rw [← hd] at hl
  simp only [List.takeWhile_cons, show ('1' : Char).isDigit = true from rfl,
    show ('0' : Char).isDigit = true from rfl, if_true, List.length_cons] at hl
  omega

theorem sides_append {n : Nat} {ds r : List Char} (h : SidesSpelled ds n) (hr : NoDigit r) :
    sides (ds ++ r) = some (n, r) := by
  rcases h with ⟨rfl, rfl⟩ | ⟨hd, hn⟩
  · rfl
  · unfold sides
    split
    · next t he => exact absurd he (not_hundred hd hr t)
    · rw [number_append hd hr]
      exact Option.filter_eq_some_iff.mpr ⟨rfl, by simpa using hn⟩

/-! ## Die groups -/

theorem selector_eq_some_iff {sel : Selector} {s r : List Char} :
    selector s = some (sel, r) ↔ s = sel.symbol :: r := by
  constructor
  · intro h
    unfold selector at h
    split at h <;> cases h <;> rfl
  · rintro rfl
    cases sel <;> rfl

theorem keep_eq_some_iff {k : Keep} {s r : List Char} :
    keep s = some (k, r) ↔ ∃ t, s = k.selector.symbol :: t ∧ number 3 t = some (k.count, r) := by
  constructor
  · intro h
    simp only [keep, Option.bind_eq_bind, Option.bind_eq_some_iff] at h
    obtain ⟨⟨sel, t⟩, hsel, ⟨n, r'⟩, hnum, h⟩ := h
    cases h
    exact ⟨t, selector_eq_some_iff.mp hsel, hnum⟩
  · intro h
    obtain ⟨t, rfl, hnum⟩ := h
    simp only [keep, selector_eq_some_iff.mpr rfl, Option.bind_eq_bind, Option.bind_some, hnum]

theorem keep_sound {k : Keep} {s r : List Char} (h : keep s = some (k, r)) :
    ∃ ks, s = ks ++ r ∧ KeepSpelled ks (some k) := by
  obtain ⟨t, rfl, hnum⟩ := keep_eq_some_iff.mp h
  obtain ⟨ds, rfl, hd⟩ := number_sound hnum
  exact ⟨k.selector.symbol :: ds, rfl, .few hd⟩

theorem keepOrAll_sound (s : List Char) :
    ∃ ks, s = ks ++ (keepOrAll s).2 ∧ KeepSpelled ks (keepOrAll s).1 := by
  unfold keepOrAll
  split
  · next h => exact keep_sound h
  · exact ⟨[], rfl, .all⟩

theorem selector_eq_none {r : List Char} (hr : Detached r) : selector r = none := by
  refine Option.eq_none_iff_forall_ne_some.mpr fun found hfound => ?_
  obtain ⟨sel, s⟩ := found
  rw [selector_eq_some_iff] at hfound
  have hsymbol := hr sel.symbol (by rw [hfound]; rfl)
  cases sel <;> simp [Selector.symbol] at hsymbol

theorem keep_eq_none {r : List Char} (hr : Detached r) : keep r = none := by
  rw [keep, selector_eq_none hr]
  rfl

theorem keep_append {k : Keep} {ks r : List Char} (h : KeepSpelled ks (some k))
    (hr : NoDigit r) : keep (ks ++ r) = some (k, r) := by
  cases h with
  | few hd => exact keep_eq_some_iff.mpr ⟨_, rfl, number_append hd hr⟩

theorem keepOrAll_append {k : Option Keep} {ks r : List Char} (h : KeepSpelled ks k)
    (hr : Detached r) : keepOrAll (ks ++ r) = (k, r) := by
  cases k with
  | none =>
    cases h
    simp only [List.nil_append, keepOrAll, keep_eq_none hr]
  | some k => simp only [keepOrAll, keep_append h hr.noDigit]

end Token

/-- A group is made of its quantity, its sides and a count of kept dice that
is cut down to the quantity. -/
theorem DieGroup.create_eq_ok_iff {q n : Nat} {k : Option Keep} {g : DieGroup} :
    create q n k = .ok g ↔ g.quantity = q ∧ g.sides = n ∧
      g.keep = k.map fun k => { k with count := min k.count q } := by
  unfold create
  constructor
  · intro h
    repeat' split at h
    all_goals cases h
    exact ⟨rfl, rfl, rfl⟩
  · rintro ⟨rfl, rfl, hk⟩
    have h1 := g.quantity_pos
    have h2 := g.quantity_le
    have h3 := g.sides_pos
    have h4 := g.sides_le
    rw [dif_neg (by omega), dif_neg (by omega), dif_neg (by omega), dif_neg (by omega)]
    cases g
    simp only at hk
    simp only [hk]

theorem DieGroup.exists_create {q n : Nat} (hq : 1 ≤ q ∧ q ≤ 99) (hn : 1 ≤ n ∧ n ≤ 100)
    (keep : Option Keep) : ∃ g, create q n keep = .ok g := by
  rw [create, dif_neg (by omega), dif_neg (by omega), dif_neg (by omega), dif_neg (by omega)]
  exact ⟨_, rfl⟩

namespace Token

theorem dieSides_eq_some_iff {n : Nat} {s r : List Char} :
    dieSides s = some (n, r) ↔ ∃ t, s = 'd' :: t ∧ sides t = some (n, r) := by
  unfold dieSides
  split <;> simp_all

/-- A group is recognised where its parts are, one behind the other. -/
theorem dieGroup_eq_some_iff {g : DieGroup} {s r : List Char} :
    dieGroup s = some (g, r) ↔ ∃ s₁ s₂ k, quantity s = some (g.quantity, s₁) ∧
      dieSides s₁ = some (g.sides, s₂) ∧ keepOrAll s₂ = (k, r) ∧
      g.keep = k.map fun k => { k with count := min k.count g.quantity } := by
  constructor
  · intro h
    simp only [dieGroup, Option.bind_eq_bind, Option.bind_eq_some_iff] at h
    obtain ⟨⟨q, s₁⟩, hq, ⟨n, s₂⟩, hn, g', hg, h⟩ := h
    cases h
    have hc : DieGroup.create q n (keepOrAll s₂).1 = .ok g := by
      cases hc : DieGroup.create q n (keepOrAll s₂).1 <;> simp_all [Except.toOption]
    obtain ⟨rfl, rfl, hkeep⟩ := DieGroup.create_eq_ok_iff.mp hc
    exact ⟨s₁, s₂, _, hq, hn, rfl, hkeep⟩
  · intro h
    obtain ⟨s₁, s₂, k, hq, hn, hk, hkeep⟩ := h
    have hcreate := DieGroup.create_eq_ok_iff.mpr ⟨rfl, rfl, hkeep⟩
    simp only [dieGroup, hq, hn, hk, Option.bind_eq_bind, Option.bind_some, hcreate,
      Except.toOption]

theorem dieGroup_sound {g : DieGroup} {s r : List Char} (h : dieGroup s = some (g, r)) :
    ∃ cs, s = cs ++ r ∧ DieGroup.Spelled cs g := by
  obtain ⟨s₁, s₂, k, hq, hn, hk, hkeep⟩ := dieGroup_eq_some_iff.mp h
  obtain ⟨qs, rfl, hqs⟩ := quantity_sound hq
  obtain ⟨t, rfl, ht⟩ := dieSides_eq_some_iff.mp hn
  obtain ⟨ss, rfl, hss⟩ := sides_sound ht
  obtain ⟨ks, hs₂, hks⟩ := keepOrAll_sound s₂
  rw [hk] at hs₂ hks
  refine ⟨qs ++ 'd' :: (ss ++ ks), ?_, .mk hqs hss hks hkeep⟩
  simp only [List.append_assoc, List.cons_append]
  rw [← hs₂]

theorem dieGroup_append {g : DieGroup} {cs r : List Char} (h : DieGroup.Spelled cs g)
    (hr : Detached r) : dieGroup (cs ++ r) = some (g, r) := by
  obtain ⟨hq, hs, hk, hg⟩ := h
  rename_i qs ss ks k
  have hks : NoDigit (ks ++ r) := by
    cases hk with
    | all => exact hr.noDigit
    | few _ => exact NoDigit.cons (Selector.symbol_not_digit _) _
  rw [List.append_assoc, List.cons_append, List.append_assoc]
  exact dieGroup_eq_some_iff.mpr ⟨_, _, k,
    quantity_append hq g.quantity_pos (NoDigit.d (ss ++ (ks ++ r))),
    dieSides_eq_some_iff.mpr ⟨_, rfl, sides_append hs hks⟩, keepOrAll_append hk hr, hg⟩

/-- Digits in front of what is no digit, up to a `d`, are all digits there. -/
theorem eq_d_of_digits {ds qs r t : List Char} (hd : ∀ c ∈ ds, c.isDigit)
    (hq : ∀ c ∈ qs, c.isDigit) (hr : NoDigit r) (h : ds ++ r = qs ++ 'd' :: t) : r = 'd' :: t := by
  have e := congrArg (List.takeWhile Char.isDigit) h
  rw [takeWhile_digits hd hr, takeWhile_digits hq (NoDigit.d t)] at e
  rw [e] at h
  exact List.append_cancel_left h

/-- A number is no die group. -/
theorem dieGroup_eq_none {ds r : List Char} (hd : ∀ c ∈ ds, c.isDigit) (hr : Detached r) :
    dieGroup (ds ++ r) = none := by
  cases h : dieGroup (ds ++ r) with
  | none => rfl
  | some p =>
    obtain ⟨cs, hs, hg⟩ := dieGroup_sound (g := p.1) (r := p.2) h
    obtain ⟨hq, _, _, _⟩ := hg
    simp only [List.append_assoc, List.cons_append] at hs
    have he := eq_d_of_digits hd hq.2.2.1 hr.noDigit hs
    exact absurd rfl (hr 'd' (by rw [he]; rfl)).2.1

/-- Three digits in a row are more than the quantity of a group has. -/
theorem dieGroup_of_three_digits {c₁ c₂ c₃ : Char} (h₁ : c₁.isDigit) (h₂ : c₂.isDigit)
    (h₃ : c₃.isDigit) (s : List Char) : dieGroup (c₁ :: c₂ :: c₃ :: s) = none := by
  refine Option.eq_none_iff_forall_ne_some.mpr fun p hp => ?_
  obtain ⟨cs, hs, hg⟩ := dieGroup_sound (g := p.1) (r := p.2) hp
  obtain ⟨hq, _, _, _⟩ := hg
  rename_i qs ss ks k _ _ _
  rw [List.append_assoc, List.cons_append] at hs
  have hdigits := takeWhile_digits hq.2.2.1 (NoDigit.d (ss ++ ks ++ p.2))
  have hl := hq.2.1
  rw [← hdigits, ← hs] at hl
  simp only [List.takeWhile_cons, h₁, h₂, h₃, if_true, List.length_cons] at hl
  omega

/-! ## Terms and operators -/

theorem term_sound {t : Term} {s r : List Char} (h : term s = some (t, r)) :
    ∃ cs, s = cs ++ r ∧ t.Spelled cs := by
  unfold term at h
  split at h
  · next g r' hg =>
    cases h
    obtain ⟨cs, hs, hc⟩ := dieGroup_sound hg
    exact ⟨cs, hs, .dice hc⟩
  · simp only [literal, Option.map_map, Option.map_eq_some_iff] at h
    obtain ⟨⟨n, r'⟩, hn, h⟩ := h
    cases h
    obtain ⟨ds, hs, hd⟩ := number_sound hn
    exact ⟨ds, hs, .literal hd⟩

theorem term_append {t : Term} {cs r : List Char} (h : t.Spelled cs) (hr : Detached r) :
    term (cs ++ r) = some (t, r) := by
  cases h with
  | literal hd =>
    simp only [term, dieGroup_eq_none hd.2.2.1 hr, literal, number_append hd hr.noDigit,
      Option.map_some, Int.ofNat_eq_natCast]
  | dice hg => simp only [term, dieGroup_append hg hr]

theorem operator_eq_some_iff {op : Operator} {s r : List Char} :
    operator s = some (op, r) ↔ s = op.symbol :: r := by
  constructor
  · intro h
    unfold operator at h
    split at h <;> cases h <;> rfl
  · rintro rfl
    cases op <;> rfl

end Token

/-- A term starts with a digit. -/
theorem Term.Spelled.head {t : Term} {cs : List Char} (h : t.Spelled cs) :
    ∃ c cs', cs = c :: cs' ∧ c.isDigit := by
  have digits : ∀ {limit n} {ds : List Char}, Numeral limit ds n →
      ∃ c ds', ds = c :: ds' ∧ c.isDigit := fun {_ _ ds} hd => by
    obtain ⟨c, ds', rfl⟩ := List.exists_cons_of_length_pos hd.1
    exact ⟨c, ds', rfl, hd.2.2.1 c List.mem_cons_self⟩
  cases h with
  | literal hd => exact digits hd
  | dice hg =>
    obtain ⟨hq, _, _, _⟩ := hg
    obtain ⟨c, ds', rfl, hc⟩ := digits hq
    exact ⟨c, _, rfl, hc⟩

/-! ## What may follow

A recogniser may go on beyond a spelling, but not do without it. -/

/-- Digits stand for less than the power of ten with as many zeros. -/
theorem ofDigitChars_lt {ds : List Char} (hd : ∀ c ∈ ds, c.isDigit) :
    Nat.ofDigitChars 10 ds 0 < 10 ^ ds.length := by
  induction ds with
  | nil => simp
  | cons c ds ih =>
    have hc : c.toNat - '0'.toNat ≤ 9 := by
      have := hd c List.mem_cons_self
      simp only [Char.isDigit, Bool.and_eq_true, decide_eq_true_eq] at this
      have h2 : c.toNat ≤ 57 := this.2
      have h0 : ('0' : Char).toNat = 48 := rfl
      omega
    have ih := ih fun c' h => hd c' (List.mem_cons_of_mem _ h)
    have hm := Nat.mul_le_mul_left (10 ^ ds.length) hc
    rw [Nat.ofDigitChars_cons, Nat.ofDigitChars_eq_ofDigitChars_zero, List.length_cons,
      Nat.pow_succ]
    simp only [Nat.mul_zero, Nat.zero_add]
    omega

theorem Numeral.le {limit n : Nat} {ds : List Char} (h : Numeral limit ds n) : n < 10 ^ limit := by
  obtain ⟨-, hle, hd, rfl⟩ := h
  exact Nat.lt_of_lt_of_le (ofDigitChars_lt hd) (Nat.pow_le_pow_right (by decide) hle)

namespace Token

/-- In front of any text a number is recognised as itself or as one with more
digits. -/
theorem number_extends {limit n : Nat} {ds : List Char} (h : Numeral limit ds n) (x : List Char) :
    ∃ n' r, number limit (ds ++ x) = some (n', r) ∧ n ≤ n' := by
  refine ⟨_, _, number_append_eq h x, ?_⟩
  rw [← h.2.2.2, Nat.ofDigitChars_append,
    Nat.ofDigitChars_eq_ofDigitChars_zero (l := List.takeWhile _ _)]
  exact Nat.le_trans (Nat.le_mul_of_pos_left _ (Nat.pow_pos (by decide))) (Nat.le_add_right _ _)

theorem sides_extends {n : Nat} {ds : List Char} (h : SidesSpelled ds n) (x : List Char) :
    ∃ n' r, sides (ds ++ x) = some (n', r) := by
  rcases h with ⟨rfl, rfl⟩ | ⟨hd, hn⟩
  · exact ⟨100, x, rfl⟩
  · unfold sides
    split
    · exact ⟨100, _, rfl⟩
    · obtain ⟨n', r, h, hle⟩ := number_extends hd x
      refine ⟨n', r, ?_⟩
      rw [h]
      exact Option.filter_eq_some_iff.mpr ⟨rfl, by simpa using Nat.le_trans hn hle⟩

theorem quantity_range {n : Nat} {s r : List Char} (h : quantity s = some (n, r)) :
    1 ≤ n ∧ n ≤ 99 := by
  obtain ⟨_, _, hnumeral⟩ := quantity_sound h
  have hpos : 1 ≤ n := by simpa using (Option.filter_eq_some_iff.mp h).2
  exact ⟨hpos, Nat.le_of_lt_succ hnumeral.le⟩

theorem sides_range {n : Nat} {s r : List Char} (h : sides s = some (n, r)) :
    1 ≤ n ∧ n ≤ 100 := by
  obtain ⟨_, _, hundred | ⟨hnumeral, hpos⟩⟩ := sides_sound h
  · omega
  · exact ⟨hpos, Nat.le_of_lt hnumeral.le⟩

/-- A quantity and sides behind it are enough for a group. -/
theorem exists_dieGroup {q n : Nat} {s s₁ s₂ : List Char} (hq : quantity s = some (q, s₁))
    (hn : dieSides s₁ = some (n, s₂)) :
    ∃ g r, dieGroup s = some (g, r) ∧ g.quantity = q := by
  obtain ⟨t, -, ht⟩ := dieSides_eq_some_iff.mp hn
  obtain ⟨g, hg⟩ := DieGroup.exists_create (quantity_range hq) (sides_range ht) (keepOrAll s₂).1
  obtain ⟨rfl, rfl, hkeep⟩ := DieGroup.create_eq_ok_iff.mp hg
  exact ⟨g, _, dieGroup_eq_some_iff.mpr ⟨s₁, s₂, _, hq, hn, rfl, hkeep⟩, rfl⟩

/-- A group at the start of a text fixes the quantity of the group that is
recognised there. -/
theorem dieGroup_quantity {g : DieGroup} {cs : List Char} (h : DieGroup.Spelled cs g)
    (x : List Char) : ∃ g' r, dieGroup (cs ++ x) = some (g', r) ∧ g'.quantity = g.quantity := by
  obtain ⟨hq, hs, _, _⟩ := h
  rename_i qs ss ks _ _ _
  obtain ⟨n, r, hsides⟩ := sides_extends hs (ks ++ x)
  rw [List.append_assoc, List.cons_append, List.append_assoc]
  exact exists_dieGroup (quantity_append hq g.quantity_pos (NoDigit.d (ss ++ (ks ++ x))))
    (dieSides_eq_some_iff.mpr ⟨_, rfl, hsides⟩)

/-- A term is missing where no digit stands. -/
theorem term_eq_none_iff {c : Char} {s : List Char} :
    term (c :: s) = none ↔ c.isDigit = false := by
  constructor
  · intro h
    cases hc : c.isDigit with
    | false => rfl
    | true =>
      have hd : Numeral 3 [c] _ := .singleton (by decide) hc
      obtain ⟨n, r, hn, -⟩ := number_extends hd s
      unfold term at h
      split at h
      · cases h
      · rw [List.singleton_append] at hn
        simp [literal, hn] at h
  · intro hc
    cases h : term (c :: s) with
    | none => rfl
    | some p =>
      obtain ⟨cs, hs, ht⟩ := term_sound (t := p.1) (r := p.2) h
      obtain ⟨c', cs', rfl, hc'⟩ := ht.head
      cases hs
      rw [hc] at hc'
      cases hc'

end Token

end DiceEngine
