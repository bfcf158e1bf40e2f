import DiceEngine.Proofs.Spelling
import Mathlib.Data.List.Basic

/-!
# How far a token looks

A recogniser takes a run of characters off the start of a text, and little of what stands behind
the run tells what it finds. In front of a text that is detached from the token it finds what it
finds without it, and nothing where it finds nothing (`Token.Passes`). And where it has found
something, three characters behind it have told that nothing longer stands there
(`Token.Settled`): in `12d0` a number is found, and behind the next character it is settled
whether it stays one. Both are shown of a recogniser from the smaller ones it is made of, down to
the number, which goes on as far as there are digits.

The two and the spellings of the tokens make each recogniser local (`Token.Local`,
`Token.local_of_spelling`). Where a text ends before the third character, its end is one of the
things that tell (`Token.end_of_text_counts`).
-/

namespace DiceEngine

namespace Token

variable {α β : Type}

/-! ## Detached texts -/

section Passes

variable {r : List Char}

/-- In front of this text the recogniser finds what it finds without it, and leaves it unread. -/
def Passes (r : List Char) (recognise : List Char → Option (α × List Char)) : Prop :=
  ∀ s, recognise (s ++ r) = (recognise s).map fun found => (found.1, found.2 ++ r)

theorem Passes.filter {recognise : List Char → Option (α × List Char)}
    (h : Passes r recognise) (p : α → Bool) :
    Passes r fun s => (recognise s).filter fun found => p found.1 := by
  intro s
  simp only [h s]
  cases recognise s with
  | none => rfl
  | some found =>
    cases hp : p found.1 <;> simp [Option.filter, hp]

theorem number_passes (hr : NoDigit r) (limit : Nat) : Passes r (number limit) := by
  intro s
  -- The digits that are taken are the same with `r` and without it.
  have hdigits : ((s ++ r).take limit).takeWhile Char.isDigit =
      (s.take limit).takeWhile Char.isDigit := by
    rw [List.take_append, List.takeWhile_append]
    split
    · next hall =>
      have hnone : (r.take (limit - s.length)).takeWhile Char.isDigit = [] :=
        takeWhile_digits (List.forall_mem_nil _) (hr.take _)
      rw [hnone, List.append_nil, (List.takeWhile_prefix Char.isDigit).eq_of_length hall]
    · rfl
  have hle : ((s.take limit).takeWhile Char.isDigit).length ≤ s.length :=
    ((List.takeWhile_sublist _).trans (List.take_sublist _ _)).length_le
  simp only [number, hdigits, List.drop_append_of_le_length hle]
  split <;> rfl

theorem quantity_passes (hr : NoDigit r) : Passes r quantity :=
  (number_passes hr 2).filter fun n => 1 ≤ n

/-- What begins with no digit does not complete `100`. -/
theorem exists_hundred (hr : NoDigit r) {s t : List Char} (h : s ++ r = '1' :: '0' :: '0' :: t) :
    ∃ t', s = '1' :: '0' :: '0' :: t' := by
  have hne : ∀ {c : Char} {u : List Char}, r = c :: u → c.isDigit = false := by
    intro c u hu
    exact hr c (by rw [hu]; rfl)
  match s with
  | [] => exact absurd (hne h) (by decide)
  | [_] =>
    simp only [List.cons_append, List.nil_append, List.cons.injEq] at h
    exact absurd (hne h.2) (by decide)
  | [_, _] =>
    simp only [List.cons_append, List.nil_append, List.cons.injEq] at h
    exact absurd (hne h.2.2) (by decide)
  | _ :: _ :: _ :: t' =>
    simp only [List.cons_append, List.cons.injEq] at h
    exact ⟨t', by rw [h.1, h.2.1, h.2.2.1]⟩

theorem sides_passes (hr : NoDigit r) : Passes r sides := by
  intro s
  by_cases h : ∃ t, s = '1' :: '0' :: '0' :: t
  · obtain ⟨t, rfl⟩ := h
    rfl
  · rw [sides_eq_quantity fun t ht => h ⟨t, ht⟩,
      sides_eq_quantity fun t ht => h (exists_hundred hr ht)]
    exact quantity_passes hr s

theorem selector_passes (hr : Detached r) : Passes r selector := by
  intro s
  cases s with
  | nil =>
    show selector r = none
    exact selector_eq_none hr
  | cons c s =>
    rw [List.cons_append]
    unfold selector
    split <;> simp_all

theorem keep_passes (hr : Detached r) : Passes r keep := by
  intro s
  simp only [keep, Option.bind_eq_bind, selector_passes hr s]
  cases selector s with
  | none => rfl
  | some found =>
    simp only [Option.map_some, Option.bind_some, number_passes hr.noDigit 3 found.2]
    cases number 3 found.2 <;> rfl

theorem keepOrAll_append_detached (hr : Detached r) (s : List Char) :
    keepOrAll (s ++ r) = ((keepOrAll s).1, (keepOrAll s).2 ++ r) := by
  simp only [keepOrAll, keep_passes hr s]
  cases keep s <;> rfl

theorem dieSides_passes (hr : Detached r) : Passes r dieSides := by
  intro s
  cases s with
  | nil =>
    show dieSides r = none
    refine Option.eq_none_iff_forall_ne_some.mpr fun found hfound => ?_
    obtain ⟨t, ht, -⟩ := dieSides_eq_some_iff.mp hfound
    exact (hr 'd' (by rw [ht]; rfl)).2.1 rfl
  | cons c s =>
    rw [List.cons_append]
    unfold dieSides
    split
    · next heq =>
      obtain ⟨rfl, rfl⟩ := List.cons.inj heq
      exact sides_passes hr.noDigit s
    · next hother =>
      split
      · next heq => exact absurd (by rw [(List.cons.inj heq).1]) (hother (s ++ r))
      · rfl

/-- What is detached from a group does not change which group is found, or whether one is. -/
theorem dieGroup_passes (hr : Detached r) : Passes r dieGroup := by
  intro s
  simp only [dieGroup, Option.bind_eq_bind, quantity_passes hr.noDigit s]
  cases quantity s with
  | none => rfl
  | some q =>
    simp only [Option.map_some, Option.bind_some, dieSides_passes hr q.2]
    cases dieSides q.2 with
    | none => rfl
    | some n =>
      simp only [Option.map_some, Option.bind_some, keepOrAll_append_detached hr n.2]
      cases (DieGroup.create q.1 n.1 (keepOrAll n.2).1).toOption <;> rfl

theorem literal_passes (hr : NoDigit r) : Passes r literal := by
  intro s
  simp only [literal, number_passes hr 3 s]
  cases number 3 s <;> rfl

theorem term_passes (hr : Detached r) : Passes r term := by
  intro s
  simp only [term, dieGroup_passes hr s]
  cases dieGroup s with
  | some found => rfl
  | none =>
    simp only [Option.map_none, literal_passes hr.noDigit s]
    cases literal s <;> rfl

end Passes

/-! ## The characters behind a token -/

/-- The texts begin with the same `k` characters, or end together before. -/
def Alike (k : Nat) (r r' : List Char) : Prop := r.take k = r'.take k

namespace Alike

variable {k : Nat} {r r' : List Char}

theorem mono {j : Nat} (h : Alike k r r') (hj : j ≤ k) : Alike j r r' := by
  have htake := congrArg (List.take j) h
  rwa [List.take_take, List.take_take, Nat.min_eq_left hj] at htake

theorem append_left (h : Alike k r r') (cs : List Char) : Alike k (cs ++ r) (cs ++ r') := by
  rw [Alike, List.take_append, List.take_append]
  exact congrArg _ (h.mono (Nat.sub_le k cs.length))

theorem of_cons {c : Char} (h : Alike (k + 1) (c :: r) (c :: r')) : Alike k r r' :=
  (List.cons.inj h).2

/-- What one of the texts begins with, the other begins with too. -/
theorem exists_append (h : Alike k r r') (cs : List Char) {t' : List Char} (hr : r' = cs ++ t')
    (hcs : cs.length ≤ k) : ∃ t, r = cs ++ t := by
  have hprefix : cs <+: r'.take k := List.prefix_take_iff.mpr ⟨⟨t', hr.symm⟩, hcs⟩
  rw [← h] at hprefix
  obtain ⟨t, ht⟩ := (List.prefix_take_iff.mp hprefix).1
  exact ⟨t, ht.symm⟩

theorem noDigit (h : Alike k r r') (hk : 1 ≤ k) (hr : NoDigit r) : NoDigit r' := by
  intro c hc
  obtain ⟨t', ht'⟩ := List.head?_eq_some_iff.mp hc
  obtain ⟨t, rfl⟩ := h.exists_append [c] ht' hk
  exact hr c rfl

end Alike

/-- Behind what is found, three characters tell that it ends there. -/
def Settled (recognise : List Char → Option (α × List Char)) : Prop :=
  ∀ ⦃cs r : List Char⦄ ⦃v : α⦄, recognise (cs ++ r) = some (v, r) →
    ∀ ⦃r' : List Char⦄, Alike 3 r r' → recognise (cs ++ r') = some (v, r')

theorem Settled.filter {recognise : List Char → Option (α × List Char)} (h : Settled recognise)
    (p : α → Bool) : Settled fun s => (recognise s).filter fun found => p found.1 := by
  intro cs r v hfound r' ha
  obtain ⟨hfound, hp⟩ := Option.filter_eq_some_iff.mp hfound
  exact Option.filter_eq_some_iff.mpr ⟨h hfound ha, hp⟩

theorem Settled.map {recognise : List Char → Option (α × List Char)} (h : Settled recognise)
    (f : α → β) : Settled fun s => (recognise s).map fun found => (f found.1, found.2) := by
  intro cs r v hmap r' ha
  obtain ⟨⟨w, t⟩, hfound, heq⟩ := Option.map_eq_some_iff.mp hmap
  obtain ⟨rfl, rfl⟩ := Prod.mk.inj heq
  exact Option.map_eq_some_iff.mpr ⟨_, h hfound ha, rfl⟩

theorem number_settled (limit : Nat) : Settled (number limit) := by
  intro cs r n h r' ha
  obtain ⟨hd, hend⟩ := number_append_iff.mp h
  exact number_append_iff.mpr ⟨hd, hend.imp_right (ha.noDigit (by decide))⟩

theorem quantity_settled : Settled quantity := (number_settled 2).filter fun n => 1 ≤ n

theorem literal_settled : Settled literal := (number_settled 3).map Int.ofNat

theorem sides_settled : Settled sides := by
  intro cs r n h r' ha
  by_cases hundred : ∃ t, cs ++ r = ['1', '0', '0'] ++ t
  · obtain ⟨t, ht⟩ := hundred
    rw [ht] at h
    cases h
    rw [List.append_cancel_right ht]
    rfl
  · have hother : ∀ t, cs ++ r' ≠ ['1', '0', '0'] ++ t := fun t ht =>
      hundred ((ha.append_left cs).exists_append _ ht (Nat.le_refl 3))
    rw [sides_eq_quantity fun t ht => hundred ⟨t, ht⟩] at h
    rw [sides_eq_quantity hother]
    exact quantity_settled h ha

theorem selector_settled : Settled selector := by
  intro cs r sel h r' _
  have hs : cs ++ r = [sel.symbol] ++ r := selector_eq_some_iff.mp h
  rw [List.append_cancel_right hs]
  exact selector_eq_some_iff.mpr rfl

theorem operator_settled : Settled operator := by
  intro cs r op h r' _
  have hs : cs ++ r = [op.symbol] ++ r := operator_eq_some_iff.mp h
  rw [List.append_cancel_right hs]
  exact operator_eq_some_iff.mpr rfl

theorem keep_settled : Settled keep := by
  intro cs r k h r' ha
  obtain ⟨t, hs, hnum⟩ := keep_eq_some_iff.mp h
  obtain ⟨ds, rfl, -⟩ := number_sound hnum
  obtain rfl := List.append_cancel_right (show cs ++ r = k.selector.symbol :: ds ++ r from hs)
  exact keep_eq_some_iff.mpr ⟨ds ++ r', rfl, number_settled 3 hnum ha⟩

/-- Whether a count of kept dice follows is told by the selector and a digit. -/
theorem exists_keep_of_alike {s s' r : List Char} {k : Keep} (h : keep s' = some (k, r))
    (ha : Alike 2 s s') : ∃ found, keep s = some found := by
  obtain ⟨t', rfl, hnum⟩ := keep_eq_some_iff.mp h
  obtain ⟨ds, rfl, hd⟩ := number_sound hnum
  obtain ⟨c, ds, rfl⟩ := List.exists_cons_of_length_pos hd.1
  obtain ⟨t, rfl⟩ := ha.exists_append [k.selector.symbol, c] rfl (Nat.le_refl 2)
  have hdigit : Numeral 3 [c] _ := .singleton (by decide) (hd.2.2.1 c List.mem_cons_self)
  obtain ⟨n, r', hn, -⟩ := number_extends hdigit t
  exact ⟨(⟨k.selector, n⟩, r'), keep_eq_some_iff.mpr ⟨_, rfl, hn⟩⟩

theorem keepOrAll_of_alike {cs r r' : List Char} {k : Option Keep}
    (h : keepOrAll (cs ++ r) = (k, r)) (ha : Alike 3 r r') : keepOrAll (cs ++ r') = (k, r') := by
  unfold keepOrAll at h
  split at h
  · next k r hk =>
    cases h
    simp only [keepOrAll, keep_settled hk ha]
  · next hk =>
    -- Nothing is taken, and a selector in front of a digit would be.
    obtain ⟨rfl, hcs⟩ := Prod.mk.inj h
    obtain rfl : cs = [] := List.append_left_eq_self.mp hcs
    have hnone : keep r' = none := by
      refine Option.eq_none_iff_forall_ne_some.mpr fun found hfound => ?_
      obtain ⟨found', hfound'⟩ := exists_keep_of_alike hfound (ha.mono (by decide))
      rw [List.nil_append, hfound'] at hk
      cases hk
    simp only [keepOrAll, List.nil_append, hnone]

theorem dieSides_settled : Settled dieSides := by
  intro cs r n h r' ha
  obtain ⟨t, hs, hn⟩ := dieSides_eq_some_iff.mp h
  obtain ⟨ss, rfl, -⟩ := sides_sound hn
  obtain rfl := List.append_cancel_right (show cs ++ r = 'd' :: ss ++ r from hs)
  exact dieSides_eq_some_iff.mpr ⟨ss ++ r', rfl, sides_settled hn ha⟩

theorem dieGroup_settled : Settled dieGroup := by
  intro cs r g h r' ha
  obtain ⟨s₁, s₂, k, hq, hn, hk, hkeep⟩ := dieGroup_eq_some_iff.mp h
  obtain ⟨t, rfl, ht⟩ := dieSides_eq_some_iff.mp hn
  obtain ⟨qs, hs, -⟩ := quantity_sound hq
  obtain ⟨ss, rfl, -⟩ := sides_sound ht
  obtain ⟨ks, hs₂, -⟩ := keepOrAll_sound s₂
  rw [hk] at hs₂
  subst hs₂
  have hcs : cs = qs ++ ('d' :: ss ++ ks) := by
    refine List.append_cancel_right (hs.trans ?_)
    simp only [List.append_assoc, List.cons_append]
  rw [hs] at hq
  have hk' := keepOrAll_of_alike hk ha
  have hn' := dieSides_settled (show dieSides ('d' :: ss ++ (ks ++ r)) = _ from hn)
    (ha.append_left ks)
  have hq' := quantity_settled hq ((ha.append_left ks).append_left ('d' :: ss))
  rw [hcs, List.append_assoc, List.append_assoc]
  exact dieGroup_eq_some_iff.mpr ⟨_, _, k, hq', hn', hk', hkeep⟩

/-- Whether sides follow is told by two characters. -/
theorem exists_sides_of_alike {t t' r : List Char} {n : Nat} (h : sides t' = some (n, r))
    (ha : Alike 2 t t') : ∃ found, sides t = some found := by
  obtain ⟨ss, hs, hss⟩ := sides_sound h
  obtain ⟨ds, u', m, hu, hl, hd⟩ :
      ∃ ds u' m, t' = ds ++ u' ∧ ds.length ≤ 2 ∧ SidesSpelled ds m := by
    rcases hss with ⟨rfl, -⟩ | hnumeral
    · have hten : Numeral 2 ['1', '0'] 10 := ⟨by decide, by decide, List.all_eq_true.mp rfl, rfl⟩
      exact ⟨['1', '0'], '0' :: r, 10, hs, by decide, .inr ⟨hten, by decide⟩⟩
    · exact ⟨ss, r, n, hs, hnumeral.1.2.1, .inr hnumeral⟩
  obtain ⟨u, rfl⟩ := ha.exists_append ds hu hl
  obtain ⟨n', r', hsides⟩ := sides_extends hd u
  exact ⟨_, hsides⟩

/-- In front of a number that is no group, three characters tell that it begins none: a `d` and
two more. -/
theorem dieGroup_eq_none_of_alike {cs r r' : List Char} {n : Nat}
    (hn : number 3 (cs ++ r) = some (n, r)) (h : dieGroup (cs ++ r) = none)
    (ha : Alike 3 r r') : dieGroup (cs ++ r') = none := by
  obtain ⟨hd, hend⟩ := number_append_iff.mp hn
  rcases hend with hl | hr
  · obtain ⟨c₁, c₂, c₃, rfl⟩ := List.length_eq_three.mp hl
    have hdigit := hd.2.2.1
    exact dieGroup_of_three_digits (hdigit c₁ (by simp)) (hdigit c₂ (by simp))
      (hdigit c₃ (by simp)) r'
  · refine Option.eq_none_iff_forall_ne_some.mpr fun found hfound => ?_
    obtain ⟨g, u⟩ := found
    obtain ⟨s₁, s₂, -, hq, hsides, -, -⟩ := dieGroup_eq_some_iff.mp hfound
    obtain ⟨t', rfl, ht'⟩ := dieSides_eq_some_iff.mp hsides
    obtain ⟨qs, hs, hqs⟩ := quantity_sound hq
    -- The quantity is the number, so the `d` stands behind the number.
    obtain rfl := eq_d_of_digits hd.2.2.1 hqs.2.2.1 (ha.noDigit (by decide) hr) hs
    obtain rfl := List.append_cancel_right hs
    obtain ⟨t, rfl⟩ := ha.exists_append ['d'] rfl (by decide)
    obtain ⟨found, hfound⟩ := exists_sides_of_alike ht' (Alike.of_cons ha)
    have hq' := quantity_append hqs g.quantity_pos (NoDigit.d t)
    obtain ⟨g', r'', hg', -⟩ := exists_dieGroup hq'
      (dieSides_eq_some_iff.mpr ⟨t, rfl, hfound⟩ : dieSides ('d' :: t) = some (found.1, found.2))
    rw [List.singleton_append, hg'] at h
    cases h

theorem term_settled : Settled term := by
  intro cs r t h r' ha
  unfold term at h
  split at h
  · next g r hg =>
    cases h
    simp only [term, dieGroup_settled hg ha]
  · next hnone =>
    obtain ⟨⟨n, r⟩, hn, heq⟩ := Option.map_eq_some_iff.mp h
    cases heq
    obtain ⟨⟨m, r⟩, hm, heq⟩ := Option.map_eq_some_iff.mp hn
    cases heq
    simp only [term, dieGroup_eq_none_of_alike hm hnone ha, literal_settled hn ha,
      Option.map_some]

/-! ## Local recognisers -/

/-- A recogniser takes the characters `cs` off a text, of which `r` is left, and answers with `v`. -/
structure Takes (recognise : List Char → Option (α × List Char)) (cs r : List Char) (v : α) :
    Prop where
  ne_nil : cs ≠ []
  ascii : ∀ c ∈ cs, c.toNat < 128
  alone : recognise cs = some (v, [])
  /-- Three characters behind them settle this, or fewer at the end of a text and in front of what
  is detached. -/
  ahead : ∀ x, 3 ≤ r.length ∨ Detached x →
    recognise (cs ++ (r.take 3 ++ x)) = some (v, r.take 3 ++ x)

/-- All that is found in a text is found in some characters at its start, and depends on no others
than these and three behind them. -/
def Local (recognise : List Char → Option (α × List Char)) : Prop :=
  ∀ ⦃s r : List Char⦄ ⦃v : α⦄, recognise s = some (v, r) →
    ∃ cs, s = cs ++ r ∧ Takes recognise cs r v

section Local

variable {recognise : List Char → Option (α × List Char)}

theorem Passes.found {x s r : List Char} {v : α} (h : Passes x recognise)
    (hfound : recognise s = some (v, r)) : recognise (s ++ x) = some (v, r ++ x) := by
  rw [h s, hfound]
  rfl

/-- A recogniser of ASCII spellings is local, where what it finds stays in front of detached texts
and is settled. -/
theorem local_of_spelling {S : List Char → α → Prop}
    (hsound : ∀ {s r v}, recognise s = some (v, r) → ∃ cs, s = cs ++ r ∧ S cs v)
    (hchars : ∀ {cs v}, S cs v → cs ≠ [] ∧ ∀ c ∈ cs, c.toNat < 128)
    (halone : ∀ {cs v}, S cs v → recognise (cs ++ []) = some (v, []))
    (hdetached : ∀ {x}, Detached x → ∀ {s r v}, recognise s = some (v, r) →
      recognise (s ++ x) = some (v, r ++ x))
    (hsettled : Settled recognise) : Local recognise := by
  intro s r v h
  obtain ⟨cs, rfl, hcs⟩ := hsound h
  refine ⟨cs, rfl, (hchars hcs).1, (hchars hcs).2, ?_, fun x hx => ?_⟩
  · rw [← halone hcs, List.append_nil]
  · by_cases hr : 3 ≤ r.length
    · refine hsettled h ?_
      rw [Alike, List.take_append_of_le_length (by rw [List.length_take]; omega), List.take_take,
        Nat.min_self]
    · rw [List.take_of_length_le (by omega), ← List.append_assoc]
      exact hdetached (hx.resolve_left hr) h

theorem Local.filter (h : Local recognise) (p : α → Bool) :
    Local fun s => (recognise s).filter fun found => p found.1 := by
  intro s r v hfound
  obtain ⟨hfound, hp⟩ := Option.filter_eq_some_iff.mp hfound
  obtain ⟨cs, hs, htakes⟩ := h hfound
  refine ⟨cs, hs, htakes.ne_nil, htakes.ascii, ?_, fun x hx => ?_⟩
  · exact Option.filter_eq_some_iff.mpr ⟨htakes.alone, hp⟩
  · exact Option.filter_eq_some_iff.mpr ⟨htakes.ahead x hx, hp⟩

theorem Local.map (h : Local recognise) (f : α → β) :
    Local fun s => (recognise s).map fun found => (f found.1, found.2) := by
  intro s r v hmap
  obtain ⟨⟨w, t⟩, hfound, heq⟩ := Option.map_eq_some_iff.mp hmap
  obtain ⟨rfl, rfl⟩ := Prod.mk.inj heq
  obtain ⟨cs, hs, htakes⟩ := h hfound
  refine ⟨cs, hs, htakes.ne_nil, htakes.ascii, ?_, fun x hx => ?_⟩
  · exact Option.map_eq_some_iff.mpr ⟨_, htakes.alone, rfl⟩
  · exact Option.map_eq_some_iff.mpr ⟨_, htakes.ahead x hx, rfl⟩

end Local

theorem ascii_of_digit {c : Char} (h : c.isDigit) : c.toNat < 128 := by
  simp only [Char.isDigit, Bool.and_eq_true, decide_eq_true_eq] at h
  have hle : c.toNat ≤ 57 := h.2
  omega

theorem ascii_symbol (sel : Selector) : sel.symbol.toNat < 128 := by cases sel <;> decide

theorem number_local (limit : Nat) : Local (number limit) :=
  local_of_spelling number_sound
    (fun hd => ⟨List.ne_nil_of_length_pos hd.1, fun c hc => ascii_of_digit (hd.2.2.1 c hc)⟩)
    (fun hd => number_append hd Detached.nil.noDigit)
    (fun hx => (number_passes hx.noDigit limit).found) (number_settled limit)

theorem quantity_local : Local quantity := (number_local 2).filter fun n => 1 ≤ n

theorem literal_local : Local literal := (number_local 3).map Int.ofNat

theorem sides_local : Local sides := by
  refine local_of_spelling sides_sound (fun hss => ⟨?_, fun c hc => ?_⟩)
    (fun hss => sides_append hss Detached.nil.noDigit)
    (fun hx => (sides_passes hx.noDigit).found) sides_settled
  · rcases hss with ⟨rfl, -⟩ | ⟨hd, -⟩
    · exact List.cons_ne_nil _ _
    · exact List.ne_nil_of_length_pos hd.1
  · exact ascii_of_digit (hss.digits c hc)

theorem selector_local : Local selector := by
  refine local_of_spelling (S := fun cs sel => cs = [sel.symbol])
    (fun h => ⟨_, selector_eq_some_iff.mp h, rfl⟩) (fun hcs => ?_) (fun hcs => ?_)
    (fun hx => (selector_passes hx).found) selector_settled
  · subst hcs
    exact ⟨List.cons_ne_nil _ _, List.forall_mem_singleton.mpr (ascii_symbol _)⟩
  · subst hcs
    exact selector_eq_some_iff.mpr rfl

theorem keep_local : Local keep := by
  refine local_of_spelling keep_sound (fun hks => ?_)
    (fun hks => keep_append hks Detached.nil.noDigit) (fun hx => (keep_passes hx).found)
    keep_settled
  cases hks with
  | @few sel ds n hd =>
    refine ⟨List.cons_ne_nil _ _, List.forall_mem_cons.mpr ⟨ascii_symbol sel, fun c hc => ?_⟩⟩
    exact ascii_of_digit (hd.2.2.1 c hc)

theorem ascii_dieGroup {g : DieGroup} {cs : List Char} (h : DieGroup.Spelled cs g) :
    ∀ c ∈ cs, c.toNat < 128 := by
  intro c hc
  rcases h.chars c hc with hd | rfl | ⟨sel, rfl⟩
  · exact ascii_of_digit hd
  · decide
  · exact ascii_symbol sel

theorem term_local : Local term := by
  refine local_of_spelling term_sound (fun ht => ⟨?_, ?_⟩) (fun ht => term_append ht Detached.nil)
    (fun hx => (term_passes hx).found) term_settled
  · obtain ⟨c, cs, rfl, -⟩ := ht.head
    exact List.cons_ne_nil _ _
  · cases ht with
    | literal hd => exact fun c hc => ascii_of_digit (hd.2.2.1 c hc)
    | dice hg => exact ascii_dieGroup hg

theorem dieGroup_local : Local dieGroup := by
  refine local_of_spelling dieGroup_sound (fun hg => ⟨?_, ascii_dieGroup hg⟩)
    (fun hg => dieGroup_append hg Detached.nil) (fun hx => (dieGroup_passes hx).found)
    dieGroup_settled
  obtain ⟨c, cs, rfl, -⟩ := (Term.Spelled.dice hg).head
  exact List.cons_ne_nil _ _

theorem operator_local : Local operator := by
  refine local_of_spelling (S := fun cs op => cs = [op.symbol])
    (fun h => ⟨_, operator_eq_some_iff.mp h, rfl⟩) ?_ (fun hcs => ?_) (fun _ => ?_)
    operator_settled
  · intro cs op hcs
    subst hcs
    refine ⟨List.cons_ne_nil _ _, List.forall_mem_singleton.mpr ?_⟩
    cases op <;> decide
  · subst hcs
    exact operator_eq_some_iff.mpr rfl
  · intro s r op h
    rw [operator_eq_some_iff.mp h]
    exact operator_eq_some_iff.mpr rfl

/-- Each recogniser takes a run of ASCII characters that is not empty, leaves the rest of the text
as it is, and finds the same in the run alone. Of what stands behind the run three characters count,
and the end of the text where there are fewer. -/
theorem recognisers_are_local : Local quantity ∧ Local sides ∧ Local selector ∧ Local keep ∧
    Local dieGroup ∧ Local literal ∧ Local term ∧ Local operator :=
  ⟨quantity_local, sides_local, selector_local, keep_local, dieGroup_local, literal_local,
    term_local, operator_local⟩

/-- The end of a text counts: in `4d6v` all dice are kept and the selector is left over, but not
where a digit comes behind it. -/
theorem end_of_text_counts : ¬ ∀ (s cs r : List Char) (g : DieGroup),
    dieGroup s = some (g, r) → s = cs ++ r →
      ∀ s', cs ++ r.take 3 <+: s' → ∃ r', dieGroup s' = some (g, r') ∧ s' = cs ++ r' := by
  intro h
  have hall : dieGroup ['4', 'd', '6', 'v'] = some (⟨4, 6, none, by decide, by decide, by decide,
      by decide, by decide⟩, ['v']) := by decide +kernel
  have hfew : dieGroup ['4', 'd', '6', 'v', '2'] = some (⟨4, 6, some ⟨.lowest, 2⟩, by decide,
      by decide, by decide, by decide, by decide⟩, []) := by decide +kernel
  obtain ⟨r', hread, -⟩ := h _ ['4', 'd', '6'] _ _ hall rfl ['4', 'd', '6', 'v', '2'] (by decide)
  rw [hfew] at hread
  cases hread

end Token

end DiceEngine
