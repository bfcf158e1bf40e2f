import DiceEngine.Proofs.Attained
import DiceEngine.Proofs.Expectation
import Mathlib.Tactic.Linarith

/-!
# Expected totals between the bounds

The expected total of an expression lies strictly between its bounds, unless
they are the same (`Between`), and it lies in the middle where every die that is
thrown counts (`Middle`). Both hold term by term: a term shows every value
between its bounds, so its average is neither of them (`average_between`). And
both are kept by sums and turned around by signs (`JoinInvariant`), which carries
them through the fold that the bounds and the expected total have in common
(`JoinInvariant.foldlM`).
-/

namespace DiceEngine

/-! ## Numbers between numbers -/

/-- A number strictly between two others, or the same as both of them. -/
def Between (lo x hi : ℚ) : Prop := (lo = x ∧ x = hi) ∨ (lo < x ∧ x < hi)

/-- A number in the middle of two others. -/
def Middle (lo x hi : ℚ) : Prop := x = (lo + hi) / 2

/-- What sums keep and signs turn around. -/
structure JoinInvariant (R : ℚ → ℚ → ℚ → Prop) : Prop where
  zero : R 0 0 0
  add : ∀ {lo x hi lo' x' hi'}, R lo x hi → R lo' x' hi' → R (lo + lo') (x + x') (hi + hi')
  neg : ∀ {lo x hi}, R lo x hi → R (-hi) (-x) (-lo)

theorem joinInvariant_between : JoinInvariant Between where
  zero := .inl ⟨rfl, rfl⟩
  add := by
    rintro lo x hi lo' x' hi' (⟨rfl, rfl⟩ | ⟨hl, hh⟩) (⟨rfl, rfl⟩ | ⟨hl', hh'⟩)
    · exact .inl ⟨rfl, rfl⟩
    · exact .inr ⟨by linarith, by linarith⟩
    · exact .inr ⟨by linarith, by linarith⟩
    · exact .inr ⟨add_lt_add hl hl', add_lt_add hh hh'⟩
  neg := by
    rintro lo x hi (⟨rfl, rfl⟩ | ⟨hl, hh⟩)
    · exact .inl ⟨rfl, rfl⟩
    · exact .inr ⟨neg_lt_neg hh, neg_lt_neg hl⟩

theorem joinInvariant_middle : JoinInvariant Middle where
  zero := by norm_num [Middle]
  add := by
    rintro lo x hi lo' x' hi' rfl rfl
    rw [Middle]
    ring
  neg := by
    rintro lo x hi rfl
    rw [Middle]
    ring

/-! ## Terms -/

/-- An average is less where nothing is more and something is less. -/
theorem average_lt_average {β : Type} {xs : List β} {f g : β → ℚ} (hle : ∀ x ∈ xs, f x ≤ g x)
    (hlt : ∃ x ∈ xs, f x < g x) : average xs f < average xs g := by
  obtain ⟨x, hx, hfx⟩ := hlt
  have hpos : 0 < (xs.length : ℚ) := Nat.cast_pos.mpr (List.length_pos_of_mem hx)
  exact div_lt_div_of_pos_right (List.sum_lt_sum f g hle ⟨x, hx, hfx⟩) hpos

/-- The average of what reaches both of its bounds. -/
theorem average_between {β : Type} {xs : List β} {f : β → ℚ} {lo hi : ℚ}
    (hrange : ∀ x ∈ xs, lo ≤ f x ∧ f x ≤ hi) (hlo : ∃ x ∈ xs, f x = lo) (hhi : ∃ x ∈ xs, f x = hi) :
    Between lo (average xs f) hi := by
  obtain ⟨a, ha, hfa⟩ := hlo
  obtain ⟨b, hb, hfb⟩ := hhi
  have hconst := fun c => average_const (List.ne_nil_of_mem ha) c
  have hle : lo ≤ hi := hfa ▸ (hrange a ha).2
  rcases eq_or_lt_of_le hle with rfl | hlt
  · have hsame : average xs f = lo := by
      rw [← hconst lo]
      exact average_congr fun x hx => le_antisymm (hrange x hx).2 (hrange x hx).1
    exact .inl ⟨hsame.symm, hsame⟩
  · refine .inr ⟨?_, ?_⟩
    · rw [← hconst lo]
      exact average_lt_average (fun x hx => (hrange x hx).1) ⟨b, hb, by rwa [hfb]⟩
    · rw [← hconst hi]
      exact average_lt_average (fun x hx => (hrange x hx).2) ⟨a, ha, by rwa [hfa]⟩

namespace Term

/-- What a term shows counts for no less than its least value and no more than its greatest. -/
theorem Shows.value_range {t : Term} {o : Outcome} (h : t.Shows o) :
    t.low ≤ o.value ∧ o.value ≤ t.high := by
  cases h with
  | literal value => exact ⟨Int.le_refl _, Int.le_refl _⟩
  | dice h => exact ⟨h.low_le_keptSum, h.keptSum_le_high⟩

/-- A term shows every value between its bounds. -/
theorem exists_shows {t : Term} {v : Int} (hl : t.low ≤ v) (hh : v ≤ t.high) :
    ∃ o, t.Shows o ∧ o.value = v := by
  cases t with
  | literal value => exact ⟨_, .literal value, Int.le_antisymm hl hh⟩
  | dice g =>
    obtain ⟨faces, hthrow, hv⟩ := DieGroup.exists_throw hl hh
    exact ⟨_, .dice hthrow, hv⟩

/-- The expected value of a term is between its bounds. -/
theorem expected_between (t : Term) :
    ∃ x : ℚ, t.expected = .ok x ∧ Between t.low x t.high := by
  have hattained : ∀ v : Int, t.low ≤ v → v ≤ t.high → ∃ o ∈ t.outcomes, (o.value : ℚ) = v := by
    intro v hl hh
    obtain ⟨o, ho, hv⟩ := exists_shows hl hh
    exact ⟨o, mem_outcomes.mpr ho, congrArg _ hv⟩
  refine ⟨_, t.expected_eq_ok, average_between (fun o ho => ?_)
    (hattained _ (Int.le_refl _) t.low_le_high) (hattained _ t.low_le_high (Int.le_refl _))⟩
  obtain ⟨hl, hh⟩ := (mem_outcomes.mp ho).value_range
  exact ⟨Int.cast_le.mpr hl, Int.cast_le.mpr hh⟩

/-- Where all dice of a term count, its expected value is in the middle. -/
theorem expected_middle {t : Term} (h : ∀ g, t = .dice g → g.keepCount = g.quantity) :
    ∃ x : ℚ, t.expected = .ok x ∧ Middle t.low x t.high := by
  cases t with
  | literal value =>
    refine ⟨value, rfl, ?_⟩
    simp only [Middle, low, high]
    ring
  | dice g =>
    have hg := h g rfl
    refine ⟨_, DieGroup.expected_whole hg, ?_⟩
    simp only [Middle, low, high, DieGroup.low, DieGroup.high, hg, DieGroup.expectedAll]
    push_cast
    ring

end Term

/-! ## Expressions -/

namespace JoinInvariant

open Expression (joinLow joinHigh joinExpected bind_eq_ok_iff exists_steps_of_bounds expected_eq)

variable {R : ℚ → ℚ → ℚ → Prop} (hR : JoinInvariant R)

include hR

/-- A term joins the bounds and the expected total. -/
theorem join {op : Operator} {t : Term} {lo hi lo' hi' : Int} {x : ℚ}
    (ht : ∃ y : ℚ, t.expected = .ok y ∧ R t.low y t.high) (h : R lo x hi)
    (hlow : joinLow lo (op, t) = .ok lo') (hhigh : joinHigh hi (op, t) = .ok hi') :
    ∃ x', joinExpected x (op, t) = .ok x' ∧ R lo' x' hi' := by
  obtain ⟨y, hy, ht⟩ := ht
  refine ⟨op.combine x y, by rw [joinExpected, hy]; rfl, ?_⟩
  cases op with
  | add =>
    obtain ⟨-, rfl⟩ := Total.add_eq_ok_iff.mp hlow
    obtain ⟨-, rfl⟩ := Total.add_eq_ok_iff.mp hhigh
    rw [Int.cast_add, Int.cast_add]
    exact hR.add h ht
  | sub =>
    obtain ⟨-, rfl⟩ := Total.sub_eq_ok_iff.mp hlow
    obtain ⟨-, rfl⟩ := Total.sub_eq_ok_iff.mp hhigh
    rw [Int.cast_sub, Int.cast_sub, Operator.combine]
    simp only [sub_eq_add_neg]
    exact hR.add h (hR.neg ht)

/-- The terms of an expression join them one after another. -/
theorem foldlM (steps : List (Operator × Term)) : ∀ {lo hi lo' hi' : Int} {x : ℚ},
    (∀ step ∈ steps, ∃ y : ℚ, step.2.expected = .ok y ∧ R step.2.low y step.2.high) →
    R lo x hi → steps.foldlM joinLow lo = .ok lo' → steps.foldlM joinHigh hi = .ok hi' →
    ∃ x', steps.foldlM joinExpected x = .ok x' ∧ R lo' x' hi' := by
  induction steps with
  | nil =>
    intro lo hi lo' hi' x _ h hlow hhigh
    cases hlow
    cases hhigh
    exact ⟨x, rfl, h⟩
  | cons step steps ih =>
    intro lo hi lo' hi' x hterms h hlow hhigh
    obtain ⟨hterm, hterms⟩ := List.forall_mem_cons.mp hterms
    rw [List.foldlM_cons] at hlow hhigh
    obtain ⟨lo₁, hlow₁, hlow⟩ := bind_eq_ok_iff.mp hlow
    obtain ⟨hi₁, hhigh₁, hhigh⟩ := bind_eq_ok_iff.mp hhigh
    obtain ⟨x₁, hx₁, h₁⟩ := hR.join hterm h hlow₁ hhigh₁
    rw [List.foldlM_cons, hx₁]
    exact ih hterms h₁ hlow hhigh

/-- What every term has, the expression has. -/
theorem expected {e : Expression} {lo hi : Int} (hlo : e.minimum = .ok lo)
    (hhi : e.maximum = .ok hi)
    (h : ∀ t ∈ e.terms, ∃ y : ℚ, t.expected = .ok y ∧ R t.low y t.high) :
    ∃ x : ℚ, e.expected = .ok x ∧ R lo x hi := by
  obtain ⟨steps, hs, hlow, hhigh⟩ := exists_steps_of_bounds hlo hhi
  rw [expected_eq, hs]
  refine hR.foldlM steps (fun step hstep => h step.2 ?_) ?_ hlow hhigh
  · rw [← Expression.map_snd_of_steps hs]
    exact List.mem_map_of_mem hstep
  · rw [Int.cast_zero, Nat.cast_zero]
    exact hR.zero

end JoinInvariant

namespace Expression

/-- An expression with bounds has an expected total. It is both of them where they are the same, and
strictly between them where they are not. Where no group drops a die it is in the middle. -/
theorem expected_between_bounds {e : Expression} {lo hi : Int} (hlo : e.minimum = .ok lo)
    (hhi : e.maximum = .ok hi) :
    ∃ x : ℚ, e.expected = .ok x ∧
      (lo = hi → (lo : ℚ) = x ∧ x = hi) ∧
      (lo ≠ hi → (lo : ℚ) < x ∧ x < hi) ∧
      ((∀ g, Term.dice g ∈ e.terms → g.keepCount = g.quantity) → x = (lo + hi) / 2) := by
  obtain ⟨x, hx, hbetween⟩ := joinInvariant_between.expected hlo hhi fun t _ => t.expected_between
  refine ⟨x, hx, fun hsame => ?_, fun hne => ?_, fun hwhole => ?_⟩
  · rcases hbetween with h | ⟨hl, hh⟩
    · exact h
    · rw [hsame] at hl
      exact absurd (hl.trans hh) (lt_irrefl _)
  · rcases hbetween with ⟨hl, hh⟩ | h
    · exact absurd (Int.cast_injective (hl.trans hh)) hne
    · exact h
  · have hterms : ∀ t ∈ e.terms, ∃ y : ℚ, t.expected = .ok y ∧ Middle t.low y t.high := by
      intro t ht
      exact Term.expected_middle fun g hg => hwhole g (hg ▸ ht)
    obtain ⟨x', hx', hmiddle⟩ := joinInvariant_middle.expected hlo hhi hterms
    rw [hx] at hx'
    cases hx'
    exact hmiddle

/-- All three dice of a group that keeps three, less one die, and ten. -/
theorem expected_between_bounds_three_of_three :
    let e : Expression := ⟨[
      .dice ⟨3, 6, some ⟨.lowest, 3⟩, by decide, by decide, by decide, by decide, by decide⟩,
      .dice ⟨1, 4, none, by decide, by decide, by decide, by decide, by decide⟩,
      .literal 10], [.sub, .add], 4⟩
    e.minimum = .ok 9 ∧ e.maximum = .ok 27 ∧ ∃ x : ℚ, e.expected = .ok x ∧ 9 < x ∧ x < 27 ∧
      x = 18 := by
  intro e
  have hlo : e.minimum = .ok 9 := rfl
  have hhi : e.maximum = .ok 27 := rfl
  obtain ⟨x, hx, -, hstrict, hwhole⟩ := expected_between_bounds hlo hhi
  have hall : ∀ g, Term.dice g ∈ e.terms → g.keepCount = g.quantity := by
    intro g hg
    simp only [e, List.mem_cons, Term.dice.injEq, List.not_mem_nil, or_false] at hg
    rcases hg with rfl | rfl | hg
    · rfl
    · rfl
    · cases hg
  obtain ⟨hl, hh⟩ := hstrict (by decide)
  refine ⟨hlo, hhi, x, hx, by exact_mod_cast hl, by exact_mod_cast hh, ?_⟩
  rw [hwhole hall]
  norm_num

end Expression

end DiceEngine
