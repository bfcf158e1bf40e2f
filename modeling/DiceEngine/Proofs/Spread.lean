import DiceEngine.Proofs.Attained

/-!
# How far apart the bounds are

A term moves the two bounds of an expression apart by the spread of its dice,
whether it is added or subtracted, and a number does not move them apart at all.
So the distance of the bounds is the sum of the spreads of the groups
(`Expression.sub_eq_sum_spread`), in whatever order they come. It has nothing to
do with how large the bounds are: a histogram has room for at most 9901
counters, even where the bounds are near the ends of the range of totals
(`Expression.spread_law`).
-/

namespace DiceEngine.Expression

variable {e : Expression} {lo hi : Int}

/-- The distances of the bounds of some terms add up to the spreads of their groups. -/
theorem sum_high_sub_low (ts : List Term) : (ts.map fun t => t.high - t.low).sum =
    (((ts.flatMap Term.groups).map DieGroup.spread).sum : Nat) := by
  induction ts with
  | nil => rfl
  | cons t ts ih =>
    rw [List.map_cons, List.sum_cons, ih, t.high_sub_low, List.flatMap_cons, List.map_append,
      List.sum_append, Nat.cast_add]

/-- The bounds are as far apart as the spreads of the groups add up to. -/
theorem sub_eq_sum_spread (hlo : e.minimum = .ok lo) (hhi : e.maximum = .ok hi) :
    hi - lo = ((e.groups.map DieGroup.spread).sum : Nat) := by
  rw [spread_eq hlo hhi, sum_high_sub_low, groups]

/-- The histogram of no totals has its size computed, and nothing else. -/
theorem histogram_nil (hlo : e.minimum = .ok lo) (hhi : e.maximum = .ok hi) :
    Simulation.histogram e [] = Simulation.emptyHistogram lo hi := by
  rw [Simulation.histogram, hlo, hhi]
  show (Simulation.emptyHistogram lo hi >>= fun counts => .ok counts) = _
  cases Simulation.emptyHistogram lo hi <;> rfl

/-- Each die that counts moves the bounds apart by one less than its sides, and nothing else does:
neither operators nor numbers, nor the order of the terms. So the bounds are at most 9900 apart, and
the size of a histogram is computed without overflow and is at most 9902. -/
theorem spread_law (hw : e.WellFormed) (hlo : e.minimum = .ok lo) (hhi : e.maximum = .ok hi) :
    hi - lo = ((e.groups.map fun g => g.keepCount * (g.sides - 1)).sum : Nat) ∧
      (∀ (e' : Expression) (lo' hi' : Int), e'.minimum = .ok lo' → e'.maximum = .ok hi' →
        e'.groups.Perm e.groups → hi' - lo' = hi - lo) ∧
      (0 ≤ hi - lo ∧ hi - lo ≤ 9900) ∧
      Total.sub hi lo = .ok (hi - lo) ∧ Total.add (hi - lo) 2 = .ok (hi - lo + 2) ∧
      ∃ counts, Simulation.histogram e [] = .ok counts ∧
        (counts.size : Int) = hi - lo + 2 ∧ counts.size ≤ 9902 := by
  have hspread := spread_le hlo hhi hw
  refine ⟨sub_eq_sum_spread hlo hhi, ?_, hspread, ?_, ?_, ?_⟩
  · intro e' lo' hi' hlo' hhi' hperm
    rw [sub_eq_sum_spread hlo hhi, sub_eq_sum_spread hlo' hhi', (hperm.map _).sum_eq]
  · exact Total.sub_eq_ok_iff.mpr ⟨inRange_of_small (by omega) (by omega), rfl⟩
  · exact Total.add_eq_ok_iff.mpr ⟨inRange_of_small (by omega) (by omega), rfl⟩
  · obtain ⟨counts, hcounts, hsize, -⟩ := exists_emptyHistogram hspread
    exact ⟨counts, (histogram_nil hlo hhi).trans hcounts, hsize, by omega⟩

/-- As many dice as there may be, with as many sides, less than the greatest of all totals. -/
theorem spread_law_hundred_dice :
    let e : Expression := ⟨[.literal 9223372036854775807,
      .dice ⟨99, 100, none, by decide, by decide, by decide, by decide, by decide⟩,
      .dice ⟨1, 100, some ⟨.lowest, 1⟩, by decide, by decide, by decide, by decide, by decide⟩],
      [.sub, .sub], 100⟩
    e.WellFormed ∧ e.minimum = .ok 9223372036854765807 ∧ e.maximum = .ok 9223372036854775707 ∧
      ((9223372036854775707 - 9223372036854765807 : Int) =
        ((e.groups.map fun g => g.keepCount * (g.sides - 1)).sum : Nat)) ∧
      Total.sub 9223372036854775707 9223372036854765807 = .ok 9900 ∧ Total.add 9900 2 = .ok 9902 ∧
      ∃ counts, Simulation.histogram e [] = .ok counts ∧ counts.size = (9902 : Int) := by
  intro e
  have hw : e.WellFormed := ⟨.inr rfl, rfl, by decide⟩
  obtain ⟨hsum, -, -, hsub, hadd, counts, hcounts, hsize, -⟩ := spread_law hw rfl rfl
  exact ⟨hw, rfl, rfl, hsum, hsub, hadd, counts, hcounts, hsize⟩

end DiceEngine.Expression
