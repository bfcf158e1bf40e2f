import DiceEngine.Proofs.Expectation

/-!
# Opposite faces

Opposite faces of a die add up to one more than its sides. Turning every die of
a throw to its opposite face gives each throw once (`opposite_perm`) and turns
the sorted throw around (`ascending_opposite`), so what the lowest dice show on
average and what as many of the highest show are opposite too
(`average_lowest`). Together with the others, which a throw leaves at the other
end, the highest make up the whole throw (`average_split`).

`OrderStatistic.highest_and_lowest` says so of the expected sums. Where all dice
are kept, both come to the product that a group is given without any row.
-/

namespace DiceEngine

open DieGroup (ascending ascending_eq ascending_perm ascending_pairwise length_ascending)

/-! ## Throws turned over -/

/-- Every die turned to its opposite face. -/
def opposite (sides : Nat) (v : List Int) : List Int := v.map fun f => sides + 1 - f

theorem length_opposite (sides : Nat) (v : List Int) : (opposite sides v).length = v.length :=
  List.length_map _

theorem opposite_opposite (sides : Nat) (v : List Int) : opposite sides (opposite sides v) = v := by
  rw [opposite, opposite, List.map_map]
  refine (List.map_congr_left fun f _ => ?_).trans (List.map_id v)
  simp only [Function.comp_apply, id_eq]
  omega

theorem opposite_mem {sides n : Nat} {v : List Int} (h : v ∈ faceVectors sides n) :
    opposite sides v ∈ faceVectors sides n := by
  obtain ⟨hl, hv⟩ := mem_faceVectors.mp h
  refine mem_faceVectors.mpr ⟨(length_opposite sides v).trans hl, fun f hf => ?_⟩
  obtain ⟨d, hd, rfl⟩ := List.mem_map.mp hf
  have := hv d hd
  omega

/-- Turned over, the throws are all throws again. -/
theorem opposite_perm (sides n : Nat) :
    ((faceVectors sides n).map (opposite sides)).Perm (faceVectors sides n) := by
  have hinj : Function.Injective (opposite sides) :=
    Function.LeftInverse.injective (opposite_opposite sides)
  refine (List.perm_ext_iff_of_nodup ((nodup_faceVectors sides n).map hinj)
    (nodup_faceVectors sides n)).mpr fun v => ?_
  rw [List.mem_map]
  constructor
  · rintro ⟨w, hw, rfl⟩
    exact opposite_mem hw
  · exact fun hv => ⟨opposite sides v, opposite_mem hv, opposite_opposite sides v⟩

/-- The lowest die becomes the highest. -/
theorem ascending_opposite (sides : Nat) (v : List Int) :
    ascending (opposite sides v) = (opposite sides (ascending v)).reverse := by
  have hperm : (opposite sides (ascending v)).Perm (opposite sides v) := (ascending_perm v).map _
  have hpair : (opposite sides (ascending v)).reverse.Pairwise (· ≤ ·) := by
    rw [List.pairwise_reverse, opposite, List.pairwise_map]
    exact (ascending_pairwise v).imp fun hab => by omega
  exact ascending_eq ((List.reverse_perm _).trans hperm) hpair

theorem sum_opposite (sides : Nat) (v : List Int) :
    (opposite sides v).sum = v.length * (sides + 1) - v.sum := by
  induction v with
  | nil => simp only [opposite, List.map_nil, List.sum_nil, List.length_nil]; omega
  | cons f v ih =>
    simp only [opposite, List.map_cons, List.sum_cons, List.length_cons] at ih ⊢
    rw [ih]
    push_cast
    ring

/-- The lowest dice of a throw turned over are as many of its highest dice. -/
theorem sum_lowest_opposite {sides keep : Nat} {v : List Int} (h : keep ≤ v.length) :
    ((ascending (opposite sides v)).take keep).sum =
      keep * (sides + 1) - ((ascending v).drop (v.length - keep)).sum := by
  have hlength : (opposite sides (ascending v)).length = v.length := by
    rw [length_opposite, length_ascending]
  have hdrop : (opposite sides (ascending v)).drop (v.length - keep) =
      opposite sides ((ascending v).drop (v.length - keep)) := List.map_drop.symm
  have hkeep : ((ascending v).drop (v.length - keep)).length = keep := by
    rw [List.length_drop, length_ascending]
    omega
  rw [ascending_opposite, List.take_reverse, List.sum_reverse, hlength, hdrop, sum_opposite, hkeep]

/-! ## Averages of both ends -/

section Averages

variable {sides n keep : Nat} (hs : 1 ≤ sides)

include hs

/-- On average the lowest dice are opposite to as many of the highest. -/
theorem average_lowest (hk : keep ≤ n) :
    average (faceVectors sides n) (fun v => (((ascending v).take keep).sum : Int)) =
      keep * (sides + 1) -
        average (faceVectors sides n) fun v => (((ascending v).drop (n - keep)).sum : Int) := by
  rw [← average_perm (opposite_perm sides n), average_map,
    ← average_const (faceVectors_ne_nil hs n) ((keep : ℚ) * (sides + 1)), ← average_sub]
  refine average_congr fun v hv => ?_
  obtain ⟨hl, -⟩ := mem_faceVectors.mp hv
  rw [sum_lowest_opposite (by omega), hl]
  push_cast
  rfl

/-- Any end of the throws and the rest of them. -/
theorem average_split (count : Nat) :
    average (faceVectors sides n) (fun v => (((ascending v).drop count).sum : Int)) +
      average (faceVectors sides n) (fun v => (((ascending v).take count).sum : Int)) =
        n * (sides + 1) / 2 := by
  rw [← average_sum_faceVectors hs, ← average_add]
  refine average_congr fun v _ => ?_
  rw [← Int.cast_add, Int.add_comm, ← List.sum_append, List.take_append_drop,
    (ascending_perm v).sum_eq]

end Averages

namespace OrderStatistic

variable {n sides keep : Nat}

/-- The highest dice that are kept are all dice. -/
theorem expectedHighest_whole (hn : n ≤ 125) (hs : 1 ≤ sides) (hk : n ≤ keep) :
    (expectedHighest n sides keep : Except Fault ℚ) = .ok (n * (sides + 1) / 2) := by
  rw [expectedHighest_eq_ok hn, Nat.min_eq_right hk, Nat.sub_self, ← average_sum_faceVectors hs]
  refine congrArg Except.ok (average_congr fun v _ => ?_)
  rw [List.drop_zero, (ascending_perm v).sum_eq]

/-- The lowest dice that are kept are all dice. -/
theorem expectedLowest_whole (hn : n ≤ 125) (hs : 1 ≤ sides) (hk : n ≤ keep) :
    (expectedLowest n sides keep : Except Fault ℚ) = .ok (n * (sides + 1) / 2) := by
  rw [expectedLowest_eq_ok hn, Nat.min_eq_right hk, ← average_sum_faceVectors hs]
  refine congrArg Except.ok (average_congr fun v hv => ?_)
  obtain ⟨hl, -⟩ := mem_faceVectors.mp hv
  rw [List.take_of_length_le (by rw [length_ascending, hl]), (ascending_perm v).sum_eq]

/-- The expected sums of the highest dice and of the others as the lowest add up to that of all
dice, and those of as many of either end are opposite. More kept dice than there are count as all,
and then both sums are the product of a group of which all dice count. -/
theorem highest_and_lowest {n sides keep : Nat} (hn : n ≤ 125) (hs : 1 ≤ sides) (hk : keep ≤ n) :
    (∃ high low others : ℚ,
      expectedHighest n sides keep = .ok high ∧ expectedLowest n sides keep = .ok low ∧
      expectedLowest n sides (n - keep) = .ok others ∧
      high + others = n * (sides + 1) / 2 ∧ low = keep * (sides + 1) - high) ∧
    (∀ more, n ≤ more →
      (expectedHighest n sides more : Except Fault ℚ) = expectedHighest n sides n ∧
      (expectedLowest n sides more : Except Fault ℚ) = expectedLowest n sides n) ∧
    ∀ g : DieGroup, g.quantity = n → g.sides = sides → g.keepCount = n →
      (g.expected : Except Fault ℚ) = .ok g.expectedAll ∧
      (expectedHighest n sides n : Except Fault ℚ) = .ok g.expectedAll ∧
      (expectedLowest n sides n : Except Fault ℚ) = .ok g.expectedAll := by
  refine ⟨⟨_, _, _, expectedHighest_eq_ok hn keep, expectedLowest_eq_ok hn keep,
    expectedLowest_eq_ok hn (n - keep), ?_, ?_⟩, fun more hmore => ⟨?_, ?_⟩, ?_⟩
  · rw [Nat.min_eq_left hk, Nat.min_eq_left (Nat.sub_le n keep)]
    exact average_split hs (n - keep)
  · rw [Nat.min_eq_left hk]
    exact average_lowest hs hk
  · rw [expectedHighest_whole hn hs hmore, expectedHighest_whole hn hs (Nat.le_refl n)]
  · rw [expectedLowest_whole hn hs hmore, expectedLowest_whole hn hs (Nat.le_refl n)]
  · rintro g rfl rfl hg
    have hall : (g.expectedAll : ℚ) = g.quantity * (g.sides + 1) / 2 := by
      rw [DieGroup.expectedAll]
      push_cast
      rfl
    rw [hall, expectedHighest_whole hn hs (Nat.le_refl _),
      expectedLowest_whole hn hs (Nat.le_refl _), DieGroup.expected_whole hg, hall]
    exact ⟨rfl, rfl, rfl⟩

/-- Three of four dice, and a group that keeps all four as its lowest. -/
theorem highest_and_lowest_three_of_four :
    let g : DieGroup :=
      ⟨4, 6, some ⟨.lowest, 4⟩, by decide, by decide, by decide, by decide, by decide⟩
    4 ≤ 125 ∧ 1 ≤ 6 ∧ 3 ≤ 4 ∧ g.keepCount = 4 ∧
    (∃ high low others : ℚ,
      expectedHighest 4 6 3 = .ok high ∧ expectedLowest 4 6 3 = .ok low ∧
      expectedLowest 4 6 1 = .ok others ∧ high + others = 14 ∧ low = 21 - high) ∧
    (expectedHighest 4 6 9 : Except Fault ℚ) = expectedHighest 4 6 4 ∧
    (g.expected : Except Fault ℚ) = .ok g.expectedAll ∧
    (expectedLowest 4 6 4 : Except Fault ℚ) = .ok g.expectedAll := by
  intro g
  obtain ⟨⟨high, low, others, hhigh, hlow, hothers, hsum, hopposite⟩, hmore, hwhole⟩ :=
    @highest_and_lowest 4 6 3 (by decide) (by decide) (by decide)
  obtain ⟨hgroup, -, hlowest⟩ := hwhole g rfl rfl rfl
  refine ⟨by decide, by decide, by decide, rfl,
    ⟨high, low, others, hhigh, hlow, hothers, ?_, ?_⟩, (hmore 9 (by decide)).1, hgroup, hlowest⟩
  · rw [hsum]
    norm_num
  · rw [hopposite]
    norm_num

end OrderStatistic

end DiceEngine
