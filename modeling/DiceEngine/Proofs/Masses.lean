import DiceEngine.Proofs.OrderStatistic

/-!
# The masses of a face

The masses of a face, summed from the first one on, leave the chance of the face
at a rank (`sum_take_faceMass`). All masses of a face leave nothing, as no die
comes behind the last rank (`sum_faceMass`). At each rank there is one face, so
the chances of the faces there add up to one (`sum_chance`).

`masses_up_to_rank` says so of the row of coefficients that is computed for the
dice.
-/

namespace DiceEngine

/-- Beyond the last die of a throw there is no face. -/
theorem atRank_eq_zero {k : Nat} {v : List Int} (h : v.length ≤ k) : atRank k v = 0 := by
  have hl : (DieGroup.ascending v).reverse.length ≤ k := by
    rwa [List.length_reverse, DieGroup.length_ascending]
  rw [atRank, List.getD_eq_default _ _ hl]

namespace OrderStatistic

/-- The share of all throws of `n` dice that have the face at rank `k`. -/
def chance (sides n k face : Nat) : ℚ :=
  ((faceVectors sides n).countP fun v => atRank k v = (face : Int)) / (sides : ℚ) ^ n

theorem share_atRank (sides n k face : Nat) :
    (share (faceVectors sides n) fun v => atRank k v = (face : Int)) = chance sides n k face := by
  rw [share, chance, length_faceVectors, Nat.cast_pow]

theorem chance_eq_zero {sides n k face : Nat} (h1 : 1 ≤ face) (hk : n ≤ k) :
    chance sides n k face = 0 := by
  have hnone : (faceVectors sides n).countP (fun v => atRank k v = (face : Int)) = 0 := by
    refine List.countP_eq_zero.mpr fun v hv => ?_
    obtain ⟨hl, -⟩ := mem_faceVectors.mp hv
    rw [atRank_eq_zero (hl.trans_le hk), decide_eq_true_eq]
    omega
  rw [chance, hnone, Nat.cast_zero, zero_div]

/-- At a rank that the dice have, the chances of the faces add up to one. -/
theorem sum_chance {sides n k : Nat} (hs : 1 ≤ sides) (hk : k < n) :
    ((List.range' 1 sides).map fun face => chance sides n k face).sum = 1 := by
  simp only [← share_atRank]
  exact sum_share_eq_one (faceVectors_ne_nil hs n) List.nodup_range' fun _ hv =>
    exists_face_atRank hv hk

/-- All masses of a face. -/
theorem sum_faceMass {sides face : Nat} (h1 : 1 ≤ face) (hf : face ≤ sides) (n : Nat) :
    (faceMass (exactRow n) sides face).sum = 0 := by
  have hall : (faceMass (exactRow n) sides face).take (n + 1) =
      faceMass (exactRow n) sides face :=
    List.take_of_length_le (length_exactMass n sides face).le
  rw [← hall, sum_take_faceMass h1 hf (Nat.le_refl n), share_atRank,
    chance_eq_zero h1 (Nat.le_refl n)]

/-- The masses of a face, one for each rank and one more, add up to the chance of the face at a
rank where they are summed up to it, and to zero where all of them are. So at each rank the sums of
all faces add up to one. -/
theorem masses_up_to_rank {n sides : Nat} (hn : n ≤ 125) (hs : 1 ≤ sides) :
    ∃ row : List ℚ, coefficients n = .ok row ∧
      (∀ face, 1 ≤ face → face ≤ sides →
        (faceMass row sides face).length = n + 1 ∧ (faceMass row sides face).sum = 0 ∧
        ∀ k < n, ((faceMass row sides face).take (k + 1)).sum = chance sides n k face) ∧
      ∀ k < n, ((List.range' 1 sides).map fun face => chance sides n k face).sum = 1 := by
  refine ⟨exactRow n, coefficients_eq_ok hn, fun face h1 hf => ⟨?_, ?_, fun k hk => ?_⟩, ?_⟩
  · exact length_exactMass n sides face
  · exact sum_faceMass h1 hf n
  · rw [sum_take_faceMass h1 hf (Nat.le_of_lt hk), share_atRank]
  · exact fun k hk => sum_chance hs hk

/-- The middle one of three dice shows the last of three faces in seven of all throws. -/
theorem masses_up_to_rank_middle_die : 3 ≤ 125 ∧ 1 ≤ 3 ∧
    ∃ row : List ℚ, coefficients 3 = .ok row ∧ row = [1, 3, 3, 1] ∧
      ((faceMass row 3 3).take 2).sum = 7 / 27 ∧ (faceMass row 3 3).sum = 0 ∧
      chance 3 3 1 3 = 7 / 27 := by
  obtain ⟨row, hrow, hfaces, -⟩ := masses_up_to_rank (by decide : 3 ≤ 125) (by decide : 1 ≤ 3)
  obtain ⟨-, hall, hranks⟩ := hfaces 3 (by decide) (by decide)
  have hcoefficients : (coefficients 3 : Except Fault (List ℚ)) = .ok [1, 3, 3, 1] :=
    coefficients_eq_ok (by decide)
  obtain rfl : row = [1, 3, 3, 1] := Except.ok.inj (hrow.symm.trans hcoefficients)
  have hsum : ((faceMass [1, 3, 3, 1] 3 3).take 2).sum = (7 / 27 : ℚ) := by decide +kernel
  exact ⟨by decide, by decide, _, hrow, rfl, hsum, hall, (hranks 1 (by decide)).symm.trans hsum⟩

end OrderStatistic

end DiceEngine
