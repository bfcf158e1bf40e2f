import DiceEngine.OrderStatistic
import DiceEngine.Proofs.Binomial
import DiceEngine.Proofs.Ranks

/-!
# Order statistics, exactly

What `OrderStatistic` computes, read in rationals. A term of `faceMass` is a
difference of two shares of all throws: those with `i` dice above a face, less
those with `i` dice at the face or above (`faceMass_eq`). Summed up to `k` the
differences leave the throws with the face at rank `k` (`sum_take_faceMass`),
and summed over the faces these give the average of the dice at some ranks
(`expectedAt_eq_average`), so of either end of the sorted throws
(`expectedHighest_eq_ok`, `expectedLowest_eq_ok`).
-/

namespace DiceEngine.OrderStatistic

open DieGroup (ascending)

theorem powerOnto_eq (b : Nat) : ∀ m a : ℚ, powerOnto m a b = m * a ^ b := by
  induction b using Nat.strongRecOn with
  | ind b ih =>
    intro m a
    have hdiv : b = 2 * (b / 2) + b % 2 := (Nat.div_add_mod b 2).symm
    have hpow : a ^ b = (a * a) ^ (b / 2) * a ^ (b % 2) := by
      rw [← pow_two, ← pow_mul, ← pow_add, ← hdiv]
    have hdone : (if b % 2 = 1 then m * a else m) = m * a ^ (b % 2) := by
      rcases Nat.mod_two_eq_zero_or_one b with h | h <;> simp [h]
    rw [powerOnto, hpow]
    simp only [hdone]
    by_cases h : b / 2 = 0
    · rw [if_pos h, h, pow_zero, one_mul]
    · rw [if_neg h, ih (b / 2) (by omega)]
      ring

theorem power_eq (a : ℚ) (b : Nat) : power a b = a ^ b := by
  rw [power, powerOnto_eq, Nat.cast_one, one_mul]

theorem sum_eq (xs : List ℚ) : sum xs = xs.sum := by
  rw [sum, List.sum_eq_foldl, Nat.cast_zero]

theorem getD_runningSums {xs : List ℚ} : ∀ {start : ℚ} {k : Nat}, k < xs.length →
    (runningSums start xs).getD k ((0 : Nat) : ℚ) = start + (xs.take (k + 1)).sum := by
  induction xs with
  | nil => exact fun h => absurd h (Nat.not_lt_zero _)
  | cons x xs ih =>
    intro start k hk
    rw [runningSums, List.take_succ_cons, List.sum_cons]
    rcases k with _ | k
    · rw [List.getD_cons_zero, List.take_zero, List.sum_nil, add_zero]
    · rw [List.getD_cons_succ, ih (Nat.lt_of_succ_lt_succ hk), add_assoc]

/-- The coefficients of `n` dice, in rationals. -/
def exactRow (n : Nat) : List ℚ := (List.range (n + 1)).map fun i => (n.choose i : ℚ)

theorem coefficients_eq_ok {n : Nat} (hn : n ≤ 125) :
    (coefficients n : Except Fault (List ℚ)) = .ok (exactRow n) := coefficients_eq_map hn

/-- The share of the throws with exactly `i` dice above a face. -/
theorem share_countAbove {sides face n i : Nat} (hf : face ≤ sides) (hi : i ≤ n) :
    (share (faceVectors sides n) fun v => countAbove face v = i) =
      n.choose i * ((((sides - face : Nat) : ℚ) / sides) ^ i * ((face : ℚ) / sides) ^ (n - i)) := by
  have hpow : (sides : ℚ) ^ n = sides ^ i * sides ^ (n - i) := by
    rw [← pow_add, Nat.add_sub_cancel' hi]
  rw [share, countP_countAbove hf, length_faceVectors, div_pow, div_pow, div_mul_div_comm, ← hpow,
    mul_div_assoc']
  push_cast
  rfl

theorem length_exactRow (n : Nat) : (exactRow n).length = n + 1 := by
  rw [exactRow, List.length_map, List.length_range]

theorem length_exactMass (n sides face : Nat) :
    (faceMass (exactRow n) sides face).length = n + 1 := by
  rw [faceMass, List.length_mapIdx, length_exactRow]

/-- The masses of a face are differences of shares: above the face less at the face or above. -/
theorem faceMass_eq {sides face : Nat} (h1 : 1 ≤ face) (hf : face ≤ sides) (n : Nat) :
    faceMass (exactRow n) sides face = (List.range (n + 1)).map fun i =>
      (share (faceVectors sides n) fun v => countAbove face v = i) -
        share (faceVectors sides n) fun v => countAbove (face - 1) v = i := by
  have habove : sides - face + 1 = sides - (face - 1) := by omega
  refine List.ext_getElem ?_ fun i hi hi' => ?_
  · rw [length_exactMass, List.length_map, List.length_range]
  · simp only [List.length_map, List.length_range] at hi'
    simp only [faceMass, List.getElem_mapIdx, length_exactRow, Nat.add_sub_cancel, power_eq, habove,
      List.getElem_map, List.getElem_range]
    rw [share_countAbove hf (Nat.le_of_lt_succ hi'),
      share_countAbove (by omega) (Nat.le_of_lt_succ hi'), ← mul_sub]
    simp only [exactRow, List.getElem_map, List.getElem_range]

section Masses

variable {sides face n k : Nat} (h1 : 1 ≤ face) (hf : face ≤ sides) (hk : k ≤ n)

include h1 hf hk

/-- The masses up to `k` sum to the share of the throws with the face at rank `k`. -/
theorem sum_take_faceMass : ((faceMass (exactRow n) sides face).take (k + 1)).sum =
    share (faceVectors sides n) fun v => atRank k v = (face : Int) := by
  have hrange : (List.range (n + 1)).take (k + 1) = List.range (k + 1) := by
    rw [List.take_range, Nat.min_eq_left (Nat.succ_le_succ hk)]
  rw [faceMass_eq h1 hf, ← List.map_take, hrange, sum_map_sub, ← share_le_eq_sum,
    ← share_le_eq_sum, share_eq_sub h1]
  simp only [atRank_le_iff]

theorem getD_runningSums_faceMass :
    (runningSums ((0 : Nat) : ℚ) (faceMass (exactRow n) sides face)).getD k ((0 : Nat) : ℚ) =
      share (faceVectors sides n) fun v => atRank k v = (face : Int) := by
  have hlength : k < (faceMass (exactRow n) sides face).length := by
    rw [length_exactMass]
    omega
  rw [getD_runningSums hlength, Nat.cast_zero, zero_add, sum_take_faceMass h1 hf hk]

end Masses

theorem expectedAt_eq {sides n : Nat} {ranks : List Nat} (hr : ∀ k ∈ ranks, k < n) :
    expectedAt (exactRow n) sides ranks =
      ((List.range' 1 sides).map fun face : Nat => (face : ℚ) * (ranks.map fun k =>
        share (faceVectors sides n) fun v => atRank k v = (face : Int)).sum).sum := by
  rw [expectedAt, sum_eq]
  refine congrArg List.sum (List.map_congr_left fun face hface => ?_)
  rw [List.mem_range'_1] at hface
  simp only [sum_eq]
  refine congrArg (fun masses : List ℚ => (face : ℚ) * masses.sum)
    (List.map_congr_left fun k hk => ?_)
  exact getD_runningSums_faceMass hface.1 (by omega) (Nat.le_of_lt (hr k hk))

/-- The average of one rank, face by face. -/
theorem average_atRank {sides n k : Nat} (hk : k < n) :
    average (faceVectors sides n) (fun v => (atRank k v : ℚ)) =
      ((List.range' 1 sides).map fun face : Nat => (face : ℚ) *
        share (faceVectors sides n) fun v => atRank k v = (face : Int)).sum :=
  average_eq_sum_share List.nodup_range' fun _ hv => exists_face_atRank hv hk

/-- The expected sum of the dice at some ranks is their average sum over all throws. -/
theorem expectedAt_eq_average {sides n : Nat} (ranks : List Nat) (hr : ∀ k ∈ ranks, k < n) :
    expectedAt (exactRow n) sides ranks =
      average (faceVectors sides n) fun v => ((ranks.map fun k => atRank k v).sum : Int) := by
  rw [expectedAt_eq hr]
  induction ranks with
  | nil => simp only [List.map_nil, List.sum_nil, mul_zero, List.map_const', List.sum_replicate,
      nsmul_zero, Int.cast_zero, average_zero]
  | cons k ranks ih =>
    have ih := ih fun j hj => hr j (List.mem_cons_of_mem k hj)
    simp only [List.map_cons, List.sum_cons, mul_add, List.sum_map_add, Int.cast_add, average_add]
    rw [ih, average_atRank (hr k List.mem_cons_self)]

/-- The expected sum of the highest dice. -/
theorem expectedHighest_eq_ok {n sides : Nat} (hn : n ≤ 125) (keep : Nat) :
    (expectedHighest n sides keep : Except Fault ℚ) =
      .ok (average (faceVectors sides n) fun v => ((ascending v).drop (n - min keep n)).sum) := by
  rw [expectedHighest, coefficients_eq_ok hn]
  show Except.ok (expectedAt (exactRow n) sides (List.range (min keep n))) = _
  rw [expectedAt_eq_average _ fun _ => lt_of_mem_highest]
  refine congrArg Except.ok (average_congr fun v hv => ?_)
  have hl := (mem_faceVectors.mp hv).1
  rw [sum_atRank_highest (by omega), hl]

/-- The expected sum of the lowest dice. -/
theorem expectedLowest_eq_ok {n sides : Nat} (hn : n ≤ 125) (keep : Nat) :
    (expectedLowest n sides keep : Except Fault ℚ) =
      .ok (average (faceVectors sides n) fun v => ((ascending v).take (min keep n)).sum) := by
  rw [expectedLowest, coefficients_eq_ok hn]
  show Except.ok (expectedAt (exactRow n) sides ((List.range' 1 (min keep n)).map (n - ·))) = _
  rw [expectedAt_eq_average _ fun _ => lt_of_mem_lowest]
  refine congrArg Except.ok (average_congr fun v hv => ?_)
  have hl := (mem_faceVectors.mp hv).1
  rw [← hl, sum_atRank_lowest (by omega)]

end DiceEngine.OrderStatistic
