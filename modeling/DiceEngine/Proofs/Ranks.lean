import DiceEngine.Proofs.FaceVectors
import Mathlib.Data.List.GetD

/-!
# The dice of a throw by rank

The dice of a throw are ranked from the highest, which has rank zero
(`atRank`). A die shows at most a face exactly where no more dice than its rank
are above that face (`atRank_le_iff`), which ties ranks to the counts of
`countAbove`; and both ends of a sorted throw are sums over ranks
(`sum_atRank_highest`, `sum_atRank_lowest`).
-/

namespace DiceEngine

open DieGroup (ascending ascending_perm ascending_pairwise length_ascending)

/-- The face of the die with `k` dice before it, from the highest on; zero beyond the last die. -/
def atRank (k : Nat) (v : List Int) : Int := (ascending v).reverse.getD k 0

/-- In a list that descends, the member at place `k` is at most `face` where at most `k` members
are above `face`. -/
theorem getD_le_iff {face : Nat} : ∀ {l : List Int} {k : Nat}, l.Pairwise (fun a b => b ≤ a) →
    (l.getD k 0 ≤ face ↔ countAbove face l ≤ k) := by
  intro l
  induction l with
  | nil =>
    intro k _
    exact iff_of_true (Int.natCast_nonneg face) (Nat.zero_le k)
  | cons d l ih =>
    intro k hl
    obtain ⟨hd, hl⟩ := List.pairwise_cons.mp hl
    rw [countAbove_cons]
    by_cases hface : (face : Int) < d
    · rw [if_pos hface]
      rcases k with _ | k
      · exact iff_of_false (Int.not_le.mpr hface) (Nat.not_succ_le_zero _)
      · rw [List.getD_cons_succ, ih hl, Nat.add_le_add_iff_right]
    · -- What follows `d` is not above the face either.
      have hnone : countAbove face l = 0 := by
        refine List.countP_eq_zero.mpr fun d' hd' => ?_
        have := hd d' hd'
        simp only [decide_eq_true_eq]
        omega
      rw [if_neg hface, hnone, iff_true_right (Nat.zero_le k)]
      rcases k with _ | k
      · exact Int.not_lt.mp hface
      · rw [List.getD_cons_succ, ih hl, hnone]
        exact Nat.zero_le k

/-- A die shows at most a face where no more dice than its rank are above the face. -/
theorem atRank_le_iff {face k : Nat} {v : List Int} :
    atRank k v ≤ face ↔ countAbove face v ≤ k := by
  have hperm : (ascending v).reverse.Perm v := (List.reverse_perm _).trans (ascending_perm v)
  have hcount : countAbove face (ascending v).reverse = countAbove face v := hperm.countP_eq _
  rw [atRank, getD_le_iff (List.pairwise_reverse.mpr (ascending_pairwise v)), hcount]

theorem atRank_eq {k : Nat} {v : List Int} (hk : k < v.length) :
    atRank k v = (ascending v).getD (v.length - 1 - k) 0 := by
  rw [atRank, List.getD_reverse _ (by rwa [length_ascending]), length_ascending]

theorem atRank_mem {k : Nat} {v : List Int} (hk : k < v.length) : atRank k v ∈ v := by
  have hl : v.length - 1 - k < (ascending v).length := by rw [length_ascending]; omega
  rw [atRank_eq hk, List.getD_eq_getElem _ _ hl]
  exact (ascending_perm v).mem_iff.mp (List.getElem_mem hl)

/-- The die at a rank shows one of the faces. -/
theorem exists_face_atRank {sides n k : Nat} {v : List Int} (hv : v ∈ faceVectors sides n)
    (hk : k < n) : ∃ face ∈ List.range' 1 sides, atRank k v = ((face : Nat) : Int) := by
  obtain ⟨hl, hv⟩ := mem_faceVectors.mp hv
  have hrange := hv _ (atRank_mem (hl ▸ hk))
  refine ⟨(atRank k v).toNat, List.mem_range'_1.mpr (by omega), ?_⟩
  rw [Int.toNat_of_nonneg (by omega)]

/-- The ranks of the highest dice are ranks. -/
theorem lt_of_mem_highest {n keep k : Nat} (h : k ∈ List.range (min keep n)) : k < n := by
  rw [List.mem_range] at h
  omega

/-- The ranks of the lowest dice are ranks. -/
theorem lt_of_mem_lowest {n keep k : Nat} (h : k ∈ (List.range' 1 (min keep n)).map (n - ·)) :
    k < n := by
  obtain ⟨j, hj, rfl⟩ := List.mem_map.mp h
  rw [List.mem_range'_1] at hj
  omega

/-- The highest dice, by their ranks. -/
theorem sum_atRank_highest {count : Nat} {v : List Int} (h : count ≤ v.length) :
    ((List.range count).map fun k => atRank k v).sum =
      ((ascending v).drop (v.length - count)).sum := by
  have htake : (List.range count).map (fun k => atRank k v) =
      (ascending v).reverse.take count := by
    refine List.ext_getElem ?_ fun i hi hi' => ?_
    · simp only [List.length_map, List.length_range, List.length_take, List.length_reverse,
        length_ascending]
      omega
    · rw [List.getElem_map, List.getElem_range, List.getElem_take, atRank,
        List.getD_eq_getElem]
  rw [htake, List.take_reverse, List.sum_reverse, length_ascending]

/-- The lowest dice, by their ranks. -/
theorem sum_atRank_lowest {count : Nat} {v : List Int} (h : count ≤ v.length) :
    (((List.range' 1 count).map (v.length - ·)).map fun k => atRank k v).sum =
      ((ascending v).take count).sum := by
  have htake : ((List.range' 1 count).map (v.length - ·)).map (fun k => atRank k v) =
      (ascending v).take count := by
    refine List.ext_getElem ?_ fun i hi hi' => ?_
    · simp only [List.length_map, List.length_range', List.length_take, length_ascending]
      omega
    · simp only [List.length_map, List.length_range'] at hi
      rw [List.getElem_map, List.getElem_map, List.getElem_range', List.getElem_take,
        atRank_eq (by omega), List.getD_eq_getElem _ _ (by rw [length_ascending]; omega)]
      congr 1
      omega
  rw [htake]

end DiceEngine
