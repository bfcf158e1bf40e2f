import DiceEngine.DieGroup
import Mathlib.Algebra.Order.BigOperators.Group.List
import Mathlib.Algebra.Order.Ring.Int

/-!
# Throws and their values

A throw of a group has a face for each die (`DieGroup.IsThrow`), and its value
is the sum of one end of its faces in ascending order. The ends are named here
once (`keptSum_all`, `keptSum_lowest`, `keptSum_highest`), and the value lies
between the bounds of the group (`IsThrow.low_le_keptSum`,
`IsThrow.keptSum_le_high`).
-/

namespace DiceEngine.DieGroup

/-- A face for each die of the group. -/
structure IsThrow (g : DieGroup) (faces : List Int) : Prop where
  length : faces.length = g.quantity
  range : ∀ f ∈ faces, 1 ≤ f ∧ f ≤ g.sides

theorem keepCount_le (g : DieGroup) : g.keepCount ≤ g.quantity := by
  rw [keepCount]
  split
  · next h => exact g.count_le _ h
  · exact Nat.le_refl _

/-- The faces from the lowest to the highest. -/
def ascending (faces : List Int) : List Int := faces.mergeSort (· ≤ ·)

theorem ascending_perm (faces : List Int) : (ascending faces).Perm faces :=
  List.mergeSort_perm _ _

theorem length_ascending (faces : List Int) : (ascending faces).length = faces.length :=
  (ascending_perm faces).length_eq

theorem ascending_pairwise (faces : List Int) : (ascending faces).Pairwise (· ≤ ·) := by
  have h := @List.pairwise_mergeSort _ (fun a b : Int => decide (a ≤ b))
    (fun a b c => by simpa using Int.le_trans) (fun a b => by simpa using Int.le_total a b) faces
  exact h.imp fun hab => of_decide_eq_true hab

/-- The faces in ascending order are the only list of them that ascends. -/
theorem ascending_eq {faces sorted : List Int} (hperm : sorted.Perm faces)
    (hsorted : sorted.Pairwise (· ≤ ·)) : ascending faces = sorted :=
  ((ascending_perm faces).trans hperm.symm).eq_of_pairwise (fun _ _ _ _ => Int.le_antisymm)
    (ascending_pairwise faces) hsorted

/-- Where no face of one list is above a face of another, the lists are sorted apart. -/
theorem ascending_append {lows highs : List Int} (h : ∀ a ∈ lows, ∀ b ∈ highs, a ≤ b) :
    ascending (lows ++ highs) = ascending lows ++ ascending highs := by
  refine ascending_eq ((ascending_perm lows).append (ascending_perm highs)) ?_
  refine List.pairwise_append.mpr ⟨ascending_pairwise lows, ascending_pairwise highs, ?_⟩
  intro a ha b hb
  exact h a ((ascending_perm lows).mem_iff.mp ha) b ((ascending_perm highs).mem_iff.mp hb)

/-- The faces that count, in ascending order. -/
def keptFaces (g : DieGroup) (faces : List Int) : List Int :=
  ((ascending faces).drop g.keptRange.1).take (g.keptRange.2 - g.keptRange.1)

theorem keptSum_eq (g : DieGroup) (faces : List Int) :
    g.keptSum faces = (g.keptFaces faces).sum := by
  rw [keptSum, List.extract_eq_take_drop, ← List.sum_eq_foldl]
  rfl

/-- Without a count of kept dice every face counts. -/
theorem keptSum_all {g : DieGroup} {faces : List Int} (hk : g.keep = none)
    (hl : faces.length = g.quantity) : g.keptSum faces = faces.sum := by
  rw [keptSum_eq, keptFaces, keptRange, hk]
  simp only [List.drop_zero, Nat.sub_zero]
  rw [List.take_of_length_le (by rw [length_ascending, hl])]
  exact (ascending_perm faces).sum_eq

theorem keptSum_lowest {g : DieGroup} {faces : List Int} {count : Nat}
    (hk : g.keep = some ⟨.lowest, count⟩) :
    g.keptSum faces = ((ascending faces).take count).sum := by
  rw [keptSum_eq, keptFaces, keptRange, hk]
  rfl

theorem keptSum_highest {g : DieGroup} {faces : List Int} {count : Nat}
    (hk : g.keep = some ⟨.highest, count⟩) (hl : faces.length = g.quantity) :
    g.keptSum faces = ((ascending faces).drop (g.quantity - count)).sum := by
  rw [keptSum_eq, keptFaces, keptRange, hk]
  simp only
  rw [List.take_of_length_le (by rw [List.length_drop, length_ascending, hl])]

/-- As many faces count as the group says. -/
theorem length_keptFaces {g : DieGroup} {faces : List Int} (hl : faces.length = g.quantity) :
    (g.keptFaces faces).length = g.keepCount := by
  have hc := g.count_le
  simp only [keptFaces, List.length_take, List.length_drop, length_ascending, hl, keptRange,
    keepCount]
  split
  · next h => have := hc _ h; simp only at this; simp only [h]; omega
  · next h => have := hc _ h; simp only at this; simp only [h]; omega
  · next h => simp only [h]; omega

namespace IsThrow

variable {g : DieGroup} {faces : List Int}

theorem keptFaces_range (h : g.IsThrow faces) : ∀ f ∈ g.keptFaces faces, 1 ≤ f ∧ f ≤ g.sides :=
  fun f hf => h.range f ((ascending_perm faces).mem_iff.mp
    (List.mem_of_mem_drop (List.mem_of_mem_take hf)))

theorem low_le_keptSum (h : g.IsThrow faces) : g.low ≤ g.keptSum faces := by
  have hs := List.card_nsmul_le_sum (g.keptFaces faces) 1 fun f hf => (h.keptFaces_range f hf).1
  rw [length_keptFaces h.length, nsmul_eq_mul, mul_one] at hs
  rw [keptSum_eq]
  exact hs

theorem keptSum_le_high (h : g.IsThrow faces) : g.keptSum faces ≤ g.high := by
  have hs := List.sum_le_card_nsmul (g.keptFaces faces) g.sides
    fun f hf => (h.keptFaces_range f hf).2
  rw [length_keptFaces h.length, nsmul_eq_mul] at hs
  rw [keptSum_eq]
  exact hs

end IsThrow

end DiceEngine.DieGroup
