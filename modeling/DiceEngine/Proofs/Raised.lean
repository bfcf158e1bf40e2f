import DiceEngine.Proofs.Throw
import Mathlib.Data.List.Sort

/-!
# Dice turned up

Where every die shows as much as before or more, so does every place of the
sorted throw (`forall₂_ascending`), though the dice may have changed places: by
induction on the dice, one more of which is sorted in (`forall₂_orderedInsert`).
What counts is a slice of the sorted throw, whatever the group keeps, and a
slice gains no less than nothing and no more than the whole (`sum_slice_le`,
`sum_slice_sub_le`). So the value of a throw grows with its faces and by no more
than they do, and their order does not matter to it (`symmetric_and_monotone`).
-/

namespace DiceEngine.DieGroup

/-! ## Sorted throws -/

/-- The faces are sorted without regard to their order. -/
theorem ascending_congr {faces others : List Int} (h : faces.Perm others) :
    ascending others = ascending faces :=
  ascending_eq ((ascending_perm faces).trans h) (ascending_pairwise faces)

/-- One die more is sorted in. -/
theorem ascending_cons (f : Int) (faces : List Int) :
    ascending (f :: faces) = (ascending faces).orderedInsert (· ≤ ·) f :=
  ascending_eq ((List.perm_orderedInsert _ f _).trans ((ascending_perm faces).cons f))
    ((ascending_pairwise faces).orderedInsert f _)

/-- Of a face and the first one of a sorted list the lower one comes first, and the higher one is
sorted in behind it. -/
theorem orderedInsert_cons_eq {x : Int} {s : List Int} (h : (x :: s).Pairwise (· ≤ ·)) (a : Int) :
    (x :: s).orderedInsert (· ≤ ·) a = min a x :: s.orderedInsert (· ≤ ·) (max a x) := by
  by_cases ha : a ≤ x
  · have hx : s.orderedInsert (· ≤ ·) x = x :: s := by
      cases s with
      | nil => rfl
      | cons y s =>
        have hxy : x ≤ y := (List.pairwise_cons.mp h).1 y List.mem_cons_self
        exact List.orderedInsert_cons_of_le _ _ hxy
    rw [List.orderedInsert_cons_of_le _ _ ha, Int.min_eq_left ha, Int.max_eq_right ha, hx]
  · have hle : x ≤ a := by omega
    rw [List.orderedInsert_of_not_le _ _ ha, Int.min_eq_right hle, Int.max_eq_left hle]

/-- A higher face in a list that is higher at each place leaves it so. -/
theorem forall₂_orderedInsert {s t : List Int} (h : List.Forall₂ (· ≤ ·) s t)
    (hs : s.Pairwise (· ≤ ·)) (ht : t.Pairwise (· ≤ ·)) : ∀ {a b : Int}, a ≤ b →
      List.Forall₂ (· ≤ ·) (s.orderedInsert (· ≤ ·) a) (t.orderedInsert (· ≤ ·) b) := by
  induction h with
  | nil => exact fun hab => .cons hab .nil
  | @cons x y s t hxy _ ih =>
    intro a b hab
    rw [orderedInsert_cons_eq hs, orderedInsert_cons_eq ht]
    exact .cons (by omega) (ih hs.of_cons ht.of_cons (by omega))

/-- Sorted, a throw with higher faces is higher at each place. -/
theorem forall₂_ascending {faces raised : List Int} (h : List.Forall₂ (· ≤ ·) faces raised) :
    List.Forall₂ (· ≤ ·) (ascending faces) (ascending raised) := by
  induction h with
  | nil =>
    rw [ascending_eq (.refl []) .nil]
    exact .nil
  | @cons f f' faces raised hf _ ih =>
    rw [ascending_cons, ascending_cons]
    exact forall₂_orderedInsert ih (ascending_pairwise faces) (ascending_pairwise raised) hf

/-! ## Slices of sorted throws -/

section Slices

variable {s t : List Int} (h : List.Forall₂ (· ≤ ·) s t) (i j : Nat)

include h

theorem sum_slice_le : ((s.drop i).take j).sum ≤ ((t.drop i).take j).sum :=
  (List.forall₂_take j (List.forall₂_drop i h)).sum_le_sum

/-- What is in front of the slice and behind it does not lose. -/
theorem sum_slice_sub_le :
    ((t.drop i).take j).sum - ((s.drop i).take j).sum ≤ t.sum - s.sum := by
  have hparts : ∀ l : List Int,
      l.sum = (l.take i).sum + (((l.drop i).take j).sum + ((l.drop i).drop j).sum) := by
    intro l
    rw [List.sum_take_add_sum_drop, List.sum_take_add_sum_drop]
  have hfront := (List.forall₂_take i h).sum_le_sum
  have hbehind := (List.forall₂_drop j (List.forall₂_drop i h)).sum_le_sum
  have hs := hparts s
  have ht := hparts t
  omega

end Slices

/-- The value of a throw does not depend on the order of its faces. Where every die shows as much
as before or more, the value is as much or more, and it has not gained more than the dice have
together. -/
theorem symmetric_and_monotone {g : DieGroup} {faces others : List Int} :
    (faces.Perm others → g.keptSum others = g.keptSum faces) ∧
      (List.Forall₂ (· ≤ ·) faces others → g.keptSum faces ≤ g.keptSum others ∧
        g.keptSum others - g.keptSum faces ≤ others.sum - faces.sum) := by
  refine ⟨fun h => ?_, fun h => ⟨?_, ?_⟩⟩
  · simp only [keptSum_eq, keptFaces, ascending_congr h]
  · rw [keptSum_eq, keptSum_eq]
    exact sum_slice_le (forall₂_ascending h) _ _
  · rw [keptSum_eq, keptSum_eq, ← (ascending_perm faces).sum_eq, ← (ascending_perm others).sum_eq]
    exact sum_slice_sub_le (forall₂_ascending h) _ _

/-- The die that did not count is turned up and takes the place of another one. -/
theorem symmetric_and_monotone_dropped_die :
    let g : DieGroup := ⟨3, 6, some ⟨.highest, 2⟩, by decide, by decide, by decide, by decide,
      by decide⟩
    let faces : List Int := [5, 2, 4]
    let raised : List Int := [5, 6, 4]
    faces.Perm [2, 4, 5] ∧ List.Forall₂ (· ≤ ·) faces raised ∧
      g.keptSum [2, 4, 5] = g.keptSum faces ∧ g.keptSum faces ≤ g.keptSum raised ∧
      g.keptSum raised - g.keptSum faces ≤ raised.sum - faces.sum ∧
      g.keptSum faces = 9 ∧ g.keptSum raised = 11 := by
  intro g faces raised
  have hperm : faces.Perm [2, 4, 5] := by decide
  have hraised : List.Forall₂ (· ≤ ·) faces raised := by decide
  have hmono := (symmetric_and_monotone (g := g)).2 hraised
  have hfaces : ascending faces = [2, 4, 5] := ascending_eq (by decide) (by decide)
  have hsorted : ascending raised = [4, 5, 6] := ascending_eq (by decide) (by decide)
  refine ⟨hperm, hraised, symmetric_and_monotone.1 hperm, hmono.1, hmono.2, ?_, ?_⟩
  · rw [keptSum_highest rfl rfl, hfaces]
    rfl
  · rw [keptSum_highest rfl rfl, hsorted]
    rfl

end DiceEngine.DieGroup
