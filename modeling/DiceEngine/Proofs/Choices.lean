import DiceEngine.Proofs.Places
import Mathlib.Algebra.BigOperators.Group.Finset.Basic
import Mathlib.Algebra.Order.BigOperators.Group.List
import Mathlib.Order.Bounds.Defs

/-!
# The best and the worst dice

The faces that are shown as kept are those that are counted, in another order
(`kept_perm`), so the shown faces always add up to the value of the throw. No
other choice of as many dice does better: member by member, the beginning of a
sorted list is at most any list of as many of its members
(`forall₂_take_of_sublist`), and read from its end the same list begins with its
highest members. So no choice sums to less than the lowest dice (`sum_take_le`),
and none to more than the highest (`sum_le_drop`).
-/

namespace DiceEngine.DieGroup

variable {g : DieGroup} {faces : List Int}

/-! ## Shown and counted faces -/

/-- For a throw, the faces that count are the kept end of all faces. -/
theorem keptFaces_eq_ending (hl : faces.length = g.quantity) :
    g.keptFaces faces = g.ending (ascending faces) := by
  have hall : (ascending faces).length = g.quantity := by rw [length_ascending, hl]
  rcases hk : g.keep with _ | ⟨_ | _, count⟩ <;>
    simp only [keptFaces, keptRange, ending, hk, List.drop_zero, Nat.sub_zero, hall]
  · exact List.take_of_length_le (by omega)
  · exact List.take_of_length_le (by simp only [List.length_drop]; omega)

/-- What is shown as kept is what counts, in the order of the throw. -/
theorem kept_perm (hl : faces.length = g.quantity) : (g.kept faces).Perm (g.keptFaces faces) := by
  rw [keptFaces_eq_ending hl, ← map_ranking, ← map_ending, kept_eq]
  exact (List.mergeSort_perm _ _).map _

/-- As many faces are shown as kept as the group says. -/
theorem length_kept (hl : faces.length = g.quantity) : (g.kept faces).length = g.keepCount :=
  (kept_perm hl).length_eq.trans (length_keptFaces hl)

theorem keptFaces_pairwise (g : DieGroup) (faces : List Int) :
    (g.keptFaces faces).Pairwise (· ≤ ·) :=
  (ascending_pairwise faces).sublist ((List.take_sublist _ _).trans (List.drop_sublist _ _))

/-- Sorted, the shown faces are the counted part of the sorted throw. -/
theorem ascending_kept (hl : faces.length = g.quantity) :
    ascending (g.kept faces) = g.keptFaces faces :=
  ascending_eq (kept_perm hl).symm (g.keptFaces_pairwise faces)

theorem sum_kept (hl : faces.length = g.quantity) : (g.kept faces).sum = g.keptSum faces := by
  rw [keptSum_eq, (kept_perm hl).sum_eq]

/-- Where one die is kept, it shows the value. -/
theorem kept_eq_singleton (hl : faces.length = g.quantity) (hk : g.keepCount = 1) :
    g.kept faces = [g.keptSum faces] := by
  obtain ⟨f, hf⟩ := List.length_eq_one_iff.mp ((length_kept hl).trans hk)
  rw [← sum_kept hl, hf, List.sum_singleton]

/-! ## Choices of dice -/

/-- In a list that is ranked by a relation, the beginning is, member by member, in front of any
list of as many members. -/
theorem forall₂_take_of_sublist {α : Type} {R : α → α → Prop} (hrefl : ∀ a, R a a) {l : List α}
    (h : l.Pairwise R) : ∀ {s : List α}, s.Sublist l → List.Forall₂ R (l.take s.length) s := by
  induction l with
  | nil =>
    intro s hs
    rw [List.eq_nil_of_sublist_nil hs]
    exact .nil
  | cons a l ih =>
    obtain ⟨ha, hl⟩ := List.pairwise_cons.mp h
    intro s hs
    rcases s with _ | ⟨b, s⟩
    · exact .nil
    · -- Whether or not the list begins with `a`, the rest of it comes behind `a`.
      have hb : R a b ∧ s.Sublist l := by
        rcases List.cons_sublist_cons'.mp hs with hsub | ⟨rfl, hsub⟩
        · exact ⟨ha b (hsub.subset List.mem_cons_self), List.sublist_of_cons_sublist hsub⟩
        · exact ⟨hrefl b, hsub⟩
      exact .cons hb.1 (ih hl hb.2)

section Sorted

variable {l s : List Int} (hl : l.Pairwise (· ≤ ·)) (hs : s.Subperm l)

include hl hs

theorem ascending_sublist : (ascending s).Sublist l :=
  List.sublist_of_subperm_of_pairwise ((ascending_perm s).subperm.trans hs) (ascending_pairwise s) hl

/-- No members of a sorted list sum to less than as many at its beginning. -/
theorem sum_take_le : (l.take s.length).sum ≤ s.sum := by
  have h := forall₂_take_of_sublist Int.le_refl hl (ascending_sublist hl hs)
  rw [length_ascending] at h
  rw [← (ascending_perm s).sum_eq]
  exact h.sum_le_sum

/-- No members of a sorted list sum to more than as many at its end. -/
theorem sum_le_drop : s.sum ≤ (l.drop (l.length - s.length)).sum := by
  have h := forall₂_take_of_sublist (R := fun a b : Int => b ≤ a) Int.le_refl
    (List.pairwise_reverse.mpr hl) (ascending_sublist hl hs).reverse
  rw [List.length_reverse, length_ascending, List.take_reverse] at h
  have hsum := h.flip.sum_le_sum
  rwa [List.sum_reverse, List.sum_reverse, (ascending_perm s).sum_eq] at hsum

end Sorted

/-- The sums of the faces of some dice, so many of them as are to be chosen. -/
def choiceSums (faces : List Int) (count : Nat) : Set Int :=
  {v | ∃ dice : Finset (Fin faces.length), dice.card = count ∧ ∑ i ∈ dice, faces.get i = v}

/-- The faces of some dice. -/
theorem exists_subperm_of_mem {count : Nat} {v : Int} (h : v ∈ choiceSums faces count) :
    ∃ s : List Int, s.Subperm (ascending faces) ∧ s.length = count ∧ s.sum = v := by
  obtain ⟨dice, hcard, hsum⟩ := h
  have hdice : dice.toList.Subperm (ranking faces) := by
    apply dice.nodup_toList.subperm
    intro i _
    exact (ranking_perm faces).mem_iff.mpr (List.mem_finRange i)
  obtain ⟨chosen, hperm, hsub⟩ := hdice
  refine ⟨dice.toList.map faces.get, ?_, ?_, ?_⟩
  · rw [← map_ranking]
    exact ⟨_, hperm.map _, hsub.map _⟩
  · rw [List.length_map, Finset.length_toList, hcard]
  · rw [Finset.sum_map_toList, hsum]

/-- The kept dice are one of the choices. -/
theorem keptSum_mem (hl : faces.length = g.quantity) :
    g.keptSum faces ∈ choiceSums faces g.keepCount := by
  have hnodup : (g.keptPlaces faces).Nodup := by
    rw [keptPlaces_eq]
    exact (List.nodup_finRange _).filter _
  refine ⟨(g.keptPlaces faces).toFinset, ?_, ?_⟩
  · rw [List.toFinset_card_of_nodup hnodup, ← length_kept hl, kept_eq, List.length_map]
  · rw [List.sum_toFinset _ hnodup, ← sum_kept hl, kept_eq]
    rfl

/-- A throw never shows other faces than it counts: those that are shown as kept sum to its value,
sorted they are a slice of the sorted throw, and their sum is the greatest of all choices of so many
dice where the highest are kept, the least where the lowest are. -/
theorem shown_faces_are_counted (h : g.IsThrow faces) :
    (g.kept faces).sum = g.keptSum faces ∧
      ascending (g.kept faces) =
        (ascending faces).extract g.keptRange.1 g.keptRange.2 ∧
      (∀ count, g.keep = some ⟨.highest, count⟩ →
        IsGreatest (choiceSums faces count) (g.keptSum faces)) ∧
      ∀ count, g.keep = some ⟨.lowest, count⟩ →
        IsLeast (choiceSums faces count) (g.keptSum faces) := by
  have hmem := keptSum_mem h.length
  refine ⟨sum_kept h.length, ?_, ?_, ?_⟩
  · rw [ascending_kept h.length, List.extract_eq_take_drop, keptFaces]
  · intro count hk
    rw [keepCount, hk] at hmem
    refine ⟨hmem, fun v hv => ?_⟩
    obtain ⟨s, hs, rfl, rfl⟩ := exists_subperm_of_mem hv
    have hle := sum_le_drop (ascending_pairwise faces) hs
    rwa [length_ascending, h.length, ← keptSum_highest hk h.length] at hle
  · intro count hk
    rw [keepCount, hk] at hmem
    refine ⟨hmem, fun v hv => ?_⟩
    obtain ⟨s, hs, rfl, rfl⟩ := exists_subperm_of_mem hv
    rw [keptSum_lowest hk]
    exact sum_take_le (ascending_pairwise faces) hs

/-- Three dice show the highest face, of which two are kept. -/
theorem shown_faces_are_counted_ties :
    let g : DieGroup := ⟨5, 8, some ⟨.highest, 2⟩, by decide, by decide, by decide, by decide,
      by decide⟩
    let faces : List Int := [4, 7, 7, 1, 7]
    g.IsThrow faces ∧ (g.kept faces).sum = g.keptSum faces ∧
      ascending (g.kept faces) = (ascending faces).extract 3 5 ∧
      IsGreatest (choiceSums faces 2) (g.keptSum faces) := by
  intro g faces
  have hthrow : g.IsThrow faces := ⟨rfl, by decide⟩
  have h := shown_faces_are_counted hthrow
  exact ⟨hthrow, h.1, h.2.1, h.2.2.1 2 rfl⟩

end DiceEngine.DieGroup
