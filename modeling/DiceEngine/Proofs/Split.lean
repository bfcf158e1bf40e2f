import DiceEngine.Proofs.Choices
import DiceEngine.Proofs.Spelling
import DiceEngine.Proofs.Transcript

/-!
# Lowest and highest dice split a roll

A group without a count of kept dice, one that keeps its lowest few, and one
that keeps all the others as its highest (`Halves`) throw the same dice, so they
take the same words from a source (`Halves.throw_eq`). What the latter two keep
of a throw begins and ends at the same point of one ranking, so no die is left
out and none counts twice, not even among equal faces (`Halves.places_perm`),
and the two values make up the value of all dice (`Halves.keptSum_add`).
-/

namespace DiceEngine.DieGroup

variable {all low high : DieGroup} {count : Nat} {faces : List Int}

/-- All dice, the lowest few of them, and the others as the highest. -/
structure Halves (all low high : DieGroup) (count : Nat) : Prop where
  keep_all : all.keep = none
  keep_low : low.keep = some ⟨.lowest, count⟩
  keep_high : high.keep = some ⟨.highest, all.quantity - count⟩
  quantity : low.quantity = all.quantity ∧ high.quantity = all.quantity
  sides : low.sides = all.sides ∧ high.sides = all.sides

theorem halves_of_create {q n : Nat} (hall : create q n none = .ok all)
    (hlow : create q n (some ⟨.lowest, count⟩) = .ok low)
    (hhigh : create q n (some ⟨.highest, q - count⟩) = .ok high) (hcount : count ≤ q) :
    Halves all low high count := by
  obtain ⟨rfl, rfl, hkeep⟩ := create_eq_ok_iff.mp hall
  obtain ⟨hql, hsl, hkl⟩ := create_eq_ok_iff.mp hlow
  obtain ⟨hqh, hsh, hkh⟩ := create_eq_ok_iff.mp hhigh
  rw [Option.map_some, Nat.min_eq_left hcount] at hkl
  rw [Option.map_some, Nat.min_eq_left (Nat.sub_le _ _)] at hkh
  exact ⟨hkeep, hkl, hkh, ⟨hql, hqh⟩, hsl, hsh⟩

namespace Halves

variable (h : Halves all low high count)

include h

theorem count_le : count ≤ all.quantity := h.quantity.1 ▸ low.count_le _ h.keep_low

/-- The ends that are kept meet: what one leaves of a sorted list is what the other keeps. -/
theorem ending_append {α : Type} {sorted : List α} (hl : sorted.length = all.quantity) :
    low.ending sorted ++ high.ending sorted = sorted := by
  have hcount := h.count_le
  have hlow : low.ending sorted = sorted.take count := by simp only [ending, h.keep_low]
  have hhigh : high.ending sorted = sorted.drop count := by
    simp only [ending, h.keep_high]
    rw [show sorted.length - (all.quantity - count) = count by omega]
  rw [hlow, hhigh, List.take_append_drop]

/-- The places of both are all places of the throw, each of them once. -/
theorem places_perm (hl : faces.length = all.quantity) :
    (low.keptPlaces faces ++ high.keptPlaces faces).Perm (List.finRange faces.length) := by
  have hranked : (ranking faces).length = all.quantity := (length_ranking faces).trans hl
  apply ((List.mergeSort_perm _ _).append (List.mergeSort_perm _ _)).trans
  rw [h.ending_append hranked]
  exact ranking_perm faces

theorem keptSum_add (hl : faces.length = all.quantity) :
    all.keptSum faces = low.keptSum faces + high.keptSum faces := by
  have hsorted : (ascending faces).length = all.quantity := (length_ascending faces).trans hl
  have hlow : low.keptSum faces = (low.ending (ascending faces)).sum := by
    rw [keptSum_eq, keptFaces_eq_ending (hl.trans h.quantity.1.symm)]
  have hhigh : high.keptSum faces = (high.ending (ascending faces)).sum := by
    rw [keptSum_eq, keptFaces_eq_ending (hl.trans h.quantity.2.symm)]
  rw [keptSum_all h.keep_all hl, hlow, hhigh, ← List.sum_append, h.ending_append hsorted,
    (ascending_perm faces).sum_eq]

variable {σ : Type} [WordSource σ]

/-- The three groups throw the same dice. -/
theorem throw_eq {g : DieGroup} (hg : g ∈ [all, low, high]) :
    (g.throw : Draw σ (List Int)) = all.throw := by
  have hdice : g.quantity = all.quantity ∧ g.sides = all.sides := by
    simp only [List.mem_cons, List.not_mem_nil, or_false] at hg
    rcases hg with rfl | rfl | rfl
    · exact ⟨rfl, rfl⟩
    · exact ⟨h.quantity.1, h.sides.1⟩
    · exact ⟨h.quantity.2, h.sides.2⟩
  rw [throw, throw, hdice.1, hdice.2]

end Halves

variable {σ : Type} [WordSource σ]

/-- A roll makes of a throw its value, and with it the faces where they are to be shown. -/
theorem run_roll (g : DieGroup) (s : σ) :
    g.roll.run s = ((g.throw.run s).1.map g.keptSum, (g.throw.run s).2) := by
  rw [roll, bind_pure_comp, Draw.run_map]

theorem run_rollShown (g : DieGroup) (s : σ) : g.rollShown.run s =
    ((g.throw.run s).1.map fun faces => (g.keptSum faces, faces), (g.throw.run s).2) := by
  rw [rollShown, bind_pure_comp, Draw.run_map]

/-- Rolled from one source, the groups of all dice, of the lowest few and of the highest of the
others have the same fault, or they throw the same faces and leave the same source. Then the value
of all dice is the sum of the two others, which show the faces of all places between them, of each
place once. -/
theorem lowest_and_highest_split {q n : Nat} (hall : create q n none = .ok all)
    (hlow : create q n (some ⟨.lowest, count⟩) = .ok low)
    (hhigh : create q n (some ⟨.highest, q - count⟩) = .ok high) (hcount : count ≤ q) (s : σ) :
    (∃ f s', ∀ g ∈ [all, low, high],
      g.roll.run s = (.error f, s') ∧ g.rollShown.run s = (.error f, s')) ∨
    ∃ faces s', all.IsThrow faces ∧
      (∀ g ∈ [all, low, high], g.roll.run s = (.ok (g.keptSum faces), s') ∧
        g.rollShown.run s = (.ok (g.keptSum faces, faces), s')) ∧
      all.keptSum faces = low.keptSum faces + high.keptSum faces ∧
      low.kept faces = (low.keptPlaces faces).map (faces[·]) ∧
      high.kept faces = (high.keptPlaces faces).map (faces[·]) ∧
      (low.keptPlaces faces ++ high.keptPlaces faces).Perm (List.finRange faces.length) := by
  have h := halves_of_create hall hlow hhigh hcount
  have hends := all.ends_throw (E := fun _ => True)
    (fun _ hs => Draw.ends_face_any trivial trivial hs) s
  rcases hrun : all.throw.run s with ⟨f | faces, s'⟩
  · refine .inl ⟨f, s', fun g hg => ?_⟩
    rw [run_roll, run_rollShown, h.throw_eq hg, hrun]
    exact ⟨rfl, rfl⟩
  · rw [hrun] at hends
    have hthrow : all.IsThrow faces := hends
    refine .inr ⟨faces, s', hthrow, fun g hg => ?_, h.keptSum_add hthrow.length, low.kept_eq faces,
      high.kept_eq faces, h.places_perm hthrow.length⟩
    rw [run_roll, run_rollShown, h.throw_eq hg, hrun]
    exact ⟨rfl, rfl⟩

/-- The first word is rejected, and the two highest of the four dice show the same face. -/
theorem lowest_and_highest_split_pairs :
    let group (keep : Option Keep) (h : ∀ k ∈ keep, k.count ≤ 4) : DieGroup :=
      ⟨4, 6, keep, by decide, by decide, by decide, by decide, h⟩
    let all := group none (by decide)
    let low := group (some ⟨.lowest, 3⟩) (by decide)
    let high := group (some ⟨.highest, 1⟩) (by decide)
    let words : List UInt64 :=
      [0x5555555555555555, 0x8000000000000000, 0, 0x8000000000000001, 0x4000000000000000, 7]
    let faces : List Int := [4, 1, 4, 2]
    create 4 6 none = .ok all ∧ create 4 6 (some ⟨.lowest, 3⟩) = .ok low ∧
      create 4 6 (some ⟨.highest, 4 - 3⟩) = .ok high ∧ 3 ≤ 4 ∧ all.IsThrow faces ∧
      (∀ g ∈ [all, low, high], g.roll.run words = (.ok (g.keptSum faces), [7]) ∧
        g.rollShown.run words = (.ok (g.keptSum faces, faces), [7])) ∧
      all.keptSum faces = low.keptSum faces + high.keptSum faces ∧
      low.kept faces = (low.keptPlaces faces).map (faces[·]) ∧
      high.kept faces = (high.keptPlaces faces).map (faces[·]) ∧
      (low.keptPlaces faces ++ high.keptPlaces faces).Perm (List.finRange faces.length) := by
  intro group all low high words faces
  have hrun : (all.throw : Draw (List UInt64) (List Int)).run words = (.ok faces, [7]) := by
    show (Draw.faces 6 4).run words = _
    rfl
  have hall : create 4 6 none = .ok all := rfl
  have hlow : create 4 6 (some ⟨.lowest, 3⟩) = .ok low := rfl
  have hhigh : create 4 6 (some ⟨.highest, 4 - 3⟩) = .ok high := rfl
  refine ⟨hall, hlow, hhigh, by decide, ?_⟩
  rcases lowest_and_highest_split hall hlow hhigh (by decide) words with
    ⟨f, s', hfault⟩ | ⟨faces', s', h⟩
  · have hroll := (hfault all List.mem_cons_self).1
    rw [run_roll, hrun] at hroll
    cases hroll
  · have hroll := (h.2.1 all List.mem_cons_self).2
    rw [run_rollShown, hrun, Prod.mk.injEq, Except.map, Except.ok.injEq, Prod.mk.injEq] at hroll
    obtain ⟨⟨-, rfl⟩, rfl⟩ := hroll
    exact h

end DiceEngine.DieGroup
