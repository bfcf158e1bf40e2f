import DiceEngine.Proofs.Throw
import Mathlib.Data.List.Sort

/-!
# The places of the kept dice

A group decides by ranks which dice of a throw are kept: one die stands before
another where its face is lower, or as low and thrown earlier (`Precedes`). The
lowest dice are those that few others precede, the highest those that precede
few others (`keeps`). That `kept` comes to this is shown in three steps:

* `ranking_pairwise`: sorting by faces alone ranks the dice, since it is stable;
* `take_eq_filter_countP`: the beginning of a ranking is made of the dice that
  are preceded by few;
* `keptPlaces_eq`: back in their order, the dice of one end are those that the
  rule keeps, and `kept` shows their faces (`kept_eq`).
-/

namespace DiceEngine.DieGroup

/-! ## Rankings -/

section Rankings

variable {α : Type} {R : α → α → Prop} {l : List α}

/-- Sorting is stable: where some members are in order, they stay as they are. -/
theorem filter_mergeSort {le : α → α → Bool} {p : α → Bool}
    (htrans : ∀ a b c, le a b → le b c → le a c) (htotal : ∀ a b, le a b || le b a)
    (h : (l.filter p).Pairwise (le · ·)) : (l.mergeSort le).filter p = l.filter p := by
  have hsub : (l.filter p).Sublist (l.mergeSort le) :=
    List.sublist_mergeSort htrans htotal h List.filter_sublist
  have hfilter : (l.filter p).Sublist ((l.mergeSort le).filter p) := by
    simpa only [List.filter_filter, Bool.and_self] using hsub.filter p
  exact (hfilter.eq_of_length ((List.mergeSort_perm l le).filter p).length_eq.symm).symm

variable [DecidableRel R] (hR : ∀ a b, R a b → ¬ R b a)

include hR

/-- In a ranking the place of a member is the number of those that precede it. -/
theorem countP_getElem_eq (h : l.Pairwise R) : ∀ {i : Nat} (hi : i < l.length),
    l.countP (R · l[i]) = i := by
  induction l with
  | nil => exact fun hi => absurd hi (Nat.not_lt_zero _)
  | cons a l ih =>
    obtain ⟨ha, hl⟩ := List.pairwise_cons.mp h
    intro i hi
    rcases i with _ | i
    · have hself : ¬ R a a := fun h => hR a a h h
      have hnone : l.countP (R · a) = 0 := by
        simpa [List.countP_eq_zero] using fun b hb => hR a b (ha b hb)
      simp [hself, hnone]
    · have hi : i < l.length := Nat.lt_of_succ_lt_succ hi
      simp [ha _ (List.getElem_mem hi), ih hl hi]

/-- The beginning of a ranking is made of the members that few others precede. -/
theorem take_eq_filter_countP (h : l.Pairwise R) (count : Nat) :
    l.take count = l.filter fun a => l.countP (R · a) < count := by
  have hplace : ∀ i (hi : i < l.length), l.countP (R · l[i]) = i :=
    fun i hi => countP_getElem_eq hR h hi
  have htake : (l.take count).filter (fun a => l.countP (R · a) < count) = l.take count := by
    refine List.filter_eq_self.mpr fun a ha => ?_
    obtain ⟨i, hi, rfl⟩ := List.mem_take_iff_getElem.mp ha
    simp only [hplace, decide_eq_true_eq]
    omega
  have hdrop : (l.drop count).filter (fun a => l.countP (R · a) < count) = [] := by
    refine List.filter_eq_nil_iff.mpr fun a ha => ?_
    obtain ⟨i, hi, rfl⟩ := List.mem_drop_iff_getElem.mp ha
    simp only [hplace, decide_eq_true_eq]
    omega
  calc l.take count
      = (l.take count ++ l.drop count).filter fun a => l.countP (R · a) < count := by
        rw [List.filter_append, htake, hdrop, List.append_nil]
    _ = l.filter fun a => l.countP (R · a) < count := by rw [List.take_append_drop]

/-- The end of a ranking is made of the members that precede few others. -/
theorem drop_eq_filter_countP (h : l.Pairwise R) (count : Nat) :
    l.drop (l.length - count) = l.filter fun a => l.countP (R a ·) < count := by
  -- Read from its end, the ranking is one by the opposite relation.
  have hreverse := take_eq_filter_countP (R := fun a b => R b a) (fun a b => hR b a)
    (List.pairwise_reverse.mpr h) count
  rw [List.take_reverse, List.filter_reverse, List.reverse_inj] at hreverse
  simpa only [List.countP_reverse] using hreverse

end Rankings

/-! ## The dice of a throw -/

variable {faces : List Int}

/-- One die stands before another: its face is lower, or as low and thrown earlier. -/
def Precedes (faces : List Int) (i j : Fin faces.length) : Prop :=
  faces[i] < faces[j] ∨ faces[i] = faces[j] ∧ i < j

instance : DecidableRel (Precedes faces) := fun _ _ => inferInstanceAs (Decidable (_ ∨ _))

/-- How many dice stand before a die. -/
def before (faces : List Int) (i : Fin faces.length) : Nat :=
  (List.finRange faces.length).countP (Precedes faces · i)

/-- How many dice stand behind a die. -/
def behind (faces : List Int) (i : Fin faces.length) : Nat :=
  (List.finRange faces.length).countP (Precedes faces i ·)

/-- Whether the group keeps a die. -/
def keeps (g : DieGroup) (faces : List Int) (i : Fin faces.length) : Bool :=
  match g.keep with
  | some ⟨.lowest, count⟩ => before faces i < count
  | some ⟨.highest, count⟩ => behind faces i < count
  | none => true

theorem Precedes.asymm {i j : Fin faces.length} (h : Precedes faces i j) :
    ¬ Precedes faces j i := by
  unfold Precedes at *
  omega

theorem Precedes.trans {i j k : Fin faces.length} (h : Precedes faces i j)
    (h' : Precedes faces j k) : Precedes faces i k := by
  unfold Precedes at *
  omega

/-- The dice in the order of their faces. -/
def ranking (faces : List Int) : List (Fin faces.length) :=
  (List.finRange faces.length).mergeSort fun i j => faces[i] ≤ faces[j]

theorem ranking_perm (faces : List Int) : (ranking faces).Perm (List.finRange faces.length) :=
  List.mergeSort_perm _ _

theorem length_ranking (faces : List Int) : (ranking faces).length = faces.length := by
  rw [(ranking_perm faces).length_eq, List.length_finRange]

theorem map_ranking (faces : List Int) : (ranking faces).map (faces[·]) = ascending faces := by
  have hfaces : (List.finRange faces.length).map (faces[·]) = faces := List.map_get_finRange faces
  have hsorted : (ranking faces).map (faces[·]) =
      ((List.finRange faces.length).map (faces[·])).mergeSort (· ≤ ·) :=
    List.map_mergeSort fun _ _ _ _ => rfl
  rw [hsorted, hfaces, ascending]

/-- Of dice with the same face the one thrown earlier comes first. -/
theorem ranking_pairwise (faces : List Int) : (ranking faces).Pairwise (Precedes faces) := by
  have htrans : ∀ i j k : Fin faces.length, decide (faces[i] ≤ faces[j]) →
      decide (faces[j] ≤ faces[k]) → decide (faces[i] ≤ faces[k]) := by
    simp only [decide_eq_true_eq]
    omega
  have htotal : ∀ i j : Fin faces.length,
      decide (faces[i] ≤ faces[j]) || decide (faces[j] ≤ faces[i]) := by
    simp only [Bool.or_eq_true, decide_eq_true_eq]
    omega
  rw [List.pairwise_iff_forall_sublist]
  intro i j hij
  have hle : faces[i] ≤ faces[j] := by
    have hsorted := (List.pairwise_mergeSort htrans htotal (List.finRange faces.length)).sublist hij
    simpa using hsorted
  rcases Int.lt_or_eq_of_le hle with hlt | heq
  · exact .inl hlt
  · -- Among the dice with this face the order of the throw has stayed.
    have hface : (ranking faces).filter (fun k => faces[k] = faces[i]) =
        (List.finRange faces.length).filter fun k => faces[k] = faces[i] := by
      apply filter_mergeSort htrans htotal
      rw [List.pairwise_filter]
      apply List.Pairwise.imp _ (List.pairwise_lt_finRange _)
      simp only [decide_eq_true_eq]
      omega
    have hsub := hij.filter fun k => decide (faces[k] = faces[i])
    rw [hface, List.filter_cons_of_pos (by simp),
      List.filter_cons_of_pos (by simpa using heq.symm), List.filter_nil] at hsub
    have hthrown := (List.pairwise_lt_finRange _).sublist (hsub.trans List.filter_sublist)
    exact .inr ⟨heq, by simpa using hthrown⟩

/-! ## The end that is kept -/

/-- What the group keeps of a sorted list. -/
def ending {α : Type} (g : DieGroup) (sorted : List α) : List α :=
  match g.keep with
  | some ⟨.lowest, count⟩ => sorted.take count
  | some ⟨.highest, count⟩ => sorted.drop (sorted.length - count)
  | none => sorted

theorem map_ending {α β : Type} (g : DieGroup) (f : α → β) (sorted : List α) :
    (g.ending sorted).map f = g.ending (sorted.map f) := by
  rcases hk : g.keep with _ | ⟨_ | _, count⟩ <;>
    simp only [ending, hk, List.map_take, List.map_drop, List.length_map]

theorem length_ending {α : Type} (g : DieGroup) (sorted : List α) : (g.ending sorted).length =
    g.keep.elim sorted.length fun k => min k.count sorted.length := by
  rcases hk : g.keep with _ | ⟨_ | _, count⟩ <;>
    simp only [ending, hk, Option.elim_none, Option.elim_some, List.length_take, List.length_drop]
  omega

/-- The places of the dice that the group keeps, in the order of the throw. -/
def keptPlaces (g : DieGroup) (faces : List Int) : List (Fin faces.length) :=
  (g.ending (ranking faces)).mergeSort (· ≤ ·)

theorem kept_eq_ending (g : DieGroup) (faces : List Int) : g.kept faces =
    ((g.ending (faces.zipIdx.mergeSort fun a b => a.1 ≤ b.1)).mergeSort
      fun a b => a.2 ≤ b.2).map (·.1) := by
  rcases hk : g.keep with _ | ⟨_ | _, count⟩ <;> simp only [kept, ending, hk]

theorem zipIdx_eq_map_finRange (faces : List Int) :
    faces.zipIdx = (List.finRange faces.length).map fun i => (faces[i], i.val) :=
  List.ext_getElem (by simp) fun i _ _ => by simp

/-- What is shown as kept are the faces at the kept places. -/
theorem kept_eq (g : DieGroup) (faces : List Int) :
    g.kept faces = (g.keptPlaces faces).map (faces[·]) := by
  have hranked : faces.zipIdx.mergeSort (fun a b => a.1 ≤ b.1) =
      (ranking faces).map fun i => (faces[i], i.val) := by
    rw [zipIdx_eq_map_finRange, ranking, List.map_mergeSort]
    exact fun _ _ _ _ => rfl
  have hplaces : (g.keptPlaces faces).map (fun i => (faces[i], i.val)) =
      ((g.ending (ranking faces)).map fun i => (faces[i], i.val)).mergeSort fun a b => a.2 ≤ b.2 :=
    List.map_mergeSort fun _ _ _ _ => rfl
  rw [kept_eq_ending, hranked, ← map_ending, ← hplaces, List.map_map]
  rfl

theorem ending_ranking (g : DieGroup) (faces : List Int) :
    g.ending (ranking faces) = (ranking faces).filter (g.keeps faces) := by
  have hR : ∀ i j, Precedes faces i j → ¬ Precedes faces j i := fun _ _ h => h.asymm
  have hcount : ∀ p : Fin faces.length → Bool,
      (ranking faces).countP p = (List.finRange faces.length).countP p :=
    (ranking_perm faces).countP_eq
  rcases hk : g.keep with _ | ⟨_ | _, count⟩ <;> simp only [ending, hk]
  · refine (List.filter_eq_self.mpr fun i _ => ?_).symm
    simp only [keeps, hk]
  · rw [take_eq_filter_countP hR (ranking_pairwise faces)]
    refine List.filter_congr fun i _ => ?_
    simp only [keeps, hk, hcount]
    rfl
  · rw [drop_eq_filter_countP hR (ranking_pairwise faces)]
    refine List.filter_congr fun i _ => ?_
    simp only [keeps, hk, hcount]
    rfl

/-- The kept places are those that the rule keeps. -/
theorem keptPlaces_eq (g : DieGroup) (faces : List Int) :
    g.keptPlaces faces = (List.finRange faces.length).filter (g.keeps faces) := by
  have hperm : (g.keptPlaces faces).Perm ((List.finRange faces.length).filter (g.keeps faces)) := by
    apply (List.mergeSort_perm _ _).trans
    rw [ending_ranking]
    exact (ranking_perm faces).filter _
  have hsorted : (g.keptPlaces faces).Pairwise (· ≤ ·) := by
    have h := @List.pairwise_mergeSort _ (fun i j : Fin faces.length => decide (i ≤ j))
      (by simp only [decide_eq_true_eq]; omega)
      (by simp only [Bool.or_eq_true, decide_eq_true_eq]; omega) (g.ending (ranking faces))
    exact h.imp fun hij => of_decide_eq_true hij
  have hfilter : ((List.finRange faces.length).filter (g.keeps faces)).Pairwise (· ≤ ·) :=
    ((List.pairwise_lt_finRange _).sublist List.filter_sublist).imp Nat.le_of_lt
  exact hperm.eq_of_pairwise (fun i j _ _ => Fin.le_antisymm) hsorted hfilter

/-- A die beats another where its face is further towards the end that the group keeps. -/
def Beats (g : DieGroup) (faces : List Int) (i j : Fin faces.length) : Prop :=
  match g.keep with
  | some ⟨.lowest, _⟩ => faces[i] < faces[j]
  | some ⟨.highest, _⟩ => faces[j] < faces[i]
  | none => False

/-- Fewer dice stand before one that precedes another. -/
theorem Precedes.before_le {i j : Fin faces.length} (h : Precedes faces i j) :
    before faces i ≤ before faces j :=
  List.countP_mono_left fun k _ hk => by
    simp only [decide_eq_true_eq] at hk ⊢
    exact hk.trans h

theorem Precedes.behind_le {i j : Fin faces.length} (h : Precedes faces i j) :
    behind faces j ≤ behind faces i :=
  List.countP_mono_left fun k _ hk => by
    simp only [decide_eq_true_eq] at hk ⊢
    exact h.trans hk

/-- A die that beats one that is kept is kept. -/
theorem keeps_of_beats {g : DieGroup} {i j : Fin faces.length} (hj : g.keeps faces j)
    (h : g.Beats faces i j) : g.keeps faces i := by
  rcases hk : g.keep with _ | ⟨_ | _, count⟩ <;>
    simp only [keeps, Beats, hk, decide_eq_true_eq] at hj h ⊢
  · exact Nat.lt_of_le_of_lt (Precedes.before_le (.inl h)) hj
  · exact Nat.lt_of_le_of_lt (Precedes.behind_le (.inl h)) hj

/-- Of any faces, as many as there may be, the group keeps those at the places of its rule, in
their order: as many as it says or all, and no die that is dropped beats one that is kept. -/
theorem kept_by_rank (g : DieGroup) (faces : List Int) :
    g.kept faces = ((List.finRange faces.length).filter (g.keeps faces)).map (faces[·]) ∧
      (g.kept faces).length = g.keep.elim faces.length (fun k => min k.count faces.length) ∧
      ∀ i j, g.keeps faces i → ¬ g.keeps faces j → ¬ g.Beats faces j i := by
  refine ⟨?_, ?_, fun i j hi hj hbeats => hj (keeps_of_beats hi hbeats)⟩
  · rw [kept_eq, keptPlaces_eq]
  · rw [kept_eq, List.length_map, keptPlaces, List.length_mergeSort, length_ending,
      length_ranking]

/-- Of equal faces the first is the lowest and the last the highest. -/
example :
    let group (selector : Selector) : DieGroup := ⟨5, 6, some ⟨selector, 2⟩, by decide, by decide,
      by decide, by decide, by simp⟩
    (List.finRange 5).filter ((group .lowest).keeps [4, 3, 4, 6, 4]) = [0, 1] ∧
      (List.finRange 5).filter ((group .highest).keeps [4, 3, 4, 6, 4]) = [3, 4] := by
  decide

end DiceEngine.DieGroup
