import DiceEngine.Proofs.Average
import DiceEngine.Proofs.Throw
import Mathlib.Algebra.Order.Field.Rat
import Mathlib.Data.Nat.Choose.Basic

/-!
# All throws of some dice

`faceVectors` lists the throws of `n` dice. Every list of `n` faces is a member
(`mem_faceVectors`) and none comes twice (`nodup_faceVectors`), so an average
over it is an average over all equally likely throws. Of the throws, those with
exactly `i` dice above a face are counted (`countP_countAbove`), by induction on
the dice: the first one is above the face or not.
-/

namespace DiceEngine

/-- The throws of `n` dice, the first die first. -/
def faceVectors (sides : Nat) : (n : Nat) → List (List Int)
  | 0 => [[]]
  | n + 1 => (List.range' 1 sides).flatMap fun face : Nat =>
      (faceVectors sides n).map ((face : Int) :: ·)

theorem mem_faceVectors {sides n : Nat} : ∀ {v : List Int},
    v ∈ faceVectors sides n ↔ v.length = n ∧ ∀ f ∈ v, 1 ≤ f ∧ f ≤ sides := by
  induction n with
  | zero =>
    intro v
    rw [faceVectors, List.mem_singleton, List.length_eq_zero_iff]
    exact ⟨fun h => ⟨h, fun f hf => absurd (h ▸ hf) List.not_mem_nil⟩, And.left⟩
  | succ n ih =>
    intro v
    simp only [faceVectors, List.mem_flatMap, List.mem_map, List.mem_range'_1, ih]
    constructor
    · rintro ⟨face, hface, v, ⟨hl, hv⟩, rfl⟩
      refine ⟨by rw [List.length_cons, hl], fun f hf => ?_⟩
      rcases List.mem_cons.mp hf with rfl | hf
      · omega
      · exact hv f hf
    · rintro ⟨hl, hv⟩
      obtain ⟨f, v, rfl⟩ := List.exists_cons_of_length_eq_add_one hl
      have hf := hv f List.mem_cons_self
      refine ⟨f.toNat, by omega, v, ⟨by simpa using hl, fun d hd => ?_⟩, ?_⟩
      · exact hv d (List.mem_cons_of_mem f hd)
      · rw [Int.toNat_of_nonneg (by omega)]

theorem nodup_faceVectors (sides n : Nat) : (faceVectors sides n).Nodup := by
  induction n with
  | zero => exact List.nodup_singleton []
  | succ n ih =>
    rw [faceVectors, List.nodup_flatMap]
    refine ⟨fun face _ => ih.map List.cons_injective, ?_⟩
    refine (List.nodup_range' ).imp fun hne => ?_
    intro v hv hv'
    obtain ⟨w, _, rfl⟩ := List.mem_map.mp hv
    obtain ⟨w', _, heq⟩ := List.mem_map.mp hv'
    exact hne (Int.ofNat_inj.mp (List.cons.inj heq).1.symm)

theorem length_faceVectors (sides n : Nat) : (faceVectors sides n).length = sides ^ n := by
  induction n with
  | zero => rfl
  | succ n ih =>
    rw [faceVectors, List.length_flatMap]
    simp only [List.length_map, ih, List.map_const', List.sum_replicate, List.length_range',
      nsmul_eq_mul, Nat.cast_id]
    rw [Nat.pow_succ, Nat.mul_comm]

theorem faceVectors_ne_nil {sides : Nat} (hs : 1 ≤ sides) (n : Nat) : faceVectors sides n ≠ [] := by
  rw [← List.length_pos_iff, length_faceVectors]
  exact Nat.pow_pos hs

/-- The average face of a die. -/
theorem average_face {sides : Nat} (hs : 1 ≤ sides) :
    average (List.range' 1 sides) (fun face : Nat => (face : ℚ)) = (sides + 1) / 2 := by
  have hsum : ∀ n : Nat, ((List.range' 1 n).map fun face : Nat => (face : ℚ)).sum =
      n * (n + 1) / 2 := by
    intro n
    induction n with
    | zero => simp
    | succ n ih =>
      rw [List.range'_1_concat, List.map_append, List.sum_append, ih]
      simp only [List.map_cons, List.map_nil, List.sum_singleton]
      push_cast
      ring
  have hpos : (sides : ℚ) ≠ 0 := Nat.cast_ne_zero.mpr (by omega)
  rw [average, hsum, List.length_range']
  field_simp

/-- The average sum of some dice. -/
theorem average_sum_faceVectors {sides : Nat} (hs : 1 ≤ sides) (n : Nat) :
    average (faceVectors sides n) (fun v => (v.sum : Int)) = n * (sides + 1) / 2 := by
  have hfaces : List.range' 1 sides ≠ [] := by
    rw [← List.length_pos_iff, List.length_range']
    exact hs
  induction n with
  | zero => simp [average, faceVectors]
  | succ n ih =>
    rw [faceVectors, average_pairs]
    simp only [List.sum_cons, Int.cast_add, Int.cast_natCast, average_add, ih,
      average_const (faceVectors_ne_nil hs n), average_const hfaces, average_face hs]
    push_cast
    ring

/-- How many dice of a throw show more than a face. -/
def countAbove (face : Nat) (v : List Int) : Nat := v.countP fun d => (face : Int) < d

theorem countAbove_cons (face : Nat) (d : Int) (v : List Int) :
    countAbove face (d :: v) = countAbove face v + if (face : Int) < d then 1 else 0 := by
  rw [countAbove, List.countP_cons, countAbove]
  simp only [decide_eq_true_eq]

/-- A sum over the faces of a die, of which those above a face count alike and so do the others. -/
theorem sum_faces_ite {sides face : Nat} (hf : face ≤ sides) (a b : Nat) :
    ((List.range' 1 sides).map fun d : Nat => if (face : Int) < d then a else b).sum =
      (sides - face) * a + face * b := by
  obtain ⟨above, rfl⟩ := Nat.exists_eq_add_of_le hf
  have hlow : ∀ d ∈ List.range' 1 face, (if (face : Int) < (d : Nat) then a else b) = b := by
    intro d hd
    rw [List.mem_range'_1] at hd
    exact if_neg (by omega)
  have hhigh : ∀ d ∈ List.range' (1 + face) above,
      (if (face : Int) < (d : Nat) then a else b) = a := by
    intro d hd
    rw [List.mem_range'_1] at hd
    exact if_pos (by omega)
  rw [← List.range'_append_1, List.map_append, List.sum_append, List.map_congr_left hlow,
    List.map_congr_left hhigh]
  simp only [List.map_const', List.sum_replicate, List.length_range', nsmul_eq_mul, Nat.cast_id]
  rw [Nat.add_sub_cancel_left, Nat.add_comm]

/-- The throws of one die more that have a property, by the face of the first die. -/
theorem countP_faceVectors_succ (sides n : Nat) (p : List Int → Bool) :
    (faceVectors sides (n + 1)).countP p =
      ((List.range' 1 sides).map fun d : Nat =>
        (faceVectors sides n).countP fun v => p ((d : Int) :: v)).sum := by
  rw [faceVectors, List.countP_flatMap]
  simp only [Function.comp_def, List.countP_map]

/-- One die more: it is above the face, or the others have as many dice above the face. -/
theorem countP_countAbove_succ {sides face : Nat} (hf : face ≤ sides) (n i : Nat) :
    (faceVectors sides (n + 1)).countP (fun v => countAbove face v = i) =
      (sides - face) * ((faceVectors sides n).countP fun v => countAbove face v + 1 = i) +
        face * (faceVectors sides n).countP fun v => countAbove face v = i := by
  have hfirst : ∀ d : Nat, ((faceVectors sides n).countP fun v =>
      countAbove face ((d : Int) :: v) = i) =
      if (face : Int) < d then (faceVectors sides n).countP fun v => countAbove face v + 1 = i
      else (faceVectors sides n).countP fun v => countAbove face v = i := by
    intro d
    simp only [countAbove_cons]
    split
    · rfl
    · simp only [Nat.add_zero]
  rw [countP_faceVectors_succ]
  simp only [hfirst]
  rw [sum_faces_ite hf]

/-- The throws with exactly `i` dice above a face: choose these dice, and a face for each die. -/
theorem countP_countAbove {sides face : Nat} (hf : face ≤ sides) (n : Nat) : ∀ i : Nat,
    (faceVectors sides n).countP (fun v => countAbove face v = i) =
      n.choose i * ((sides - face) ^ i * face ^ (n - i)) := by
  induction n with
  | zero =>
    intro i
    rcases i with _ | i
    · simp [faceVectors, countAbove]
    · simp [faceVectors, countAbove]
  | succ n ih =>
    intro i
    rw [countP_countAbove_succ hf, ih i]
    rcases i with _ | i
    · simp only [Nat.add_eq_zero_iff, Nat.one_ne_zero, and_false, decide_false, List.countP_false,
        Function.const_apply, Nat.choose_zero_right, Nat.sub_zero, pow_zero, pow_succ]
      ring
    · simp only [Nat.add_right_cancel_iff]
      rw [ih i, Nat.choose_succ_succ, Nat.succ_sub_succ]
      rcases Nat.lt_or_ge i n with h | h
      · obtain ⟨m, rfl⟩ := Nat.exists_eq_add_of_lt h
        rw [show i + m + 1 - i = m + 1 by omega, show i + m + 1 - (i + 1) = m by omega,
          pow_succ face, pow_succ (sides - face)]
        ring
      · rw [Nat.choose_eq_zero_of_lt (Nat.lt_succ_of_le h), pow_succ (sides - face)]
        ring

end DiceEngine
