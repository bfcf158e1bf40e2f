import Mathlib.Algebra.BigOperators.Ring.List
import Mathlib.Algebra.Field.Rat
import Mathlib.Data.List.Nodup
import Mathlib.Tactic.FieldSimp
import Mathlib.Tactic.Ring

/-!
# Averages

The average of a quantity over the members of a list, each of which counts
once. It is linear (`average_add`, `average_sub`, `average_sum`), over pairs it
is taken one component after the other (`average_pairs`), and it can be summed
value by value, each value weighed by the share of the members that have it
(`average_eq_sum_share`).
-/

namespace DiceEngine

variable {β γ δ : Type}

/-- The average of `f` over the members of a list. -/
def average (xs : List β) (f : β → ℚ) : ℚ := (xs.map f).sum / xs.length

/-- The share of the members of a list that have a property. -/
def share (xs : List β) (p : β → Bool) : ℚ := xs.countP p / xs.length

theorem average_congr {xs : List β} {f g : β → ℚ} (h : ∀ x ∈ xs, f x = g x) :
    average xs f = average xs g := by
  rw [average, average, List.map_congr_left h]

/-- The order of the members does not matter. -/
theorem average_perm {xs ys : List β} (h : xs.Perm ys) (f : β → ℚ) :
    average xs f = average ys f := by
  rw [average, average, (h.map f).sum_eq, h.length_eq]

theorem average_map (xs : List γ) (g : γ → β) (f : β → ℚ) :
    average (xs.map g) f = average xs fun x => f (g x) := by
  rw [average, List.map_map, List.length_map]
  rfl

theorem average_const {xs : List β} (h : xs ≠ []) (c : ℚ) : average xs (fun _ => c) = c := by
  have hl : (xs.length : ℚ) ≠ 0 := Nat.cast_ne_zero.mpr (mt List.eq_nil_of_length_eq_zero h)
  rw [average, List.map_const', List.sum_replicate, nsmul_eq_mul]
  exact mul_div_cancel_left₀ c hl

theorem average_add (xs : List β) (f g : β → ℚ) :
    average xs (fun x => f x + g x) = average xs f + average xs g := by
  rw [average, List.sum_map_add, add_div]
  rfl

theorem average_mul_left (xs : List β) (c : ℚ) (f : β → ℚ) :
    average xs (fun x => c * f x) = c * average xs f := by
  rw [average, List.sum_map_mul_left, mul_div_assoc]
  rfl

theorem sum_map_sub (xs : List β) (f g : β → ℚ) :
    (xs.map fun x => f x - g x).sum = (xs.map f).sum - (xs.map g).sum := by
  rw [eq_sub_iff_add_eq, ← List.sum_map_add]
  simp only [sub_add_cancel]

theorem average_sub (xs : List β) (f g : β → ℚ) :
    average xs (fun x => f x - g x) = average xs f - average xs g := by
  rw [average, sum_map_sub, sub_div]
  rfl

theorem average_zero (xs : List β) : average xs (fun _ => 0) = 0 := by
  rw [average, List.map_const', List.sum_replicate, nsmul_zero, zero_div]

/-- The average of a sum, with as many summands as a list has members. -/
theorem average_sum (xs : List β) (ks : List γ) (f : γ → β → ℚ) :
    average xs (fun x => (ks.map fun k => f k x).sum) = (ks.map fun k => average xs (f k)).sum := by
  induction ks with
  | nil => exact average_zero xs
  | cons k ks ih => simp only [List.map_cons, List.sum_cons, average_add, ih]

/-- Pairs are averaged over one component after the other. -/
theorem average_pairs (xs : List β) (ys : List γ) (pair : β → γ → δ) (f : δ → ℚ) :
    average (xs.flatMap fun x => ys.map (pair x)) f =
      average xs fun x => average ys fun y => f (pair x y) := by
  have hsum : ((xs.flatMap fun x => ys.map (pair x)).map f).sum =
      (xs.map fun x => (ys.map fun y => f (pair x y)).sum).sum := by
    rw [List.map_flatMap, List.flatMap_def, List.sum_flatten]
    simp only [List.map_map, Function.comp_def]
  have hlength : (xs.flatMap fun x => ys.map (pair x)).length = xs.length * ys.length := by
    simp only [List.length_flatMap, List.length_map, List.map_const', List.sum_replicate,
      nsmul_eq_mul, Nat.cast_id]
  simp only [average]
  rw [hsum, hlength, Nat.cast_mul, ← div_div, div_right_comm]
  simp only [div_eq_mul_inv, List.sum_map_mul_right]

theorem share_eq_average (xs : List β) (p : β → Bool) :
    share xs p = average xs fun x => if p x then 1 else 0 := by
  rw [share, average, List.sum_map_ite]
  simp only [List.map_const', List.sum_replicate, nsmul_eq_mul, mul_one, mul_zero, add_zero,
    List.countP_eq_length_filter, Bool.decide_eq_true]

/-- The share of one value, from the shares of what is at most a value. -/
theorem share_eq_sub {xs : List β} {value : β → Int} {v : Nat} (hv : 1 ≤ v) :
    (share xs fun x => value x = (v : Int)) =
      (share xs fun x => value x ≤ (v : Int)) -
        share xs fun x => value x ≤ ((v - 1 : Nat) : Int) := by
  simp only [share_eq_average]
  rw [← average_sub]
  refine average_congr fun x _ => ?_
  simp only [decide_eq_true_eq]
  rcases Int.lt_trichotomy (value x) v with h | h | h
  · rw [if_neg (by omega), if_pos (by omega), if_pos (by omega), sub_self]
  · rw [if_pos h, if_pos (by omega), if_neg (by omega), sub_zero]
  · rw [if_neg (by omega), if_neg (by omega), if_neg (by omega), sub_zero]

/-- The share of what is at most `k`, from the shares of the values up to `k`. -/
theorem share_le_eq_sum (xs : List β) (value : β → Nat) (k : Nat) :
    (share xs fun x => value x ≤ k) =
      ((List.range (k + 1)).map fun i => share xs fun x => value x = i).sum := by
  simp only [share_eq_average]
  rw [← average_sum]
  refine average_congr fun x _ => ?_
  rw [List.sum_map_eq_nsmul_single (value x)]
  · by_cases h : value x ≤ k
    · rw [List.count_eq_one_of_mem List.nodup_range (List.mem_range.mpr (by omega))]
      simp [h]
    · rw [List.count_eq_zero_of_not_mem (by rw [List.mem_range]; omega)]
      simp [h]
  · intro i hi _
    simp [Ne.symm hi]

/-- An average over members that have one of the values each, value by value. -/
theorem average_by_value {xs : List β} {value : β → Int} {values : List Nat} (hn : values.Nodup)
    (h : ∀ x ∈ xs, ∃ v ∈ values, value x = (v : Int)) (f : Int → ℚ) :
    average xs (fun x => f (value x)) =
      (values.map fun v : Nat => f v * share xs fun x => value x = (v : Int)).sum := by
  simp only [share_eq_average, ← average_mul_left]
  rw [← average_sum]
  refine average_congr fun x hx => ?_
  obtain ⟨v, hv, hx⟩ := h x hx
  rw [List.sum_map_eq_nsmul_single v, List.count_eq_one_of_mem hn hv, hx]
  · simp
  · intro w hw _
    have hne : value x ≠ w := by rw [hx]; exact fun h => hw (Int.ofNat_inj.mp h).symm
    simp [hne]

/-- The average of a quantity, value by value. -/
theorem average_eq_sum_share {xs : List β} {value : β → Int} {values : List Nat}
    (hn : values.Nodup) (h : ∀ x ∈ xs, ∃ v ∈ values, value x = (v : Int)) :
    average xs (fun x => (value x : ℚ)) =
      (values.map fun v : Nat => (v : ℚ) * share xs fun x => value x = (v : Int)).sum := by
  rw [average_by_value hn h fun v => (v : ℚ)]
  simp only [Int.cast_natCast]

/-- Where every member has one of the values, the shares of the values add up to one. -/
theorem sum_share_eq_one {xs : List β} {value : β → Int} {values : List Nat} (hx : xs ≠ [])
    (hn : values.Nodup) (h : ∀ x ∈ xs, ∃ v ∈ values, value x = (v : Int)) :
    (values.map fun v : Nat => share xs fun x => value x = (v : Int)).sum = 1 := by
  rw [← average_const hx 1, average_by_value hn h fun _ => 1]
  simp only [one_mul]

end DiceEngine
