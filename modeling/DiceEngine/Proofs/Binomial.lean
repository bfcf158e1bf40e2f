import DiceEngine.OrderStatistic
import Mathlib.Data.Nat.Choose.Basic

/-!
# Rows of binomial coefficients

Each quotient of a climb is exact, so it steps from coefficient to coefficient
(`climb_succ`), and where its products fit it ends on the coefficient of its
place (`climb_eq_ok`). The product before the `j`-th coefficient is `j`
times that coefficient, and these grow up to the middle of the row
(`product_mono`): where the last one fits, all do (`choose_eq_ok`). They fit
for up to 125 dice (`product_fits`), so those rows come whole (`row_eq_ok`),
also as coefficients of order statistics (`OrderStatistic.coefficients_eq_map`).
-/

namespace DiceEngine.Binomial

/-- The step to a place: the product before its coefficient is the place times the coefficient. -/
theorem product_step (n i : Nat) : n.choose i * (n - i) = (i + 1) * n.choose (i + 1) := by
  rw [← Nat.choose_succ_right_eq, Nat.mul_comm]

/-- A climb steps from coefficient to coefficient, as long as the products fit. -/
theorem climb_succ (n steps i : Nat) : climb n (steps + 1) i (n.choose i) =
    if (i + 1) * n.choose (i + 1) < limit then climb n steps (i + 1) (n.choose (i + 1))
    else .error .mulOverflow := by
  rw [climb, product_step, Nat.mul_div_cancel_left _ (Nat.succ_pos i)]

/-- A climb that only meets products that fit. -/
theorem climb_eq_ok {n : Nat} (steps : Nat) : ∀ {i : Nat},
    (∀ j, i < j → j ≤ i + steps → j * n.choose j < limit) →
    climb n steps i (n.choose i) = .ok (n.choose (i + steps)) := by
  induction steps with
  | zero => exact fun _ => rfl
  | succ steps ih =>
    intro i h
    have hfit := h (i + 1) (by omega) (by omega)
    rw [climb_succ, if_pos hfit, ih fun j hj hj' => h j (by omega) (by omega)]
    congr 2
    omega

/-- The products of a climb grow up to the middle of the row. -/
theorem product_mono {n m : Nat} (hm : m ≤ n - m) : ∀ {j : Nat}, j ≤ m →
    j * n.choose j ≤ m * n.choose m := by
  induction m with
  | zero => intro j hj; rw [Nat.le_zero.mp hj]
  | succ m ih =>
    intro j hj
    rcases Nat.lt_or_ge m j with h | h
    · rw [Nat.le_antisymm hj h]
    · have hnext : m * n.choose m ≤ (m + 1) * n.choose (m + 1) := by
        rw [← product_step, Nat.mul_comm]
        exact Nat.mul_le_mul_left _ (by omega)
      exact Nat.le_trans (ih (by omega) h) hnext

/-- A coefficient whose last product fits. -/
theorem choose_eq_ok {n r : Nat} (hr : r ≤ n)
    (hfit : min r (n - r) * n.choose (min r (n - r)) < limit) :
    choose n r = .ok (n.choose r) := by
  have hclimb := climb_eq_ok (n := n) (min r (n - r)) (i := 0) fun j _ hj =>
    Nat.lt_of_le_of_lt (product_mono (by omega) (by omega)) hfit
  rw [Nat.choose_zero_right, Nat.zero_add] at hclimb
  rw [choose, if_neg (by omega), hclimb]
  rcases Nat.le_total r (n - r) with h | h
  · rw [Nat.min_eq_left h]
  · rw [Nat.min_eq_right h, Nat.choose_symm hr]

/-- No product overflows up to row 125: none is greater than 125 times the middle of row 124. -/
theorem product_fits {n m : Nat} (hn : n ≤ 125) : m * n.choose m < limit := by
  have hmiddle : 125 * Nat.choose 124 62 < limit := by
    rw [Nat.choose_eq_descFactorial_div_factorial]
    decide +kernel
  rcases m with _ | m
  · rw [Nat.zero_mul]; decide
  rcases n with _ | n
  · rw [Nat.choose_zero_succ, Nat.mul_zero]; decide
  refine Nat.lt_of_le_of_lt ?_ hmiddle
  rw [Nat.mul_comm, ← Nat.add_one_mul_choose_eq]
  exact Nat.mul_le_mul hn
    (Nat.le_trans (Nat.choose_le_choose m (by omega)) (Nat.choose_le_middle m 124))

theorem rowFrom_eq_ok {n : Nat} (count : Nat) : ∀ {i : Nat},
    (∀ j, i ≤ j → j < i + count → choose n j = .ok (n.choose j)) →
    rowFrom n count i = .ok ((List.range' i count).map n.choose) := by
  induction count with
  | zero => exact fun _ => rfl
  | succ count ih =>
    intro i h
    rw [rowFrom, h i (Nat.le_refl i) (by omega), ih fun j hj hj' => h j (by omega) (by omega)]
    rfl

/-- The rows up to 125 are rows of binomial coefficients. -/
theorem row_eq_ok {n : Nat} (hn : n ≤ 125) : row n = .ok ((List.range (n + 1)).map n.choose) := by
  rw [row, rowFrom_eq_ok (n + 1) fun j _ hj => choose_eq_ok (by omega) (product_fits hn),
    List.range_eq_range']

end DiceEngine.Binomial

namespace DiceEngine.OrderStatistic

/-- The coefficients of up to 125 dice come whole, in numbers of any kind. -/
theorem coefficients_eq_map {α : Type} [NatCast α] {n : Nat} (hn : n ≤ 125) :
    (coefficients n : Except Fault (List α)) =
      .ok ((List.range (n + 1)).map fun i => (n.choose i : α)) := by
  rw [coefficients, Binomial.row_eq_ok hn]
  simp only [Except.map, List.map_map, Function.comp_def]

end DiceEngine.OrderStatistic
