import DiceEngine.Proofs.Binomial
import Mathlib.Algebra.Ring.Nat

/-!
# Where binomial coefficients overflow

A climb along row `n` holds the coefficient of its place at every step, so each
of its quotients is exact (`Visits.eq_choose`, `Visits.dvd`). It stops at the
first product that does not fit (`climb_eq_error`), and as the products grow up
to the middle of the row, the last one decides alone (`choose_eq`). In the
middle of row 126 and of every row behind it that product is too large
(`limit_le_product`), so none of these rows can be made (`row_eq_error`).
-/

namespace DiceEngine.Binomial

/-! ## The steps of a climb -/

/-- The calls that the climb to place `r` of row `n` comes to: it stands at place `i` with the
number `c` in its hand, and has some steps to go. -/
inductive Visits (n r : Nat) : (steps i c : Nat) → Prop
  | start (h : r ≤ n) : Visits n r (min r (n - r)) 0 1
  | next {steps i c : Nat} (h : Visits n r (steps + 1) i c) (hfit : c * (n - i) < limit) :
      Visits n r steps (i + 1) (c * (n - i) / (i + 1))

namespace Visits

variable {n r steps i c : Nat}

/-- The number in hand is the coefficient of the place. -/
theorem eq_choose (h : Visits n r steps i c) : c = n.choose i := by
  induction h with
  | start _ => exact (Nat.choose_zero_right n).symm
  | next _ _ ih => rw [ih, product_step, Nat.mul_div_cancel_left _ (Nat.succ_pos _)]

/-- No quotient leaves a remainder. -/
theorem dvd (h : Visits n r steps i c) : i + 1 ∣ c * (n - i) := by
  rw [h.eq_choose, product_step]
  exact Nat.dvd_mul_right _ _

/-- What the climb comes to from here is what it comes to as a whole. -/
theorem climb_eq (h : Visits n r steps i c) : climb n steps i c = choose n r := by
  induction h with
  | start h => rw [choose, if_neg (Nat.not_lt.mpr h)]
  | next _ hfit ih => rw [← ih, climb, if_pos hfit]

end Visits

/-- A climb that meets a product that does not fit. -/
theorem climb_eq_error {n : Nat} (steps : Nat) : ∀ {i j : Nat}, i < j → j ≤ i + steps →
    limit ≤ j * n.choose j → climb n steps i (n.choose i) = .error .mulOverflow := by
  induction steps with
  | zero => exact fun hj hj' => absurd hj (Nat.not_lt.mpr hj')
  | succ steps ih =>
    intro i j hj hj' h
    rw [climb_succ]
    by_cases hfit : (i + 1) * n.choose (i + 1) < limit
    · -- The product of this step fits, so it is not the one that does not.
      have hne : i + 1 ≠ j := by
        rintro rfl
        exact absurd hfit (Nat.not_lt.mpr h)
      rw [if_pos hfit]
      exact ih (by omega) (by omega) h
    · exact if_neg hfit

/-- A coefficient whose last product does not fit. -/
theorem choose_eq_error {n r : Nat} (hr : r ≤ n)
    (h : limit ≤ min r (n - r) * n.choose (min r (n - r))) : choose n r = .error .mulOverflow := by
  have hpos : 0 < min r (n - r) := by
    refine Nat.pos_of_ne_zero fun hzero => ?_
    rw [hzero, Nat.zero_mul] at h
    exact absurd h (by decide)
  have hclimb := climb_eq_error (min r (n - r)) hpos (Nat.le_of_eq (Nat.zero_add _).symm) h
  rw [Nat.choose_zero_right] at hclimb
  rw [choose, if_neg (Nat.not_lt.mpr hr), hclimb]

/-- The last product of the climb, at the nearer end of the row, decides what becomes of it. -/
theorem choose_eq (n r : Nat) : choose n r =
    if n < r then .ok 0
    else if min r (n - r) * n.choose (min r (n - r)) < limit then .ok (n.choose r)
    else .error .mulOverflow := by
  by_cases hr : n < r
  · rw [choose, if_pos hr, if_pos hr]
  · rw [if_neg hr]
    split
    · next hfit => exact choose_eq_ok (Nat.not_lt.mp hr) hfit
    · next hfit => exact choose_eq_error (Nat.not_lt.mp hr) (Nat.not_lt.mp hfit)

/-- A coefficient is never wrong. Outside the row it is zero; in the row it is exact where the
nearer end's last product has at most 128 bits, and where it has more that product overflows. The
product of each step of the climb is a multiple of what it is divided by. -/
theorem choose_exact (n r : Nat) :
    (choose n r =
      if n < r then .ok 0
      else if min r (n - r) * n.choose (min r (n - r)) < 2 ^ 128 then .ok (n.choose r)
      else .error .mulOverflow) ∧
    ∀ steps i c, Visits n r (steps + 1) i c →
      climb n (steps + 1) i c = choose n r ∧ i + 1 ∣ c * (n - i) :=
  ⟨choose_eq n r, fun _ _ _ h => ⟨h.climb_eq, h.dvd⟩⟩

/-- Half way up row 6, with fifteen times four to be divided by three ahead. -/
theorem choose_exact_six_three :
    Visits 6 3 1 2 15 ∧ choose 6 3 = .ok 20 ∧ climb 6 1 2 15 = choose 6 3 ∧ 3 ∣ 15 * 4 := by
  have hstart : Visits 6 3 3 0 1 := .start (by decide)
  have hfirst : Visits 6 3 2 1 6 := hstart.next (by decide)
  have hvisits : Visits 6 3 1 2 15 := hfirst.next (by decide)
  have h := choose_exact 6 3
  exact ⟨hvisits, h.1, h.2 0 2 15 hvisits⟩

/-- The last product has more than 128 bits, and the coefficient would not have. -/
example : choose 126 61 = .error .mulOverflow := by decide +kernel

/-! ## Whole rows -/

theorem rowFrom_eq_error {n : Nat} (count : Nat) : ∀ {i j : Nat}, i ≤ j → j < i + count → j ≤ n →
    choose n j = .error .mulOverflow → rowFrom n count i = .error .mulOverflow := by
  induction count with
  | zero => exact fun hj hj' => absurd hj' (by omega)
  | succ count ih =>
    intro i j hj hj' hn h
    rw [rowFrom]
    by_cases hi : i = j
    · rw [hi, h]
      rfl
    · have hrest := ih (i := i + 1) (by omega) (by omega) hn h
      have hin : ¬ n < i := by omega
      -- The entry in front of it is there or overflows itself.
      rw [choose_eq, if_neg hin, hrest]
      split <;> rfl

/-- From row 126 on the last product of the climb to the 63rd place is too large. -/
theorem limit_le_product {n : Nat} (hn : 126 ≤ n) : limit ≤ 63 * n.choose 63 := by
  have hmiddle : limit ≤ 63 * Nat.choose 126 63 := by
    rw [Nat.choose_eq_descFactorial_div_factorial]
    decide +kernel
  exact Nat.le_trans hmiddle (Nat.mul_le_mul_left _ (Nat.choose_le_choose 63 hn))

/-- No row from 126 on can be made. -/
theorem row_eq_error {n : Nat} (hn : 126 ≤ n) : row n = .error .mulOverflow := by
  have hnear : min 63 (n - 63) = 63 := Nat.min_eq_left (by omega)
  refine rowFrom_eq_error (n + 1) (j := 63) (Nat.zero_le _) (by omega) (by omega)
    (choose_eq_error (by omega) ?_)
  rw [hnear]
  exact limit_le_product hn

end DiceEngine.Binomial

namespace DiceEngine.OrderStatistic

/-- No coefficients of 126 dice or more, in numbers of any kind. -/
theorem coefficients_eq_error {α : Type} [NatCast α] {n : Nat} (hn : 126 ≤ n) :
    (coefficients n : Except Fault (List α)) = .error .mulOverflow := by
  rw [coefficients, Binomial.row_eq_error hn]
  rfl

end DiceEngine.OrderStatistic
