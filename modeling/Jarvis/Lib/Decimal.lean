/-
  Jarvis.Lib.Decimal — nonnegative decimals in a context of 28 significant digits.

  A decimal is its value. An operation is exact up to 28 digits and rounds half to even beyond
  them, so a running total can differ from the sum; `total_of_fits` says when it does not.
  Rounding keeps the order (`context_mono`), so a larger summand never makes a smaller total.
-/
import Mathlib.Data.NNRat.Floor
import Mathlib.Data.Int.Log
import Mathlib.Algebra.BigOperators.Group.List.Basic

namespace Jarvis.Decimal

def roundHalfEven (q : ℚ≥0) : ℕ :=
  let n := ⌊q⌋₊
  if q < n + 1 / 2 then n else if n + 1 / 2 < q then n + 1 else if n % 2 = 0 then n else n + 1

/-- The result of an operation in the default context. -/
def context (q : ℚ≥0) : ℚ≥0 :=
  if q = 0 then 0 else roundHalfEven (q * 10 ^ (27 - Int.log 10 q)) * 10 ^ (Int.log 10 q - 27)

def add (a b : ℚ≥0) : ℚ≥0 := context (a + b)

def mul (a b : ℚ≥0) : ℚ≥0 := context (a * b)

def div (a b : ℚ≥0) : ℚ≥0 := context (a / b)

/-! ## Rounding keeps the order -/

theorem roundHalfEven_natCast (n : ℕ) : roundHalfEven n = n := by
  have hlt : (n : ℚ≥0) < n + 1 / 2 := lt_add_of_pos_right _ (by norm_num)
  simp only [roundHalfEven, Nat.floor_natCast, if_pos hlt]

theorem floor_le_roundHalfEven (q : ℚ≥0) : ⌊q⌋₊ ≤ roundHalfEven q := by
  simp only [roundHalfEven]
  split_ifs <;> omega

theorem roundHalfEven_le_succ (q : ℚ≥0) : roundHalfEven q ≤ ⌊q⌋₊ + 1 := by
  simp only [roundHalfEven]
  split_ifs <;> omega

theorem roundHalfEven_mono {p q : ℚ≥0} (h : p ≤ q) : roundHalfEven p ≤ roundHalfEven q := by
  obtain hlt | heq := Nat.lt_or_eq_of_le (Nat.floor_le_floor h)
  · exact (roundHalfEven_le_succ p).trans (Nat.le_trans hlt (floor_le_roundHalfEven q))
  · -- with one integer part, only the half can tell them apart
    simp only [roundHalfEven, heq]
    by_cases hp : p < ⌊q⌋₊ + 1 / 2
    · rw [if_pos hp]
      split_ifs <;> omega
    · rw [if_neg hp, if_neg fun hq => hp (h.trans_lt hq)]
      by_cases hp' : ⌊q⌋₊ + 1 / 2 < p
      · rw [if_pos hp', if_pos (hp'.trans_le h)]
      · rw [if_neg hp']
        split_ifs <;> omega

theorem context_of_ne_zero {q : ℚ≥0} (h : q ≠ 0) :
    context q = roundHalfEven (q * 10 ^ (27 - Int.log 10 q)) * 10 ^ (Int.log 10 q - 27) := if_neg h

theorem ten_zpow_mul (m n : ℤ) : (10 : ℚ≥0) ^ m * 10 ^ n = 10 ^ (m + n) := (zpow_add₀ (by norm_num) m n).symm

/-- A rounded value stays between the powers of ten around it. -/
theorem context_bounds {q : ℚ≥0} (h : q ≠ 0) :
    (10 : ℚ≥0) ^ Int.log 10 q ≤ context q ∧ context q ≤ 10 ^ (Int.log 10 q + 1) := by
  have hpos : 0 < q := pos_iff_ne_zero.mpr h
  rw [context_of_ne_zero h]
  generalize he : Int.log 10 q = e
  have hlow : (10 : ℚ≥0) ^ e ≤ q := he ▸ Int.zpow_log_le_self (b := 10) (by norm_num) hpos
  have hhigh : q ≤ (10 : ℚ≥0) ^ (e + 1) := he ▸ (Int.lt_zpow_succ_log_self (b := 10) (by norm_num) q).le
  have hdigits : 10 ^ 27 ≤ roundHalfEven (q * 10 ^ (27 - e)) := by
    rw [← roundHalfEven_natCast (10 ^ 27)]
    refine roundHalfEven_mono ?_
    calc ((10 ^ 27 : ℕ) : ℚ≥0) = 10 ^ e * 10 ^ (27 - e) := by rw [ten_zpow_mul, add_sub_cancel]; norm_cast
      _ ≤ q * 10 ^ (27 - e) := mul_le_mul_of_nonneg_right hlow zero_le
  have hdigits' : roundHalfEven (q * 10 ^ (27 - e)) ≤ 10 ^ 28 := by
    rw [← roundHalfEven_natCast (10 ^ 28)]
    refine roundHalfEven_mono ?_
    calc q * 10 ^ (27 - e) ≤ 10 ^ (e + 1) * 10 ^ (27 - e) := mul_le_mul_of_nonneg_right hhigh zero_le
      _ = ((10 ^ 28 : ℕ) : ℚ≥0) := by rw [ten_zpow_mul, show e + 1 + (27 - e) = 28 by omega]; norm_cast
  constructor
  · calc (10 : ℚ≥0) ^ e = ((10 ^ 27 : ℕ) : ℚ≥0) * 10 ^ (e - 27) := by
          rw [show ((10 ^ 27 : ℕ) : ℚ≥0) = 10 ^ (27 : ℤ) by norm_cast, ten_zpow_mul, add_sub_cancel]
      _ ≤ roundHalfEven (q * 10 ^ (27 - e)) * 10 ^ (e - 27) :=
          mul_le_mul_of_nonneg_right (Nat.cast_le.mpr hdigits) zero_le
  · calc (roundHalfEven (q * 10 ^ (27 - e)) : ℚ≥0) * 10 ^ (e - 27) ≤ ((10 ^ 28 : ℕ) : ℚ≥0) * 10 ^ (e - 27) :=
          mul_le_mul_of_nonneg_right (Nat.cast_le.mpr hdigits') zero_le
      _ = 10 ^ (e + 1) := by
          rw [show ((10 ^ 28 : ℕ) : ℚ≥0) = 10 ^ (28 : ℤ) by norm_cast, ten_zpow_mul,
            show (28 : ℤ) + (e - 27) = e + 1 by omega]

theorem context_mono {p q : ℚ≥0} (h : p ≤ q) : context p ≤ context q := by
  by_cases hp : p = 0
  · rw [hp, context, if_pos rfl]
    exact zero_le
  have hq : q ≠ 0 := fun hq => hp (le_antisymm (hq ▸ h) zero_le)
  obtain hlt | heq := lt_or_eq_of_le (Int.log_mono_right (b := 10) (pos_iff_ne_zero.mpr hp) h)
  · -- a power of ten lies between them
    calc context p ≤ 10 ^ (Int.log 10 p + 1) := (context_bounds hp).2
      _ ≤ 10 ^ Int.log 10 q := zpow_le_zpow_right₀ (by norm_num) hlt
      _ ≤ context q := (context_bounds hq).1
  · rw [context_of_ne_zero hp, context_of_ne_zero hq, heq]
    have hshift := roundHalfEven_mono (mul_le_mul_of_nonneg_right h (zero_le (a := (10 : ℚ≥0) ^ (27 - Int.log 10 q))))
    exact mul_le_mul_of_nonneg_right (Nat.cast_le.mpr hshift) zero_le

theorem add_mono {a b c d : ℚ≥0} (hac : a ≤ c) (hbd : b ≤ d) : add a b ≤ add c d :=
  context_mono (add_le_add hac hbd)

/-! ## Running totals -/

/-- A running total. -/
def total (start : ℚ≥0) (xs : List ℚ≥0) : ℚ≥0 := xs.foldl add start

theorem total_append (start : ℚ≥0) (xs ys : List ℚ≥0) : total start (xs ++ ys) = total (total start xs) ys :=
  List.foldl_append

/-- No partial sum needs more than 28 digits. -/
def Fits : ℚ≥0 → List ℚ≥0 → Prop
  | _, [] => True
  | start, x :: xs => context (start + x) = start + x ∧ Fits (start + x) xs

instance : ∀ start xs, Decidable (Fits start xs)
  | _, [] => isTrue trivial
  | start, x :: xs => @instDecidableAnd _ _ _ (instDecidableFits (start + x) xs)

theorem total_of_fits : ∀ {xs : List ℚ≥0} {start : ℚ≥0}, Fits start xs → total start xs = start + xs.sum := by
  intro xs
  induction xs with
  | nil => intro start _; simp [total]
  | cons x xs ih =>
    intro start h
    have hrest := ih h.2
    simp only [total, List.foldl_cons, add] at hrest ⊢
    rw [h.1, hrest, List.sum_cons, add_assoc]

end Jarvis.Decimal
