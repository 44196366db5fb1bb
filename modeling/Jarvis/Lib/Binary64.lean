/-
  Jarvis.Lib.Binary64 — quotients of naturals as doubles.

  A double is its value. A quotient is rounded half to even to 53 bits (`div`), so two quotients
  can be one double; quotients of small numbers are not, and keep their order (`div_lt_div`). The
  exponent range is left out.
-/
import Mathlib.Tactic.Ring
import Jarvis.Lib.Decimal

namespace Jarvis.Binary64

open Jarvis.Decimal (roundHalfEven floor_le_roundHalfEven roundHalfEven_le_succ)

/-- The double nearest to `q`. -/
def round (q : ℚ≥0) : ℚ≥0 :=
  if q = 0 then 0
  else roundHalfEven (q * ((2 : ℕ) : ℚ≥0) ^ (52 - Int.log 2 q)) * ((2 : ℕ) : ℚ≥0) ^ (Int.log 2 q - 52)

/-- `a / b`. -/
def div (a b : ℕ) : ℚ≥0 := round (a / b)

/-- Rounding moves a value by less than one in its last bit. -/
theorem round_near (q : ℚ≥0) : round q ≤ q + q / 2 ^ 52 ∧ q ≤ round q + q / 2 ^ 52 := by
  by_cases hq : q = 0
  · simp [hq, round]
  simp only [round, if_neg hq, Nat.cast_ofNat]
  generalize he : Int.log 2 q = e
  have hlow : (2 : ℚ≥0) ^ e ≤ q := he ▸ Int.zpow_log_le_self (b := 2) (by norm_num) (pos_iff_ne_zero.mpr hq)
  -- one in the last bit
  have hlast : (2 : ℚ≥0) ^ (e - 52) ≤ q / 2 ^ 52 := by
    rw [zpow_sub₀ (by norm_num)]
    exact div_le_div_of_nonneg_right hlow zero_le
  have hcancel : (2 : ℚ≥0) ^ (52 - e) * 2 ^ (e - 52) = 1 := by
    rw [← zpow_add₀ (by norm_num), show (52 : ℤ) - e + (e - 52) = 0 by omega, zpow_zero]
  generalize hn : roundHalfEven (q * 2 ^ (52 - e)) = n
  have hdown : q * 2 ^ (52 - e) ≤ n + 1 := by
    have hfloor : ⌊q * 2 ^ (52 - e)⌋₊ ≤ n := hn ▸ floor_le_roundHalfEven _
    calc q * 2 ^ (52 - e) ≤ ⌊q * 2 ^ (52 - e)⌋₊ + 1 := (Nat.lt_floor_add_one _).le
      _ ≤ n + 1 := add_le_add_left (Nat.cast_le.mpr hfloor) 1
  have hup : (n : ℚ≥0) ≤ q * 2 ^ (52 - e) + 1 := by
    have hsucc : n ≤ ⌊q * 2 ^ (52 - e)⌋₊ + 1 := hn ▸ roundHalfEven_le_succ _
    calc (n : ℚ≥0) ≤ (⌊q * 2 ^ (52 - e)⌋₊ + 1 : ℕ) := Nat.cast_le.mpr hsucc
      _ ≤ q * 2 ^ (52 - e) + 1 := by
        rw [Nat.cast_add, Nat.cast_one]
        exact add_le_add_left (Nat.floor_le zero_le) 1
  constructor
  · calc (n : ℚ≥0) * 2 ^ (e - 52) ≤ (q * 2 ^ (52 - e) + 1) * 2 ^ (e - 52) := mul_le_mul_of_nonneg_right hup zero_le
      _ = q + 2 ^ (e - 52) := by rw [add_mul, mul_assoc, hcancel, mul_one, one_mul]
      _ ≤ q + q / 2 ^ 52 := add_le_add_right hlast q
  · calc q = q * 2 ^ (52 - e) * 2 ^ (e - 52) := by rw [mul_assoc, hcancel, mul_one]
      _ ≤ (n + 1) * 2 ^ (e - 52) := mul_le_mul_of_nonneg_right hdown zero_le
      _ = n * 2 ^ (e - 52) + 2 ^ (e - 52) := by rw [add_mul, one_mul]
      _ ≤ n * 2 ^ (e - 52) + q / 2 ^ 52 := add_le_add_right hlast _

/-- Quotients of numbers whose cross product has 51 bits keep their order. -/
theorem div_lt_div {a b c d : ℕ} (hb : 0 < b) (hd : 0 < d) (hbits : b * c ≤ 2 ^ 51) (h : (a : ℚ≥0) / b < c / d) :
    div a b < div c d := by
  have hup := (round_near (a / b)).1
  have hdown := (round_near (c / d)).2
  -- the quotients are at least `1 / (b d)` apart
  have hb' : (0 : ℚ≥0) < b := Nat.cast_pos.mpr hb
  have hd' : (0 : ℚ≥0) < d := Nat.cast_pos.mpr hd
  have hcross : a * d + 1 ≤ c * b := by
    rw [div_lt_div_iff₀ hb' hd'] at h
    exact_mod_cast h
  have hapart : (a : ℚ≥0) / b + 1 / (b * d) ≤ c / d := by
    calc (a : ℚ≥0) / b + 1 / (b * d) = (a * d + 1 : ℕ) / (b * d) := by
          push_cast
          rw [add_div, mul_div_mul_right _ _ hd'.ne']
      _ ≤ (c * b : ℕ) / (b * d) := div_le_div_of_nonneg_right (Nat.cast_le.mpr hcross) zero_le
      _ = c / d := by
          push_cast
          rw [mul_comm (b : ℚ≥0) d, mul_div_mul_right _ _ hb'.ne']
  have hlast : (c : ℚ≥0) / d / 2 ^ 51 ≤ 1 / (b * d) := by
    rw [div_div, div_le_div_iff₀ (mul_pos hd' (by norm_num)) (mul_pos hb' hd'), one_mul]
    calc (c : ℚ≥0) * (b * d) = d * (b * c : ℕ) := by push_cast; ring
      _ ≤ d * (2 ^ 51 : ℕ) := mul_le_mul_of_nonneg_left (Nat.cast_le.mpr hbits) zero_le
      _ = d * 2 ^ 51 := by push_cast; rfl
  by_contra hle
  have hless : (c : ℚ≥0) / d < c / d := by
    calc (c : ℚ≥0) / d ≤ div c d + c / d / 2 ^ 52 := hdown
      _ ≤ div a b + c / d / 2 ^ 52 := add_le_add_left (not_lt.mp hle) _
      _ ≤ a / b + a / b / 2 ^ 52 + c / d / 2 ^ 52 := add_le_add_left hup _
      _ < a / b + c / d / 2 ^ 52 + c / d / 2 ^ 52 :=
          add_lt_add_left (add_lt_add_right (div_lt_div_of_pos_right h (by norm_num)) _) _
      _ = a / b + c / d / 2 ^ 51 := by ring
      _ ≤ a / b + 1 / (b * d) := add_le_add_right hlast _
      _ ≤ c / d := hapart
  exact lt_irrefl _ hless

-- With 54 bits two quotients are one double.
example : div (2 ^ 53 + 1) 1 = div (2 ^ 53) 1 := by decide +kernel

end Jarvis.Binary64
