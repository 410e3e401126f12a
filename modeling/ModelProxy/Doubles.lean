import Mathlib.Algebra.Order.Field.Power
import Mathlib.Tactic.NormNum
import Mathlib.Tactic.Ring

/-! # Doubles

Double precision numbers by the rationals they stand for, and the double next to a machine
integer.
-/
namespace ModelProxy

/-- A finite double: its sign and the number of which it is the exact value. -/
structure Finite where
  negative : Bool
  magnitude : ℚ≥0
  representable : ∃ (m : ℕ) (e : ℤ), m < 2 ^ 53 ∧ -1074 ≤ e ∧ e ≤ 971 ∧ magnitude = m * 2 ^ e

/-- A binary64 number. -/
inductive Double
  | nan
  | infinite (negative : Bool)
  | finite (x : Finite)

namespace Finite

/-- `Number.isInteger` of a finite number. -/
def isInteger (x : Finite) : Bool := decide (x.magnitude.den = 1)

/-- `2 ^ 53 - 1`, the greatest integer up to which every integer is a double. -/
def maxSafeInteger : ℕ := 2 ^ 53 - 1

/-- `Number.isSafeInteger` of a finite number. -/
def isSafeInteger (x : Finite) : Bool :=
  x.isInteger && decide (x.magnitude ≤ maxSafeInteger)

/-- The mantissa and the power of two of the double next to an integer of more than 53 bits:
what is cut off is rounded to nearest, and halfway to an even mantissa. -/
def rounded (n : ℕ) : ℕ × ℕ :=
  let e := n.log2 - 52
  let up := 2 ^ e < 2 * (n % 2 ^ e) ∨ 2 * (n % 2 ^ e) = 2 ^ e ∧ n / 2 ^ e % 2 = 1
  (if up then n / 2 ^ e + 1 else n / 2 ^ e, e)

/-- The double next to an integer, an integer itself. -/
def nearest (n : ℕ) : ℕ := if n < 2 ^ 53 then n else (rounded n).1 * 2 ^ (rounded n).2

theorem rounded_bounds {n : ℕ} (h : 2 ^ 53 ≤ n) :
    1 ≤ (rounded n).2 ∧ 2 ^ 52 ≤ (rounded n).1 ∧ (rounded n).1 ≤ 2 ^ 53 := by
  have hg : 53 ≤ n.log2 := (Nat.le_log2 (by omega)).mpr h
  have hl : 2 ^ 52 * 2 ^ (n.log2 - 52) ≤ n := by
    rw [← pow_add, Nat.add_sub_cancel' (by omega)]
    exact Nat.log2_self_le (by omega)
  have hhi : n < 2 ^ 53 * 2 ^ (n.log2 - 52) := by
    rw [← pow_add, show 53 + (n.log2 - 52) = n.log2 + 1 by omega]
    exact Nat.lt_log2_self
  have hp : 0 < 2 ^ (n.log2 - 52) := Nat.two_pow_pos _
  have hge : 2 ^ 52 ≤ n / 2 ^ (n.log2 - 52) := (Nat.le_div_iff_mul_le hp).mpr hl
  have hlt : n / 2 ^ (n.log2 - 52) < 2 ^ 53 := (Nat.div_lt_iff_lt_mul hp).mpr hhi
  refine ⟨by simp only [rounded]; omega, ?_, ?_⟩
  · simp only [rounded]
    split <;> omega
  · simp only [rounded]
    split <;> omega

/-- The nearest double of a 64-bit integer is a binary64 number. -/
theorem nearest_representable {n : ℕ} (h : n < 2 ^ 64) :
    ∃ (m : ℕ) (e : ℤ), m < 2 ^ 53 ∧ -1074 ≤ e ∧ e ≤ 971 ∧ (nearest n : ℚ≥0) = m * 2 ^ e := by
  unfold nearest
  split
  next hs => exact ⟨n, 0, hs, by omega, by omega, by simp⟩
  next hl =>
  have hg : n.log2 < 64 := (Nat.log2_lt (by omega)).mpr h
  have he : (rounded n).2 = n.log2 - 52 := rfl
  obtain ⟨-, -, hle⟩ := rounded_bounds (Nat.le_of_not_lt hl)
  rcases eq_or_lt_of_le hle with ht | hlt
  · -- the mantissa was rounded up to the next power of two
    refine ⟨2 ^ 52, (rounded n).2 + 1, by omega, by omega, by omega, ?_⟩
    rw [ht]
    push_cast
    rw [zpow_add₀ (by norm_num), zpow_natCast]
    ring
  · refine ⟨(rounded n).1, (rounded n).2, hlt, by omega, by omega, ?_⟩
    push_cast
    rw [zpow_natCast]

theorem nearest_ge {n : ℕ} (h : 2 ^ 53 ≤ n) : 2 ^ 53 ≤ nearest n := by
  obtain ⟨he, hm, -⟩ := rounded_bounds h
  unfold nearest
  rw [if_neg (by omega)]
  calc 2 ^ 53 = 2 ^ 52 * 2 ^ 1 := by norm_num
    _ ≤ (rounded n).1 * 2 ^ (rounded n).2 :=
        Nat.mul_le_mul hm (Nat.pow_le_pow_right (by omega) he)

end Finite

end ModelProxy
