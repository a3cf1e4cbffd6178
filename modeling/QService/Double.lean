import Mathlib.Data.Int.Log
import Mathlib.Data.Rat.Floor
import Mathlib.Tactic

/-!
# Integers in doubles

A `double` (IEEE 754, 64 bits) has 53 bits for its significand. The result of an operation is
the exact result, rounded to the nearest such number, to the even one of two. Range is
left out: the numbers here are neither so large nor so small that the exponent
matters.

An integer up to `2 ^ 53` is a `double`, so sums and products that stay there are
exact. A quotient of two integers is not. But its error is less than what is
between it and the next integer, so its floor is right (`floor_div`), and so is
the remainder that is computed from that (`fmod_natCast`).
-/

namespace Double

/-- The nearest integer, and the even one of two. -/
def roundEven (x : ℚ) : ℤ :=
  if x - ⌊x⌋ < 1 / 2 then ⌊x⌋
  else if 1 / 2 < x - ⌊x⌋ then ⌊x⌋ + 1
  else if Even ⌊x⌋ then ⌊x⌋
  else ⌊x⌋ + 1

/-- The place of the last bit of a `double` near `x`. -/
def ulp (x : ℚ) : ℚ := 2 ^ (Int.log 2 |x| - 52)

/-- The nearest `double`. -/
def round (x : ℚ) : ℚ := if x = 0 then 0 else roundEven (x / ulp x) * ulp x

/-- The product of two doubles. -/
def mul (x y : ℚ) : ℚ := round (x * y)

/-- Their quotient. -/
def div (x y : ℚ) : ℚ := round (x / y)

/-- Their difference. -/
def sub (x y : ℚ) : ℚ := round (x - y)

/-- The remainder as it is computed from the quotient: `a - floor(a / b) * b`. -/
def fmod (a b : ℚ) : ℚ := sub a (mul ⌊div a b⌋ b)

/-! ## The error -/

theorem roundEven_intCast (z : ℤ) : roundEven z = z := by
  unfold roundEven
  rw [Int.floor_intCast, sub_self, if_pos (by norm_num)]

theorem abs_roundEven_sub_le (x : ℚ) : |(roundEven x : ℚ) - x| ≤ 1 / 2 := by
  have hlow := Int.floor_le x
  have hhigh := Int.lt_floor_add_one x
  have hdown : x - ⌊x⌋ ≤ 1 / 2 → |(⌊x⌋ : ℚ) - x| ≤ 1 / 2 := by
    intro h
    rw [abs_le]
    constructor <;> linarith
  have hup : 1 / 2 ≤ x - ⌊x⌋ → |((⌊x⌋ + 1 : ℤ) : ℚ) - x| ≤ 1 / 2 := by
    intro h
    push_cast
    rw [abs_le]
    constructor <;> linarith
  unfold roundEven
  split_ifs with hlt hgt
  · exact hdown hlt.le
  · exact hup hgt.le
  · exact hdown (not_lt.mp hgt)
  · exact hup (not_lt.mp hlt)

theorem ulp_pos (x : ℚ) : 0 < ulp x := zpow_pos (by norm_num) _

/-- The last place is small next to the number. -/
theorem ulp_le {x : ℚ} (hx : 0 < x) : ulp x * 2 ^ 52 ≤ x := by
  have hlog : (2 : ℚ) ^ Int.log 2 x ≤ x := by
    exact_mod_cast Int.zpow_log_le_self (b := 2) (by norm_num) hx
  have hulp : ulp x * 2 ^ 52 = 2 ^ Int.log 2 x := by
    unfold ulp
    rw [abs_of_pos hx, zpow_sub₀ (by norm_num)]
    norm_num
  rwa [hulp]

/-- **The error of rounding.** -/
theorem abs_round_sub_le {x : ℚ} (hx : 0 < x) : |round x - x| * 2 ^ 53 ≤ x := by
  have hulp := ulp_pos x
  have herr := abs_roundEven_sub_le (x / ulp x)
  have hdist : round x - x = (roundEven (x / ulp x) - x / ulp x) * ulp x := by
    rw [round, if_neg hx.ne', sub_mul, div_mul_cancel₀ x hulp.ne']
  calc |round x - x| * 2 ^ 53
      = |(roundEven (x / ulp x) : ℚ) - x / ulp x| * ulp x * 2 ^ 53 := by
        rw [hdist, abs_mul, abs_of_pos hulp]
    _ ≤ 1 / 2 * ulp x * 2 ^ 53 := by gcongr
    _ = ulp x * 2 ^ 52 := by ring
    _ ≤ x := ulp_le hx

/-! ## Integers -/

/-- A number of last places is a double. -/
theorem round_eq_self {x : ℚ} {z : ℤ} (h : x = z * ulp x) : round x = x := by
  unfold round
  split
  · exact (‹x = 0›).symm
  · have hquot : x / ulp x = z := by
      rw [div_eq_iff (ulp_pos x).ne']
      exact h
    rw [hquot, roundEven_intCast]
    exact h.symm

/-- **An integer up to `2 ^ 53` is a double.** -/
theorem round_natCast {n : ℕ} (hn : n ≤ 2 ^ 53) : round n = n := by
  have hulp : ulp n = 2 ^ ((Nat.log 2 n : ℤ) - 52) := by
    unfold ulp
    rw [abs_of_nonneg (Nat.cast_nonneg n), Int.log_natCast]
  by_cases hlog : Nat.log 2 n ≤ 52
  · -- the last place is at most 1
    refine round_eq_self (z := (n * 2 ^ (52 - Nat.log 2 n) : ℕ)) ?_
    have hexp : ((Nat.log 2 n : ℤ) - 52) = -((52 - Nat.log 2 n : ℕ) : ℤ) := by omega
    rw [hulp, hexp, zpow_neg, zpow_natCast]
    push_cast
    field_simp
  · -- the last place is 2, and the number is `2 ^ 53`
    have hpow : 2 ^ 53 ≤ n :=
      (Nat.pow_le_pow_right (by norm_num) (by omega)).trans (Nat.pow_log_le_self 2 (by
        rintro rfl
        exact hlog (by rw [Nat.log_zero_right]; norm_num)))
    obtain rfl : n = 2 ^ 53 := le_antisymm hn hpow
    refine round_eq_self (z := 2 ^ 52) ?_
    rw [hulp, Nat.log_pow (by norm_num)]
    norm_num

/-- **The floor of a quotient of integers is right**, rounded as the quotient is. -/
theorem floor_div {a b : ℕ} (ha : a < 2 ^ 53) (hb : 0 < b) : ⌊div a b⌋ = (a / b : ℕ) := by
  have hbq : (0 : ℚ) < b := by exact_mod_cast hb
  have hquot : (a : ℚ) / b = (a / b : ℕ) + (a % b : ℕ) / b := by
    rw [add_div' _ _ _ hbq.ne', div_left_inj' hbq.ne']
    exact_mod_cast (Nat.div_add_mod' a b).symm
  unfold div
  by_cases hmod : a % b = 0
  · have hle : a / b ≤ 2 ^ 53 := (Nat.div_le_self a b).trans ha.le
    rw [hquot, hmod, Nat.cast_zero, zero_div, add_zero, round_natCast hle, Int.floor_natCast]
  · -- what is between the quotient and an integer is at least `1 / b`, and the error is less
    have hapos : (0 : ℚ) < a := by
      rw [Nat.cast_pos]
      by_contra hzero
      rw [Nat.eq_zero_of_not_pos hzero, Nat.zero_mod] at hmod
      exact hmod rfl
    have herr : |round ((a : ℚ) / b) - a / b| < 1 / b := by
      have hround := abs_round_sub_le (div_pos hapos hbq)
      have haq : (a : ℚ) < 2 ^ 53 := by exact_mod_cast ha
      have hlt : (a : ℚ) / b < 1 / b * 2 ^ 53 := by
        rw [one_div, ← div_eq_inv_mul]
        gcongr
      nlinarith
    have hlow : (1 : ℚ) / b ≤ (a % b : ℕ) / b := by
      gcongr
      exact_mod_cast Nat.one_le_iff_ne_zero.mpr hmod
    have hhigh : ((a % b : ℕ) : ℚ) / b + 1 / b ≤ 1 := by
      rw [← add_div, div_le_one hbq]
      exact_mod_cast Nat.mod_lt a hb
    obtain ⟨h₁, h₂⟩ := abs_lt.mp herr
    rw [Int.floor_eq_iff, Int.cast_natCast]
    constructor <;> linarith

/-- **The remainder is right.** -/
theorem fmod_natCast {a b : ℕ} (ha : a < 2 ^ 53) (hb : 0 < b) : fmod a b = (a % b : ℕ) := by
  have hle : a / b * b ≤ a := Nat.div_mul_le_self a b
  have hmul : mul ⌊div a b⌋ b = (a / b * b : ℕ) := by
    rw [floor_div ha hb, mul, Int.cast_natCast, ← Nat.cast_mul, round_natCast (by omega)]
  have hsub : (a : ℚ) - (a / b * b : ℕ) = (a % b : ℕ) := by
    rw [← Nat.cast_sub hle]
    congr 1
    have := Nat.div_add_mod' a b
    omega
  have hlt := Nat.mod_le a b
  rw [fmod, hmul, sub, hsub, round_natCast (by omega)]

end Double
