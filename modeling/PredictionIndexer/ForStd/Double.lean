import Mathlib

/-!
# Doubles

IEEE 754 binary64 rounding of a rational, to nearest with ties to even, in the normal range: the
53 leading bits of the number are kept. A number of at most 53 significant bits is exact.
-/

namespace Double

/-- The nearest integer, an even one on a tie. -/
def halfEven (x : ℚ) : ℤ :=
  let below := ⌊x⌋
  let rest := x - below
  if rest < 1 / 2 then below
  else if 1 / 2 < rest then below + 1
  else if below % 2 = 0 then below
  else below + 1

/-- The place of the last of 53 bits of a number. -/
def ulp (x : ℚ) : ℚ := 2 ^ (Int.log 2 |x| - 52)

/-- The double nearest to a rational. -/
def round (x : ℚ) : ℚ := if x = 0 then 0 else halfEven (x / ulp x) * ulp x

/-- `int(x)` of a double. -/
def truncate (x : ℚ) : ℤ := if 0 ≤ x then ⌊x⌋ else ⌈x⌉

theorem halfEven_intCast (n : ℤ) : halfEven n = n := by
  simp [halfEven]

/-- A whole number of last places is a double. -/
theorem round_eq_of_quotient {x : ℚ} {n : ℤ} (h : x = n * ulp x) : round x = x := by
  by_cases hzero : x = 0
  · simp [round, hzero]
  have hulp : ulp x ≠ 0 := by
    unfold ulp
    positivity
  rw [round, if_neg hzero, show x / ulp x = n by rw [div_eq_iff hulp, ← h], halfEven_intCast, ← h]

/-- An integer of at most 53 bits, shifted left, is a double. -/
theorem round_eq_self {m : ℤ} {k : ℕ} (h : |m| < 2 ^ 53) :
    round (m * 2 ^ k : ℚ) = m * 2 ^ k := by
  by_cases hzero : m = 0
  · simp [round, hzero]
  have hne : (m * 2 ^ k : ℚ) ≠ 0 := by positivity
  have habs : |(m * 2 ^ k : ℚ)| < ((2 : ℕ) : ℚ) ^ (53 + (k : ℤ)) := by
    have hm : |(m : ℚ)| < 2 ^ 53 := by exact_mod_cast h
    have hpow : ((2 : ℕ) : ℚ) ^ (53 + (k : ℤ)) = 2 ^ 53 * 2 ^ k := by
      rw [Nat.cast_ofNat, zpow_add₀ (by norm_num), zpow_natCast]
      rfl
    rw [hpow, abs_mul, abs_of_pos (by positivity : (0 : ℚ) < 2 ^ k)]
    gcongr
  have hlog : Int.log 2 |(m * 2 ^ k : ℚ)| - 52 ≤ k := by
    have := (Int.lt_zpow_iff_log_lt (by norm_num) (abs_pos.mpr hne)).mp habs
    omega
  -- the number is a whole number of its last places, which are no larger than the shift
  obtain ⟨j, hj⟩ := Int.eq_ofNat_of_zero_le (sub_nonneg.mpr hlog)
  apply round_eq_of_quotient (n := m * 2 ^ j)
  have hshift : (2 : ℚ) ^ k = 2 ^ j * ulp (m * 2 ^ k) := by
    have hk : (j : ℤ) + (Int.log 2 |(m * 2 ^ k : ℚ)| - 52) = k := by omega
    calc (2 : ℚ) ^ k = 2 ^ (k : ℤ) := (zpow_natCast 2 k).symm
      _ = 2 ^ (j : ℤ) * 2 ^ (Int.log 2 |(m * 2 ^ k : ℚ)| - 52) := by
        rw [← zpow_add₀ (by norm_num), hk]
      _ = 2 ^ j * ulp (m * 2 ^ k) := by rw [zpow_natCast, ulp]
  generalize ulp (m * 2 ^ k : ℚ) = place at hshift
  push_cast
  rw [hshift]
  ring

theorem truncate_intCast (n : ℤ) : truncate n = n := by
  simp [truncate]

end Double
