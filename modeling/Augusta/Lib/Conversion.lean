import Augusta.Lib.Countdown

/-! Conversions between the formats: a whole number or a number of 53 bits to the nearest of them.

      ℕ ──roundDouble──▶ binary64 ──ofRat──▶ binary32        each keeps the order of what it rounds -/

namespace Lib

/-! ### To binary64 -/

/-- Below `2 ^ 53` a double's last place is worth no more than one. -/
theorem leadingBit_le {x : ℚ} (h : |x| < 2 ^ 53) : leadingBit x ≤ 52 := by
  have hden : (0 : ℚ) < x.den := by exact_mod_cast x.den_pos
  have habs : |x| * x.den = (x.num.natAbs : ℚ) := by
    have hnum : |(x.num : ℚ)| = (x.num.natAbs : ℚ) := by
      rw [← Int.cast_abs, Int.abs_eq_natAbs, Int.cast_natCast]
    have hquot : |(x.num : ℚ)| = |x| * x.den := by
      rw [← Rat.mul_den_eq_num x, abs_mul, Nat.abs_cast]
    rw [← hquot, hnum]
  rw [leadingBit]
  split_ifs with hbelow
  · -- the two logs bound the quotient from below
    by_contra hmore
    have hnear : (54 : ℤ) ≤ (x.num.natAbs.log2 : ℤ) - x.den.log2 := by omega
    have hnum : x.num.natAbs ≠ 0 := by
      intro hzero
      rw [hzero] at hnear
      simp at hnear
      omega
    have hlow : 2 ^ x.num.natAbs.log2 ≤ x.num.natAbs := Nat.log2_self_le hnum
    have hhigh : x.den < 2 ^ (x.den.log2 + 1) := Nat.lt_log2_self
    have hpow : 2 ^ 53 * 2 ^ (x.den.log2 + 1) ≤ 2 ^ x.num.natAbs.log2 := by
      rw [← Nat.pow_add]
      exact Nat.pow_le_pow_right (by omega) (by omega)
    have hnat : 2 ^ 53 * x.den ≤ x.num.natAbs :=
      le_trans (Nat.mul_le_mul_left _ hhigh.le) (le_trans hpow hlow)
    have hcast : (2 : ℚ) ^ 53 * x.den ≤ |x| * x.den := by
      rw [habs]
      exact_mod_cast hnat
    exact absurd (le_of_mul_le_mul_right hcast hden) (not_le.mpr h)
  · by_contra hmore
    have hpow : (2 : ℚ) ^ 53 ≤ 2 ^ ((x.num.natAbs.log2 : ℤ) - x.den.log2) := by
      rw [← zpow_natCast]
      exact zpow_le_zpow_right₀ (by norm_num) (by push_cast; omega)
    exact absurd (lt_of_le_of_lt hpow (lt_of_le_of_lt (not_lt.mp hbelow) h)) (lt_irrefl _)

theorem roundDouble_nonneg {x : ℚ} (h : 0 ≤ x) : 0 ≤ roundDouble x := by
  rw [roundDouble]
  split_ifs
  · exact le_rfl
  · have hunit : (0 : ℚ) < 2 ^ (leadingBit x - 52) := zpow_pos two_pos _
    have hround : (0 : ℤ) ≤ roundEven (x / 2 ^ (leadingBit x - 52)) := by
      refine le_roundEven ?_
      rw [Int.cast_zero]
      exact div_nonneg h hunit.le
    have hcast : (0 : ℚ) ≤ roundEven (x / 2 ^ (leadingBit x - 52)) := by exact_mod_cast hround
    exact mul_nonneg hcast hunit.le

section
variable {x : ℚ} (hsmall : |x| < 2 ^ 53) {n : ℤ}
include hsmall

/-- The last place of a double below `2 ^ 53`, and what of it a whole number is. -/
theorem exists_unit : ∃ k : ℕ, (2 : ℚ) ^ (leadingBit x - 52) = 1 / 2 ^ k := by
  have hbit := leadingBit_le hsmall
  refine ⟨(52 - leadingBit x).toNat, ?_⟩
  rw [one_div, ← zpow_natCast, ← zpow_neg]
  congr 1
  omega

/-- Rounding to a double passes no whole number. -/
theorem le_roundDouble (h : (n : ℚ) ≤ x) : (n : ℚ) ≤ roundDouble x := by
  obtain ⟨k, hunit⟩ := exists_unit hsmall
  rw [roundDouble]
  split_ifs with hzero
  · rw [← hzero]
    exact h
  · rw [hunit, div_div_eq_mul_div, div_one]
    have hpos : (0 : ℚ) < 2 ^ k := by positivity
    have hround : n * 2 ^ k ≤ roundEven (x * 2 ^ k) := by
      refine le_roundEven ?_
      push_cast
      exact mul_le_mul_of_nonneg_right h hpos.le
    rw [mul_one_div, le_div_iff₀ hpos]
    exact_mod_cast hround

theorem roundDouble_le (h : x ≤ n) : roundDouble x ≤ n := by
  obtain ⟨k, hunit⟩ := exists_unit hsmall
  rw [roundDouble]
  split_ifs with hzero
  · rw [← hzero]
    exact h
  · rw [hunit, div_div_eq_mul_div, div_one]
    have hpos : (0 : ℚ) < 2 ^ k := by positivity
    have hround : roundEven (x * 2 ^ k) ≤ n * 2 ^ k := by
      refine roundEven_le ?_
      push_cast
      have hmul := mul_le_mul_of_nonneg_right h hpos.le
      linarith
    rw [mul_one_div, div_le_iff₀ hpos]
    exact_mod_cast hround

end

/-- A whole number below `2 ^ 53` is a double. -/
theorem roundDouble_natCast {n : ℕ} (h : n < 2 ^ 53) : roundDouble n = n := by
  have hsmall : |(n : ℚ)| < 2 ^ 53 := by
    rw [Nat.abs_cast]
    exact_mod_cast h
  have hlow : ((n : ℤ) : ℚ) ≤ roundDouble (n : ℚ) := le_roundDouble hsmall (by push_cast; rfl)
  have hhigh : roundDouble (n : ℚ) ≤ ((n : ℤ) : ℚ) := roundDouble_le hsmall (by push_cast; rfl)
  push_cast at hlow hhigh
  exact le_antisymm hhigh hlow

/-- The leading bit of a number is no more than it. -/
theorem zpow_leadingBit_le {x : ℚ} (hx : x ≠ 0) : (2 : ℚ) ^ leadingBit x ≤ |x| := by
  have hden : (0 : ℚ) < x.den := by exact_mod_cast x.den_pos
  have habs : |x| = (x.num.natAbs : ℚ) / x.den := by
    have hnum : |(x.num : ℚ)| = (x.num.natAbs : ℚ) := by
      rw [← Int.cast_abs, Int.abs_eq_natAbs, Int.cast_natCast]
    rw [eq_div_iff hden.ne', ← hnum, ← Rat.mul_den_eq_num x, abs_mul, Nat.abs_cast]
  rw [leadingBit]
  split_ifs with hbelow
  · have hnum : x.num.natAbs ≠ 0 := by simpa using hx
    have hlow : (2 : ℚ) ^ x.num.natAbs.log2 ≤ x.num.natAbs := by
      exact_mod_cast Nat.log2_self_le hnum
    have hhigh : (x.den : ℚ) ≤ 2 ^ (x.den.log2 + 1) := by
      exact_mod_cast (Nat.lt_log2_self (n := x.den)).le
    rw [habs, le_div_iff₀ hden]
    calc (2 : ℚ) ^ ((x.num.natAbs.log2 : ℤ) - x.den.log2 - 1) * x.den
        ≤ 2 ^ ((x.num.natAbs.log2 : ℤ) - x.den.log2 - 1) * 2 ^ (x.den.log2 + 1) :=
          mul_le_mul_of_nonneg_left hhigh (zpow_pos two_pos _).le
      _ = 2 ^ x.num.natAbs.log2 := by
          rw [← zpow_natCast (2 : ℚ) (x.den.log2 + 1), ← zpow_add₀ two_ne_zero, ← zpow_natCast]
          congr 1
          push_cast
          ring
      _ ≤ x.num.natAbs := hlow
  · exact not_lt.mp hbelow

/-- A whole number of `2⁻ᵏ`s that 53 bits hold is a double. -/
theorem roundDouble_dyadic {m : ℤ} (k : ℕ) (hm : |m| < 2 ^ 53) :
    roundDouble (m / 2 ^ k) = m / 2 ^ k := by
  rw [roundDouble]
  split_ifs with hzero
  · exact hzero.symm
  · have hpow : (0 : ℚ) < 2 ^ k := by positivity
    have hlt : (2 : ℚ) ^ (leadingBit ((m : ℚ) / 2 ^ k) + k) < 2 ^ 53 := by
      rw [zpow_add₀ two_ne_zero, zpow_natCast]
      refine lt_of_le_of_lt (mul_le_mul_of_nonneg_right (zpow_leadingBit_le hzero) hpow.le) ?_
      rw [abs_div, abs_of_pos hpow, div_mul_cancel₀ _ hpow.ne']
      exact_mod_cast hm
    have hbit : leadingBit ((m : ℚ) / 2 ^ k) + k < 53 := by
      have hnat : (2 : ℚ) ^ (leadingBit ((m : ℚ) / 2 ^ k) + k) < 2 ^ (53 : ℤ) := by
        exact_mod_cast hlt
      exact (zpow_lt_zpow_iff_right₀ (by norm_num)).mp hnat
    obtain ⟨j, hj⟩ : ∃ j : ℕ, (j : ℤ) = 52 - leadingBit ((m : ℚ) / 2 ^ k) - k :=
      ⟨(52 - leadingBit ((m : ℚ) / 2 ^ k) - k).toNat, Int.toNat_of_nonneg (by omega)⟩
    have hunit : (2 : ℚ) ^ (leadingBit ((m : ℚ) / 2 ^ k) - 52) = 1 / (2 ^ j * 2 ^ k) := by
      rw [show leadingBit ((m : ℚ) / 2 ^ k) - 52 = -((j : ℤ) + k) by omega, zpow_neg,
        zpow_add₀ two_ne_zero, zpow_natCast, zpow_natCast, one_div]
    have hwhole : (m : ℚ) / 2 ^ k / (1 / (2 ^ j * 2 ^ k)) = ((m * 2 ^ j : ℤ) : ℚ) := by
      push_cast
      field_simp
    rw [hunit, hwhole, roundEven_intCast]
    push_cast
    field_simp

/-- Rounding to a double loses no more than half. -/
theorem half_le_roundDouble {x : ℚ} (h : 0 ≤ x) : x / 2 ≤ roundDouble x := by
  rw [roundDouble]
  split_ifs with hzero
  · rw [hzero]
    norm_num
  · have hunit : (0 : ℚ) < 2 ^ (leadingBit x - 52) := zpow_pos two_pos _
    have hnear := (abs_le.mp (abs_roundEven_sub_le (x / 2 ^ (leadingBit x - 52)))).1
    have hle : (2 : ℚ) ^ (leadingBit x - 52) ≤ x := by
      have hbit := zpow_leadingBit_le hzero
      rw [abs_of_nonneg h] at hbit
      exact le_trans (zpow_le_zpow_right₀ (by norm_num) (by omega)) hbit
    have hscaled := mul_le_mul_of_nonneg_right hnear hunit.le
    rw [sub_mul, div_mul_cancel₀ _ hunit.ne'] at hscaled
    linarith

/-! ### To binary32 -/

namespace Binary32

/-- The nearest float, a tie to the even one. -/
def ofRat (x : ℚ) : Binary32 := ofRatio (x < 0) (x.num.natAbs * 2 ^ 149) x.den

theorem le_nearestEven {p q n : ℕ} (h : n * q ≤ p) (hq : 0 < q) : n ≤ nearestEven p q := by
  have hdiv : n ≤ p / q := (Nat.le_div_iff_mul_le hq).mpr h
  rw [nearestEven]
  split_ifs <;> omega

/-- A ratio no less than a number's size is rounded to bits no less than its. -/
theorem magnitude_le_roundedMagnitude {p q : ℕ} (hq : 0 < q) {x : Binary32}
    (hx : x.isFinite = true) (h : x.size * q ≤ p) : x.magnitude ≤ roundedMagnitude p q := by
  have hfinite := isFinite_iff.mp hx
  obtain ⟨hmagnitude, hless, -⟩ := x.significand_eq
  have hscale : 1 ≤ x.scale := le_max_right _ _
  have hdiv : x.size ≤ p / q := (Nat.le_div_iff_mul_le hq).mpr h
  simp only [roundedMagnitude]
  refine le_min ?_ (by omega)
  generalize hs : (p / q).log2 - 23 = s
  rcases Nat.lt_trichotomy (x.scale - 1) s with hbelow | hsame | habove
  · -- the ratio is in a higher binade
    have hne : p / q ≠ 0 := by
      intro hzero
      rw [hzero] at hs
      simp at hs
      omega
    have hlow : 2 ^ (p / q).log2 ≤ p / q := Nat.log2_self_le hne
    have hleast : 2 ^ 23 ≤ nearestEven p (q * 2 ^ s) := by
      refine le_nearestEven ?_ (Nat.mul_pos hq (Nat.two_pow_pos s))
      have hpow : 2 ^ 23 * 2 ^ s ≤ p / q := by
        rw [← Nat.pow_add]
        exact le_trans (Nat.pow_le_pow_right (by omega) (by omega)) hlow
      calc 2 ^ 23 * (q * 2 ^ s) = 2 ^ 23 * 2 ^ s * q := by ring
        _ ≤ p / q * q := Nat.mul_le_mul_right _ hpow
        _ ≤ p := Nat.div_mul_le_self p q
    have hmore : (x.scale - 1 + 1) * 2 ^ 23 ≤ s * 2 ^ 23 := Nat.mul_le_mul_right _ hbelow
    omega
  · have hleast : x.significand ≤ nearestEven p (q * 2 ^ s) := by
      refine le_nearestEven ?_ (Nat.mul_pos hq (Nat.two_pow_pos s))
      calc x.significand * (q * 2 ^ s) = x.size * q := by rw [size, hsame]; ring
        _ ≤ p := h
    rw [hmagnitude, hsame]
    omega
  · -- a number of a higher binade is more than the ratio
    exfalso
    obtain ⟨-, -, hnormal⟩ := x.significand_eq
    have hlead := hnormal (by omega)
    have hhigh : p / q < 2 ^ ((p / q).log2 + 1) := Nat.lt_log2_self
    have hpow : 2 ^ ((p / q).log2 + 1) ≤ x.size := by
      rw [size]
      calc 2 ^ ((p / q).log2 + 1) ≤ 2 ^ (23 + (x.scale - 1)) :=
            Nat.pow_le_pow_right (by omega) (by omega)
        _ = 2 ^ 23 * 2 ^ (x.scale - 1) := Nat.pow_add ..
        _ ≤ _ := Nat.mul_le_mul_right _ hlead
    omega

/-- A float no more than a number is no more than what that is rounded to. -/
theorem key_le_key_ofRat {x : ℚ} (hx : 0 ≤ x) {y : Binary32} (hy : y.Nonnegative)
    (h : y.toRat ≤ x) : y.key ≤ (ofRat x).key ∧ (ofRat x).isNaN = false := by
  have hbits : roundedMagnitude (x.num.natAbs * 2 ^ 149) x.den < 2 ^ 31 :=
    lt_of_le_of_lt (roundedMagnitude_le_infinity _ _) (by norm_num)
  have hnegative : (ofRat x).negative = false := by
    rw [ofRat, ofRatio, negative_ofMagnitude hbits]
    exact decide_eq_false (not_lt.mpr hx)
  have hmagnitude : (ofRat x).magnitude = roundedMagnitude (x.num.natAbs * 2 ^ 149) x.den :=
    magnitude_ofMagnitude hbits
  refine ⟨?_, ofRatio_not_isNaN ..⟩
  rw [hy.key_eq_magnitude, key_eq, hnegative, hmagnitude]
  have hden : (0 : ℚ) < x.den := by exact_mod_cast x.den_pos
  have hsize : y.size * x.den ≤ x.num.natAbs * 2 ^ 149 := by
    rw [toRat, hy.units_eq, div_le_iff₀ (by positivity)] at h
    have hnum : (x.num.natAbs : ℚ) = x * x.den := by
      rw [Rat.mul_den_eq_num]
      have hnonneg : 0 ≤ x.num := Rat.num_nonneg.mpr hx
      rw [← Int.cast_natCast, Int.natAbs_of_nonneg hnonneg]
    have hcast : (y.size : ℚ) * x.den ≤ x.num.natAbs * 2 ^ 149 := by
      rw [hnum]
      push_cast at h
      calc (y.size : ℚ) * x.den ≤ x * 2 ^ 149 * x.den := mul_le_mul_of_nonneg_right h hden.le
        _ = x * x.den * 2 ^ 149 := by ring
    exact_mod_cast hcast
  have hle := magnitude_le_roundedMagnitude x.den_pos hy.1 hsize
  simpa using hle

/-- Of a number and a float no less than `low`, the smaller is between them. -/
theorem min_ofRat_bounds {x : ℚ} (hx : 0 ≤ x) {low cap : Binary32} (hlow : low.Nonnegative)
    (hpositive : 0 < low.key) (hcap : cap.isFinite = true) (hxlow : low.toRat ≤ x)
    (hcaplow : low.toRat ≤ cap.toRat) :
    low.toRat ≤ (Binary32.min (ofRat x) cap).toRat ∧ (Binary32.min (ofRat x) cap).toRat ≤ cap.toRat := by
  obtain ⟨hkey, hnumber⟩ := key_le_key_ofRat hx hlow hxlow
  rw [Binary32.min]
  split_ifs with hless
  · exact ⟨hcaplow, le_rfl⟩
  · have hle : (ofRat x).key ≤ cap.key := by
      simpa [lt, hnumber, isNaN_of_isFinite hcap] using hless
    have hfinite : (ofRat x).isFinite = true := by
      have hsmall := isFinite_iff.mp hcap
      rw [key_eq, key_eq] at hle
      rw [key_eq (ofRat x)] at hkey
      rw [isFinite_iff]
      split_ifs at hle hkey <;> omega
    refine ⟨(le_iff_toRat hlow.1 hfinite).mp ?_, (le_iff_toRat hfinite hcap).mp ?_⟩
    · simpa [le, hnumber, isNaN_of_isFinite hlow.1] using hkey
    · simpa [le, hnumber, isNaN_of_isFinite hcap] using hle

end Binary32
end Lib
