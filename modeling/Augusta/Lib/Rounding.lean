import Augusta.Lib.Numerals
import Augusta.Lib.Arithmetic
import Mathlib.Algebra.Order.Floor.Ring
import Mathlib.Data.Rat.Floor
import Mathlib.Tactic.Linarith
import Mathlib.Tactic.Ring
import Mathlib.Tactic.FieldSimp
import Mathlib.Tactic.SplitIfs

/-! Rounding over exact arithmetic: what `std::nearbyint` and `std::remainder` do to the numbers
    that floats stand for.

      ⌊x⌋ ──────── x ──┬────────── ⌊x⌋ + 1        the nearer, at the middle the even one
                       └ ⌊x⌋ + 1/2                                                          -/

namespace Lib

section
variable {𝕜 : Type*} [Field 𝕜] [LinearOrder 𝕜] [FloorRing 𝕜]

/-- The nearest whole number, a tie to the even one. -/
def roundEven (x : 𝕜) : ℤ :=
  if x - ⌊x⌋ < 1 / 2 then ⌊x⌋ else if 1 / 2 < x - ⌊x⌋ then ⌊x⌋ + 1 else ⌊x⌋ + ⌊x⌋ % 2

/-- What is left of `x` beyond the whole number of `y`s nearest it. -/
def remainder (x y : 𝕜) : 𝕜 := x - roundEven (x / y) * y

variable [IsStrictOrderedRing 𝕜]

@[simp] theorem roundEven_intCast (n : ℤ) : roundEven (n : 𝕜) = n := by
  simp [roundEven]

omit [IsStrictOrderedRing 𝕜] in
/-- Rounding takes one of the two neighbours, and at most half a step to it. -/
theorem roundEven_cases (x : 𝕜) :
    (roundEven x = ⌊x⌋ ∧ x - ⌊x⌋ ≤ 1 / 2) ∨ (roundEven x = ⌊x⌋ + 1 ∧ 1 / 2 ≤ x - ⌊x⌋) := by
  rw [roundEven]
  split_ifs with hbelow habove
  · exact .inl ⟨rfl, hbelow.le⟩
  · exact .inr ⟨rfl, habove.le⟩
  · rcases Int.emod_two_eq_zero_or_one ⌊x⌋ with heven | hodd
    · exact .inl ⟨by rw [heven, add_zero], not_lt.mp habove⟩
    · exact .inr ⟨by rw [hodd], not_lt.mp hbelow⟩

theorem abs_roundEven_sub_le (x : 𝕜) : |(roundEven x : 𝕜) - x| ≤ 1 / 2 := by
  have hfloor := Int.floor_le x
  have hceil := (Int.lt_floor_add_one x).le
  rcases roundEven_cases x with ⟨hround, hnear⟩ | ⟨hround, hnear⟩
  · rw [hround, abs_le]
    constructor <;> linarith
  · rw [hround, abs_le]
    push_cast
    constructor <;> linarith

/-- Below the middle between two whole numbers, rounding stays at the lower. -/
theorem roundEven_le {x : 𝕜} {n : ℤ} (h : x < n + 1 / 2) : roundEven x ≤ n := by
  rcases roundEven_cases x with ⟨hround, -⟩ | ⟨hround, hnear⟩
  · have hfloor : ⌊x⌋ < n + 1 := Int.floor_lt.mpr (by push_cast; linarith)
    omega
  · have hlt : ((⌊x⌋ + 1 : ℤ) : 𝕜) < (n + 1 : ℤ) := by
      push_cast
      linarith
    have := Int.cast_lt.mp hlt
    omega

omit [IsStrictOrderedRing 𝕜] in
theorem le_roundEven {x : 𝕜} {n : ℤ} (h : (n : 𝕜) ≤ x) : n ≤ roundEven x := by
  have hfloor : n ≤ ⌊x⌋ := Int.le_floor.mpr h
  rcases roundEven_cases x with ⟨hround, -⟩ | ⟨hround, -⟩ <;> omega

theorem roundEven_neg (x : 𝕜) : roundEven (-x) = -roundEven x := by
  rcases eq_or_ne x ⌊x⌋ with hwhole | hpart
  · rw [hwhole, ← Int.cast_neg, roundEven_intCast, roundEven_intCast]
  · have hlt : (⌊x⌋ : 𝕜) < x := lt_of_le_of_ne (Int.floor_le x) hpart.symm
    have hceil := Int.lt_floor_add_one x
    have hfloor : ⌊-x⌋ = -⌊x⌋ - 1 := by
      rw [Int.floor_eq_iff]
      push_cast
      constructor <;> linarith
    have hbelow : -x - ((-⌊x⌋ - 1 : ℤ) : 𝕜) < 1 / 2 ↔ 1 / 2 < x - ⌊x⌋ := by
      push_cast
      constructor <;> intro h <;> linarith
    have habove : 1 / 2 < -x - ((-⌊x⌋ - 1 : ℤ) : 𝕜) ↔ x - ⌊x⌋ < 1 / 2 := by
      push_cast
      constructor <;> intro h <;> linarith
    simp only [roundEven, hfloor, hbelow, habove]
    split_ifs with hfar hnear hnear
    · exact absurd hnear (not_lt.mpr hfar.le)
    all_goals omega

end

/-! ### The number a float stands for -/

namespace Binary32

/-- A finite float's number. -/
def toRat (x : Binary32) : ℚ := x.units / 2 ^ 149

/-- A quotient's whole part and rest. -/
theorem floor_div_two_pow (a s : ℕ) :
    ⌊(a : ℚ) / 2 ^ s⌋ = (a / 2 ^ s : ℕ) ∧
      (a : ℚ) / 2 ^ s - (⌊(a : ℚ) / 2 ^ s⌋ : ℤ) = (a % 2 ^ s : ℕ) / 2 ^ s := by
  have hpos : (0 : ℚ) < 2 ^ s := by positivity
  have hsplit : a = 2 ^ s * (a / 2 ^ s) + a % 2 ^ s := (Nat.div_add_mod a (2 ^ s)).symm
  have hless : a % 2 ^ s < 2 ^ s := Nat.mod_lt a (Nat.two_pow_pos s)
  generalize a / 2 ^ s = q at hsplit ⊢
  generalize a % 2 ^ s = r at hsplit hless ⊢
  have hpart : (a : ℚ) / 2 ^ s = q + r / 2 ^ s := by
    rw [hsplit]
    push_cast
    rw [add_div, mul_div_cancel_left₀ _ hpos.ne']
  have hrest : (r : ℚ) / 2 ^ s < 1 := (div_lt_one hpos).mpr (by exact_mod_cast hless)
  have hnonneg : (0 : ℚ) ≤ r / 2 ^ s := by positivity
  have hfloor : ⌊(a : ℚ) / 2 ^ s⌋ = (q : ℤ) := by
    rw [Int.floor_eq_iff, hpart, Int.cast_natCast]
    constructor <;> linarith
  refine ⟨hfloor, ?_⟩
  rw [hfloor, hpart, Int.cast_natCast, add_sub_cancel_left]

theorem roundHalfEven_eq (a s : ℕ) : (roundHalfEven a s : ℤ) = roundEven ((a : ℚ) / 2 ^ s) := by
  have hpos : (0 : ℚ) < 2 ^ s := by positivity
  obtain ⟨hfloor, hrest⟩ := floor_div_two_pow a s
  have hlt : ((a % 2 ^ s : ℕ) : ℚ) / 2 ^ s < 1 / 2 ↔ 2 * (a % 2 ^ s) < 2 ^ s := by
    rw [div_lt_div_iff₀ hpos two_pos, one_mul, mul_comm]
    exact_mod_cast Iff.rfl
  have hgt : 1 / 2 < ((a % 2 ^ s : ℕ) : ℚ) / 2 ^ s ↔ 2 ^ s < 2 * (a % 2 ^ s) := by
    rw [div_lt_div_iff₀ two_pos hpos, one_mul, mul_comm]
    exact_mod_cast Iff.rfl
  simp only [roundHalfEven, roundEven, hrest, hlt, hgt]
  rw [hfloor]
  split_ifs <;> push_cast <;> rfl

/-- The size of a float's number, over the scale it is rounded at. -/
theorem size_mul_pow (x : Binary32) (k : ℕ) : (x.size : ℚ) / 2 ^ 149 * 2 ^ k =
    if 150 ≤ x.scale + k then ((x.significand * 2 ^ (x.scale + k - 150) : ℕ) : ℚ)
    else x.significand / 2 ^ (150 - (x.scale + k)) := by
  have hscale : 1 ≤ x.scale := le_max_right _ _
  have hpow : (2 : ℚ) ^ (x.scale - 1) * 2 ^ k = 2 ^ (x.scale - 1 + k) := (pow_add _ _ _).symm
  have hsize : (x.size : ℚ) / 2 ^ 149 * 2 ^ k =
      x.significand * 2 ^ (x.scale - 1 + k) / 2 ^ 149 := by
    rw [size, ← hpow]
    push_cast
    ring
  rw [hsize]
  split_ifs with hwhole
  · have hexponent : x.scale - 1 + k = x.scale + k - 150 + 149 := by omega
    rw [hexponent, pow_add, ← mul_assoc, mul_div_cancel_right₀ _ (by positivity)]
    push_cast
    rfl
  · have hexponent : (2 : ℚ) ^ 149 = 2 ^ (150 - (x.scale + k)) * 2 ^ (x.scale - 1 + k) := by
      rw [← pow_add]
      congr 1
      omega
    rw [hexponent, mul_div_mul_right _ _ (by positivity)]

/-- `roundScaled` rounds the number a float stands for. -/
theorem roundScaled_eq (x : Binary32) (k : ℕ) : x.roundScaled k = roundEven (x.toRat * 2 ^ k) := by
  have hmagnitude : ((if 150 ≤ x.scale + k then x.significand * 2 ^ (x.scale + k - 150)
      else roundHalfEven x.significand (150 - (x.scale + k)) : ℕ) : ℤ) =
        roundEven ((x.size : ℚ) / 2 ^ 149 * 2 ^ k) := by
    rw [size_mul_pow]
    split_ifs
    · exact (roundEven_intCast _).symm
    · exact roundHalfEven_eq _ _
  simp only [roundScaled, hmagnitude, toRat, units]
  split_ifs
  · push_cast
    rw [neg_div, neg_mul, roundEven_neg]
  · push_cast
    rfl

/-- A number written exactly stands for itself. -/
theorem toRat_ofScaled {n : ℤ} {k : ℕ} (hlt : n.natAbs < 2 ^ 24) (hk : k ≤ 126) :
    (ofScaled n k).toRat = n / 2 ^ k := by
  by_cases hn : n = 0
  · rw [ofScaled, if_pos hn, hn, Int.cast_zero, zero_div]
    simp [toRat, show zero.units = 0 from rfl]
  · obtain ⟨hnegative, hexponent, hfraction⟩ := ofScaled_fields hn hlt hk
    obtain ⟨hlog, hlow, hhigh⟩ := shifted_bounds (Int.natAbs_ne_zero.mpr hn) hlt
    have hsignificand : (ofScaled n k).significand = n.natAbs * 2 ^ (23 - n.natAbs.log2) := by
      rw [significand, hexponent, hfraction, if_neg (by omega)]
      omega
    have hscale : 23 - n.natAbs.log2 + ((ofScaled n k).scale - 1) = 149 - k := by
      rw [scale, hexponent]
      omega
    have hsize : (ofScaled n k).size = n.natAbs * 2 ^ (149 - k) := by
      rw [size, hsignificand, Nat.mul_assoc, ← Nat.pow_add, hscale]
    have hunits : (ofScaled n k).units = n * 2 ^ (149 - k) := by
      rw [units, hnegative, hsize, Nat.cast_mul]
      by_cases hneg : n < 0
      · rw [decide_eq_true hneg, if_pos rfl, ← neg_mul, Int.ofNat_natAbs_of_nonpos hneg.le, neg_neg]
        push_cast
        rfl
      · rw [decide_eq_false hneg, if_neg Bool.false_ne_true, Int.natAbs_of_nonneg (not_lt.mp hneg)]
        push_cast
        rfl
    have hsplit : (2 : ℚ) ^ 149 = 2 ^ k * 2 ^ (149 - k) := by
      rw [← pow_add]
      congr 1
      omega
    rw [toRat, hunits, hsplit]
    push_cast
    rw [mul_div_mul_right _ _ (by positivity)]

end Binary32
/-! ### binary64, where its exponent suffices -/

/-- The exponent of a number's leading bit. -/
def leadingBit (x : ℚ) : ℤ :=
  let near := (x.num.natAbs.log2 : ℤ) - x.den.log2
  if |x| < 2 ^ near then near - 1 else near

/-- The nearest number of 53 bits, a tie to the even one. -/
def roundDouble (x : ℚ) : ℚ :=
  let unit : ℚ := 2 ^ (leadingBit x - 52)
  if x = 0 then 0 else roundEven (x / unit) * unit

end Lib
