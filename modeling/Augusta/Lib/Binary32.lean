import Mathlib.Algebra.Group.Int.Defs
import Mathlib.Algebra.Group.Nat.Defs

/-! IEEE 754 binary32 numbers as their 32 bits.

      31  30     23  22           0
      [s] [exponent] [ fraction   ]     exponent 255: infinities (fraction 0) and NaNs

    Equality of two values is equality of their bits, so a NaN that travels unchanged is the same
    value; the order of the numbers they stand for is `lt`. -/

namespace Lib

structure Binary32 where
  bits : UInt32
  deriving DecidableEq, Repr

namespace Binary32

def zero : Binary32 := ⟨0⟩

def one : Binary32 := ⟨0x3F800000⟩

instance : Inhabited Binary32 := ⟨zero⟩

def negative (x : Binary32) : Bool := x.bits.toNat / 2 ^ 31 = 1

def exponent (x : Binary32) : ℕ := x.bits.toNat / 2 ^ 23 % 2 ^ 8

def fraction (x : Binary32) : ℕ := x.bits.toNat % 2 ^ 23

/-- Neither infinite nor a NaN. -/
def isFinite (x : Binary32) : Bool := x.exponent ≠ 255

def isNaN (x : Binary32) : Bool := x.exponent = 255 ∧ x.fraction ≠ 0

/-- The magnitude, the sign bit cleared. -/
def abs (x : Binary32) : Binary32 := ⟨x.bits &&& 0x7FFFFFFF⟩

/-- A whole number that orders the values that are not NaNs as they are ordered; both zeros are 0. -/
def key (x : Binary32) : ℤ :=
  let magnitude : ℤ := x.bits.toNat % 2 ^ 31
  if x.negative then -magnitude else magnitude

/-- `x < y`; false with a NaN on either side. -/
def lt (x y : Binary32) : Bool := !x.isNaN && !y.isNaN && x.key < y.key

/-- `x ≤ y`; false with a NaN on either side. -/
def le (x y : Binary32) : Bool := !x.isNaN && !y.isNaN && x.key ≤ y.key

/-! ### Scaled by a power of two -/

/-- The 24 bits before the exponent: the value is `significand · 2 ^ (scale - 150)`. -/
def significand (x : Binary32) : ℕ :=
  if x.exponent = 0 then x.fraction else 2 ^ 23 + x.fraction

def scale (x : Binary32) : ℕ := max x.exponent 1

/-- `a / 2 ^ s` rounded to the nearest whole number, a tie to the even one. -/
def roundHalfEven (a s : ℕ) : ℕ :=
  let q := a / 2 ^ s
  let r := a % 2 ^ s
  if 2 * r < 2 ^ s then q else if 2 ^ s < 2 * r then q + 1 else q + q % 2

/-- A finite `x · 2 ^ k` rounded to the nearest whole number, a tie to the even one. -/
def roundScaled (x : Binary32) (k : ℕ) : ℤ :=
  let n : ℕ :=
    if 150 ≤ x.scale + k then x.significand * 2 ^ (x.scale + k - 150)
    else roundHalfEven x.significand (150 - (x.scale + k))
  if x.negative then -(n : ℤ) else n

/-- The value `n / 2 ^ k`, exact for `|n| < 2 ^ 24` and `k ≤ 126`. -/
def ofScaled (n : ℤ) (k : ℕ) : Binary32 :=
  if n = 0 then zero
  else
    let a := n.natAbs
    ⟨UInt32.ofNat ((if n < 0 then 2 ^ 31 else 0) + (127 + a.log2 - k) * 2 ^ 23 +
      (a * 2 ^ (23 - a.log2) - 2 ^ 23))⟩

theorem roundHalfEven_mul (a s : ℕ) : roundHalfEven (a * 2 ^ s) s = a := by
  have hpos : 0 < 2 ^ s := Nat.two_pow_pos s
  simp only [roundHalfEven, Nat.mul_div_cancel _ hpos, Nat.mul_mod_left]
  rw [if_pos (by omega)]

/-- The leading one of `a < 2 ^ 24` shifted to bit 23. -/
theorem shifted_bounds {a : ℕ} (hpos : a ≠ 0) (hlt : a < 2 ^ 24) :
    a.log2 ≤ 23 ∧ 2 ^ 23 ≤ a * 2 ^ (23 - a.log2) ∧ a * 2 ^ (23 - a.log2) < 2 ^ 24 := by
  have hlog : a.log2 < 24 := (Nat.log2_lt hpos).mpr hlt
  have hlow : 2 ^ a.log2 ≤ a := Nat.log2_self_le hpos
  have hhigh : a < 2 ^ (a.log2 + 1) := Nat.lt_log2_self
  have hsplit : 2 ^ a.log2 * 2 ^ (23 - a.log2) = 2 ^ 23 := by
    rw [← Nat.pow_add]; congr 1; omega
  refine ⟨by omega, ?_, ?_⟩
  · rw [← hsplit]; exact Nat.mul_le_mul_right _ hlow
  · have hmul := Nat.mul_lt_mul_of_pos_right hhigh (Nat.two_pow_pos (23 - a.log2))
    rw [Nat.pow_succ, Nat.mul_right_comm, hsplit] at hmul
    exact hmul

section
variable {n : ℤ} {k : ℕ} (hn : n ≠ 0) (hlt : n.natAbs < 2 ^ 24) (hk : k ≤ 126)
include hn hlt hk

/-- The three fields of `ofScaled`. -/
theorem ofScaled_fields :
    (ofScaled n k).negative = decide (n < 0) ∧
    (ofScaled n k).exponent = 127 + n.natAbs.log2 - k ∧
    (ofScaled n k).fraction = n.natAbs * 2 ^ (23 - n.natAbs.log2) - 2 ^ 23 := by
  obtain ⟨hlog, hlow, hhigh⟩ := shifted_bounds (Int.natAbs_ne_zero.mpr hn) hlt
  have hbits : (ofScaled n k).bits.toNat = (if n < 0 then 2 ^ 31 else 0) +
      (127 + n.natAbs.log2 - k) * 2 ^ 23 + (n.natAbs * 2 ^ (23 - n.natAbs.log2) - 2 ^ 23) := by
    rw [ofScaled, if_neg hn]
    refine UInt32.toNat_ofNat_of_lt' ?_
    simp only [UInt32.size]
    split <;> omega
  refine ⟨?_, ?_, ?_⟩
  · rw [negative, hbits]
    by_cases hneg : n < 0
    · simp only [hneg, if_true]; congr 1; exact propext ⟨fun _ => trivial, fun _ => by omega⟩
    · simp only [hneg, if_false]; congr 1; exact propext ⟨fun h => by omega, False.elim⟩
  · rw [exponent, hbits]
    split <;> omega
  · rw [fraction, hbits]
    split <;> omega

theorem ofScaled_isFinite_of_ne : (ofScaled n k).isFinite = true := by
  obtain ⟨-, hexponent, -⟩ := ofScaled_fields hn hlt hk
  obtain ⟨hlog, -, -⟩ := shifted_bounds (Int.natAbs_ne_zero.mpr hn) hlt
  rw [isFinite, hexponent]
  simp only [ne_eq, decide_not, Bool.not_eq_eq_eq_not, Bool.not_true, decide_eq_false_iff_not]
  omega

theorem roundScaled_ofScaled_of_ne : (ofScaled n k).roundScaled k = n := by
  obtain ⟨hnegative, hexponent, hfraction⟩ := ofScaled_fields hn hlt hk
  obtain ⟨hlog, hlow, hhigh⟩ := shifted_bounds (Int.natAbs_ne_zero.mpr hn) hlt
  have hscale : (ofScaled n k).scale + k = 127 + n.natAbs.log2 := by
    rw [scale, hexponent]; omega
  have hsignificand : (ofScaled n k).significand = n.natAbs * 2 ^ (23 - n.natAbs.log2) := by
    rw [significand, hexponent, hfraction, if_neg (by omega)]; omega
  have hround : (if 150 ≤ (ofScaled n k).scale + k
      then (ofScaled n k).significand * 2 ^ ((ofScaled n k).scale + k - 150)
      else roundHalfEven (ofScaled n k).significand (150 - ((ofScaled n k).scale + k))) =
        n.natAbs := by
    rw [hscale, hsignificand]
    split
    · next hfull =>
        have : n.natAbs.log2 = 23 := by omega
        simp [this]
    · next hpart =>
        have : 150 - (127 + n.natAbs.log2) = 23 - n.natAbs.log2 := by omega
        rw [this, roundHalfEven_mul]
  simp only [roundScaled, hround, hnegative]
  by_cases hneg : n < 0
  · simp only [hneg, decide_true, if_true]; omega
  · simp only [hneg, decide_false]; simp only [Bool.false_eq_true, if_false]; omega

end

theorem ofScaled_isFinite {n : ℤ} {k : ℕ} (hlt : n.natAbs < 2 ^ 24) (hk : k ≤ 126) :
    (ofScaled n k).isFinite = true := by
  by_cases hn : n = 0
  · rw [ofScaled, if_pos hn]; rfl
  · exact ofScaled_isFinite_of_ne hn hlt hk

/-- What is written exactly is read back exactly. -/
theorem roundScaled_ofScaled {n : ℤ} {k : ℕ} (hlt : n.natAbs < 2 ^ 24) (hk : k ≤ 126) :
    (ofScaled n k).roundScaled k = n := by
  by_cases hn : n = 0
  · subst hn
    have hzero : zero.significand = 0 := rfl
    have hpositive : zero.negative = false := rfl
    simp only [ofScaled, if_true, roundScaled, hzero, hpositive, Nat.zero_mul]
    simp [roundHalfEven]
  · exact roundScaled_ofScaled_of_ne hn hlt hk

end Binary32
end Lib
