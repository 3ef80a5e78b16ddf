import Augusta.Lib.Binary32
import Mathlib.Data.Nat.Sqrt
import Mathlib.Tactic.SplitIfs
import Mathlib.Order.Lattice

/-! Binary32 arithmetic: each result is the exact one rounded to the nearest, a tie to the even.

      x ──units──▶ ℤ of 2^-149 ──exact──▶ p / q ──ofRatio──▶ result

    Every finite number is a whole count of the smallest one, so sums and differences are exact
    before they are rounded, and products, quotients and roots are ratios of whole numbers. -/

namespace Lib.Binary32

/-- The bits without the sign. -/
def magnitude (x : Binary32) : ℕ := x.bits.toNat % 2 ^ 31

def nan : Binary32 := ⟨0x7FC00000⟩

def ofMagnitude (negative : Bool) (magnitude : ℕ) : Binary32 :=
  ⟨UInt32.ofNat ((if negative then 2 ^ 31 else 0) + magnitude)⟩

def infinity (negative : Bool) : Binary32 := ofMagnitude negative 0x7F800000

def neg (x : Binary32) : Binary32 := ofMagnitude (!x.negative) x.magnitude

/-- A finite number's distance from zero, as a count of `2 ^ -149`. -/
def size (x : Binary32) : ℕ := x.significand * 2 ^ (x.scale - 1)

/-- A finite number as a count of `2 ^ -149`. -/
def units (x : Binary32) : ℤ := if x.negative then -(x.size : ℤ) else x.size

/-- `p / q` rounded to the nearest whole number, a tie to the even one. -/
def nearestEven (p q : ℕ) : ℕ :=
  if 2 * (p % q) < q then p / q
  else if q < 2 * (p % q) then p / q + 1
  else p / q + p / q % 2

/-- The bits, without a sign, of `p / q · 2 ^ -149`: those of infinity from `2 ^ 128` on. -/
def roundedMagnitude (p q : ℕ) : ℕ :=
  let s := (p / q).log2 - 23
  -- a carry out of the significand is one into the exponent
  min (s * 2 ^ 23 + nearestEven p (q * 2 ^ s)) 0x7F800000

def ofRatio (negative : Bool) (p q : ℕ) : Binary32 := ofMagnitude negative (roundedMagnitude p q)

def sub (x y : Binary32) : Binary32 :=
  if x.isNaN || y.isNaN then nan
  else if !x.isFinite then if !y.isFinite && x.negative == y.negative then nan else x
  else if !y.isFinite then y.neg
  else
    let exact := x.units - y.units
    if exact = 0 then ofMagnitude (x.negative && !y.negative) 0
    else ofRatio (exact < 0) exact.natAbs 1

def add (x y : Binary32) : Binary32 := sub x y.neg

def mul (x y : Binary32) : Binary32 :=
  let negative := x.negative != y.negative
  if x.isNaN || y.isNaN then nan
  else if !x.isFinite || !y.isFinite then
    if x.magnitude = 0 ∨ y.magnitude = 0 then nan else infinity negative
  else ofRatio negative (x.size * y.size) (2 ^ 149)

def div (x y : Binary32) : Binary32 :=
  let negative := x.negative != y.negative
  if x.isNaN || y.isNaN then nan
  else if !x.isFinite then if !y.isFinite then nan else infinity negative
  else if !y.isFinite then ofMagnitude negative 0
  else if y.magnitude = 0 then if x.magnitude = 0 then nan else infinity negative
  else ofRatio negative (x.size * 2 ^ 149) y.size

def sqrt (x : Binary32) : Binary32 :=
  if x.isNaN then nan
  else if x.magnitude = 0 then x
  else if x.negative then nan
  else if !x.isFinite then x
  else
    let square := x.size * 2 ^ 149
    let root := square.sqrt
    -- half a unit more stands for whatever the root leaves over
    ofRatio false (2 * root + if root * root = square then 0 else 1) 2

/-- A whole number converted. -/
def ofInt (n : ℤ) : Binary32 := ofRatio (n < 0) (n.natAbs * 2 ^ 149) 1

/-- A finite number rounded to the nearest whole one, a tie away from zero. -/
def roundAway (x : Binary32) : ℤ :=
  let n : ℤ := ((2 * x.size + 2 ^ 149) / 2 ^ 150 : ℕ)
  if x.negative then -n else n

/-- `std::max`: the first of two that neither is below the other. -/
def max (x y : Binary32) : Binary32 := if x.lt y then y else x

/-- `std::min`, likewise. -/
def min (x y : Binary32) : Binary32 := if y.lt x then y else x

/-- `x == y`: both zeros are equal, and a NaN equals nothing. -/
def eq (x y : Binary32) : Bool := !x.isNaN && !y.isNaN && x.key = y.key

/-- A tenth and a fifth are three tenths, each as near as 24 bits come. -/
example : add ⟨0x3DCCCCCD⟩ ⟨0x3E4CCCCD⟩ = ⟨0x3E99999A⟩ := by decide

section
variable {negative : Bool} {m : ℕ} (hm : m < 2 ^ 31)
include hm

theorem toNat_ofMagnitude :
    (ofMagnitude negative m).bits.toNat = (if negative then 2 ^ 31 else 0) + m := by
  refine UInt32.toNat_ofNat_of_lt' ?_
  simp only [UInt32.size]
  split <;> omega

@[simp] theorem magnitude_ofMagnitude : (ofMagnitude negative m).magnitude = m := by
  rw [magnitude, toNat_ofMagnitude hm]
  split <;> omega

@[simp] theorem negative_ofMagnitude : (ofMagnitude negative m).negative = negative := by
  rw [Binary32.negative, toNat_ofMagnitude hm]
  cases negative
  · simp only [Bool.false_eq_true, if_false, decide_eq_false_iff_not]; omega
  · simp only [if_true, decide_eq_true_eq]; omega

end

theorem magnitude_lt (x : Binary32) : x.magnitude < 2 ^ 31 := Nat.mod_lt _ (by omega)

theorem exponent_eq (x : Binary32) : x.exponent = x.magnitude / 2 ^ 23 := by
  rw [exponent, magnitude]; omega

theorem fraction_eq (x : Binary32) : x.fraction = x.magnitude % 2 ^ 23 := by
  rw [fraction, magnitude]; omega

theorem key_eq (x : Binary32) :
    x.key = if x.negative then -(x.magnitude : ℤ) else x.magnitude := by
  simp only [key, magnitude]; split <;> omega

theorem isFinite_iff {x : Binary32} : x.isFinite = true ↔ x.magnitude < 255 * 2 ^ 23 := by
  have := x.magnitude_lt
  simp only [isFinite, exponent_eq, ne_eq, decide_not, Bool.not_eq_eq_eq_not, Bool.not_true,
    decide_eq_false_iff_not]
  omega

theorem isNaN_iff {x : Binary32} : x.isNaN = true ↔ 255 * 2 ^ 23 < x.magnitude := by
  have := x.magnitude_lt
  simp only [isNaN, exponent_eq, fraction_eq, ne_eq, decide_eq_true_eq]
  omega

theorem isNaN_of_isFinite {x : Binary32} (h : x.isFinite = true) : x.isNaN = false := by
  rw [isFinite_iff] at h
  rw [Bool.eq_false_iff, ne_eq, isNaN_iff]
  omega

theorem ext_magnitude {x y : Binary32} (hnegative : x.negative = y.negative)
    (hmagnitude : x.magnitude = y.magnitude) : x = y := by
  obtain ⟨⟨⟨x⟩⟩⟩ := x
  obtain ⟨⟨⟨y⟩⟩⟩ := y
  simp only [Binary32.negative, magnitude, UInt32.toNat, BitVec.toNat, decide_eq_decide]
    at hnegative hmagnitude
  congr 3
  have := x.isLt
  have := y.isLt
  apply Fin.ext
  omega

/-! ### The two zeros -/

section
variable {x : Binary32} (hx : x.magnitude = 0)
include hx

theorem isFinite_of_magnitude_eq_zero : x.isFinite = true := by rw [isFinite_iff]; omega

theorem size_of_magnitude_eq_zero : x.size = 0 := by
  simp [size, significand, exponent_eq, fraction_eq, hx]

theorem units_of_magnitude_eq_zero : x.units = 0 := by
  rw [units, size_of_magnitude_eq_zero hx]; split <;> rfl

theorem key_of_magnitude_eq_zero : x.key = 0 := by
  rw [key_eq, hx]; split <;> rfl

end

/-- The same number: the same bits, or both zero. -/
def Same (x y : Binary32) : Prop := x = y ∨ x.magnitude = 0 ∧ y.magnitude = 0

theorem Same.refl (x : Binary32) : Same x x := .inl rfl

theorem Same.symm {x y : Binary32} : Same x y → Same y x
  | .inl h => .inl h.symm
  | .inr ⟨hx, hy⟩ => .inr ⟨hy, hx⟩

theorem Same.trans {x y z : Binary32} : Same x y → Same y z → Same x z
  | .inl h, hyz => h ▸ hyz
  | hxy, .inl h => h ▸ hxy
  | .inr ⟨hx, _⟩, .inr ⟨_, hz⟩ => .inr ⟨hx, hz⟩

/-- What compares equal is the same number. -/
theorem same_of_eq {x y : Binary32} (h : eq x y = true) : Same x y := by
  simp only [eq, key_eq, Bool.and_eq_true, decide_eq_true_eq] at h
  by_cases hzero : x.magnitude = 0
  · refine .inr ⟨hzero, ?_⟩
    split_ifs at h <;> omega
  · refine .inl (ext_magnitude ?_ ?_)
    · cases hx : x.negative <;> cases hy : y.negative <;>
        simp only [hx, hy, Bool.false_eq_true, if_true, if_false] at h ⊢ <;> omega
    · split_ifs at h <;> omega

section
variable {x x' : Binary32} (h : Same x x') (y : Binary32)
include h

theorem Same.isNaN_eq : x.isNaN = x'.isNaN := by
  rcases h with rfl | ⟨hx, hx'⟩
  · rfl
  · rw [isNaN_of_isFinite (isFinite_of_magnitude_eq_zero hx),
      isNaN_of_isFinite (isFinite_of_magnitude_eq_zero hx')]

theorem Same.key_eq : x.key = x'.key := by
  rcases h with rfl | ⟨hx, hx'⟩
  · rfl
  · rw [key_of_magnitude_eq_zero hx, key_of_magnitude_eq_zero hx']

theorem Same.lt_left : x.lt y = x'.lt y := by rw [lt, lt, h.isNaN_eq, h.key_eq]

theorem Same.lt_right : y.lt x = y.lt x' := by rw [lt, lt, h.isNaN_eq, h.key_eq]

theorem Same.le_left : x.le y = x'.le y := by rw [le, le, h.isNaN_eq, h.key_eq]

theorem Same.max_left : Same (max x y) (max x' y) := by
  rw [max, max, h.lt_left y]
  split
  · exact .refl y
  · exact h

/-- Two differences that are both zero are the same, whatever their signs. -/
theorem Same.sub_left : Same (sub x y) (sub x' y) := by
  rcases h with rfl | ⟨hx, hx'⟩
  · exact .refl _
  have hfinite := isFinite_of_magnitude_eq_zero hx
  have hfinite' := isFinite_of_magnitude_eq_zero hx'
  simp only [sub, isNaN_of_isFinite hfinite, isNaN_of_isFinite hfinite', hfinite, hfinite',
    units_of_magnitude_eq_zero hx, units_of_magnitude_eq_zero hx', Bool.false_or, Bool.not_true,
    Bool.false_eq_true, if_false]
  split_ifs
  · exact .refl _
  · exact .refl _
  · exact .inr ⟨magnitude_ofMagnitude (by omega), magnitude_ofMagnitude (by omega)⟩
  · exact .refl _

theorem Same.add_left : Same (add x y) (add x' y) := h.sub_left y.neg

end

theorem roundedMagnitude_zero (q : ℕ) : roundedMagnitude 0 q = 0 := by
  simp [roundedMagnitude, nearestEven]

section
variable {x x' : Binary32} (h : Same x x')
include h

theorem Same.mul_left (y : Binary32) : Same (mul x y) (mul x' y) := by
  rcases h with rfl | ⟨hx, hx'⟩
  · exact .refl _
  have hfinite := isFinite_of_magnitude_eq_zero hx
  have hfinite' := isFinite_of_magnitude_eq_zero hx'
  simp only [mul, isNaN_of_isFinite hfinite, isNaN_of_isFinite hfinite', hfinite, hfinite', hx, hx',
    size_of_magnitude_eq_zero hx, size_of_magnitude_eq_zero hx', Nat.zero_mul, ofRatio,
    roundedMagnitude_zero, true_or, if_true]
  split_ifs
  · exact .refl _
  · exact .refl _
  · exact .inr ⟨magnitude_ofMagnitude (by omega), magnitude_ofMagnitude (by omega)⟩

/-- A square has no sign to tell two zeros by. -/
theorem Same.mul_self_eq : mul x x = mul x' x' := by
  rcases h with rfl | ⟨hx, hx'⟩
  · rfl
  · simp [mul, isNaN_of_isFinite (isFinite_of_magnitude_eq_zero hx),
      isNaN_of_isFinite (isFinite_of_magnitude_eq_zero hx'), isFinite_of_magnitude_eq_zero hx,
      isFinite_of_magnitude_eq_zero hx', size_of_magnitude_eq_zero hx,
      size_of_magnitude_eq_zero hx']

end

theorem sub_self_of_isFinite {x : Binary32} (hx : x.isFinite = true) : sub x x = zero := by
  simp only [sub, isNaN_of_isFinite hx, hx, Int.sub_self, Bool.or_self, Bool.not_true,
    Bool.false_eq_true, if_false, if_true, Bool.and_not_self]
  rfl

/-! ### What is taken away makes no more -/

theorem nearestEven_le {p q n : ℕ} (hq : 0 < q) (h : p ≤ n * q) : nearestEven p q ≤ n := by
  have hsplit := Nat.div_add_mod p q
  have hmod := Nat.mod_lt p hq
  have hdiv : p / q ≤ n := Nat.div_le_of_le_mul (by rwa [Nat.mul_comm])
  rcases Nat.lt_or_eq_of_le hdiv with hlt | heq
  · unfold nearestEven; split_ifs <;> omega
  · have : p % q = 0 := by
      rw [heq, Nat.mul_comm] at hsplit; omega
    rw [nearestEven, if_pos (by omega), heq]

theorem significand_eq (x : Binary32) :
    x.magnitude = (x.scale - 1) * 2 ^ 23 + x.significand ∧ x.significand < 2 ^ 24 ∧
      (1 < x.scale → 2 ^ 23 ≤ x.significand) := by
  simp only [scale, significand, exponent_eq, fraction_eq]
  split <;> omega

/-- A whole count no larger than a number's is rounded to bits no larger than its. -/
theorem roundedMagnitude_le {n : ℕ} {x : Binary32} (h : n ≤ x.size) :
    roundedMagnitude n 1 ≤ x.magnitude := by
  obtain ⟨hmagnitude, hlt, hnormal⟩ := x.significand_eq
  simp only [roundedMagnitude, Nat.div_one, Nat.one_mul]
  refine Nat.le_trans (Nat.min_le_left _ _) ?_
  rw [hmagnitude]
  rw [size] at h
  rcases Nat.lt_trichotomy (n.log2 - 23) (x.scale - 1) with hbelow | hsame | habove
  · -- the number is in a higher binade, so it has its leading one
    have hround : nearestEven n (2 ^ (n.log2 - 23)) ≤ 2 ^ 24 := by
      refine nearestEven_le (Nat.two_pow_pos _) ?_
      have hlog : n < 2 ^ (n.log2 + 1) := Nat.lt_log2_self
      refine Nat.le_trans hlog.le ?_
      rw [← Nat.pow_add]
      exact Nat.pow_le_pow_right (by omega) (by omega)
    have := hnormal (by omega)
    have hscale : (n.log2 - 23 + 1) * 2 ^ 23 ≤ (x.scale - 1) * 2 ^ 23 :=
      Nat.mul_le_mul_right _ hbelow
    omega
  · rw [hsame]
    exact Nat.add_le_add_left (nearestEven_le (Nat.two_pow_pos _) h) _
  · -- a count that long is more than the number
    have hn : n ≠ 0 := by rintro rfl; simp at habove
    have hlow : 2 ^ n.log2 ≤ n := Nat.log2_self_le hn
    have hsize : x.significand * 2 ^ (x.scale - 1) < 2 ^ 24 * 2 ^ (x.scale - 1) :=
      Nat.mul_lt_mul_of_pos_right hlt (Nat.two_pow_pos _)
    have hpow : 2 ^ 24 * 2 ^ (x.scale - 1) ≤ 2 ^ n.log2 := by
      rw [← Nat.pow_add]
      exact Nat.pow_le_pow_right (by omega) (by omega)
    omega

theorem magnitude_ofRatio {negative : Bool} {n : ℕ} {x : Binary32} (h : n ≤ x.size) :
    (ofRatio negative n 1).magnitude ≤ x.magnitude := by
  have hle := roundedMagnitude_le h
  have := x.magnitude_lt
  rw [ofRatio, magnitude_ofMagnitude (by omega)]
  exact hle

/-- A finite number from zero up. -/
def Nonnegative (x : Binary32) : Prop := x.isFinite = true ∧ 0 ≤ x.key

theorem nonnegative_iff {x : Binary32} :
    x.Nonnegative ↔ x.isFinite = true ∧ zero.le x = true := by
  refine and_congr_right fun hx => ?_
  have hzero : zero.isNaN = false := rfl
  have hkey : zero.key = 0 := rfl
  simp [le, hzero, hkey, isNaN_of_isFinite hx]

theorem Nonnegative.units_eq {x : Binary32} (hx : x.Nonnegative) : x.units = x.size := by
  obtain ⟨-, hkey⟩ := hx
  rw [units]
  split_ifs with hnegative
  · rw [key_eq, if_pos hnegative] at hkey
    rw [size_of_magnitude_eq_zero (by omega)]; rfl
  · rfl

theorem Nonnegative.key_eq_magnitude {x : Binary32} (hx : x.Nonnegative) : x.key = x.magnitude := by
  obtain ⟨-, hkey⟩ := hx
  rw [key_eq] at hkey ⊢
  split_ifs at hkey ⊢ <;> omega

/-- The difference of two numbers from zero up is no more than the first. -/
theorem sub_le {x y : Binary32} (hx : x.Nonnegative) (hy : y.Nonnegative) :
    (sub x y).isFinite = true ∧ (sub x y).key ≤ x.key := by
  have hxfinite := hx.1
  have hxkey := hx.key_eq_magnitude
  have hsmall := isFinite_iff.mp hxfinite
  simp only [sub, isNaN_of_isFinite hx.1, isNaN_of_isFinite hy.1, hx.1, hy.1, hx.units_eq,
    hy.units_eq, Bool.or_self, Bool.not_true, Bool.false_eq_true, if_false]
  split_ifs with hzero
  · have hmagnitude : (ofMagnitude (x.negative && !y.negative) 0).magnitude = 0 :=
      magnitude_ofMagnitude (by omega)
    refine ⟨isFinite_of_magnitude_eq_zero hmagnitude, ?_⟩
    rw [key_of_magnitude_eq_zero hmagnitude]
    exact hx.2
  · have hyfinite := isFinite_iff.mp hy.1
    rcases Int.lt_or_gt_of_ne hzero with hneg | hpos
    · -- below zero: no further from it than what was taken away
      have hmagnitude := @magnitude_ofRatio (decide ((x.size : ℤ) - y.size < 0))
        ((x.size : ℤ) - y.size).natAbs y (by omega)
      have hnegative : (ofRatio (decide ((x.size : ℤ) - y.size < 0))
          ((x.size : ℤ) - y.size).natAbs 1).negative = true := by
        rw [ofRatio, negative_ofMagnitude, decide_eq_true_iff]
        · exact hneg
        · rw [ofRatio, roundedMagnitude] at *; omega
      rw [isFinite_iff, key_eq, if_pos hnegative, hxkey]
      omega
    · have hmagnitude := @magnitude_ofRatio (decide ((x.size : ℤ) - y.size < 0))
        ((x.size : ℤ) - y.size).natAbs x (by omega)
      rw [isFinite_iff, key_eq, hxkey]
      split_ifs <;> omega

/-- What is left of `x` after `y` is taken away, none at the least. -/
def less (x y : Binary32) : Binary32 := max (sub x y) zero

theorem less_nonnegative {x y : Binary32} (hx : x.Nonnegative) (hy : y.Nonnegative) :
    (less x y).Nonnegative ∧ (less x y).key ≤ x.key := by
  obtain ⟨hfinite, hle⟩ := sub_le hx hy
  have hzero : zero.isNaN = false := rfl
  have hkey : zero.key = 0 := rfl
  simp only [less, max, lt, isNaN_of_isFinite hfinite, hzero, hkey, Bool.not_false, Bool.and_self,
    Bool.true_and, decide_eq_true_eq]
  split_ifs with hbelow
  · exact ⟨⟨rfl, Int.le_refl 0⟩, hx.2⟩
  · exact ⟨⟨hfinite, Int.not_lt.mp hbelow⟩, hle⟩

/-- A number above zero is neither zero, and has no sign. -/
theorem positive_of_lt {x : Binary32} (h : zero.lt x = true) :
    x.magnitude ≠ 0 ∧ x.negative = false := by
  have hkey : zero.key = 0 := rfl
  simp only [lt, hkey, Bool.and_eq_true, decide_eq_true_eq, key_eq] at h
  split_ifs at h with hnegative
  · omega
  · exact ⟨by omega, Bool.eq_false_iff.mpr hnegative⟩

/-! ### Never a NaN -/

theorem roundedMagnitude_le_infinity (p q : ℕ) : roundedMagnitude p q ≤ 255 * 2 ^ 23 :=
  Nat.min_le_right _ _

theorem ofMagnitude_not_isNaN {negative : Bool} {m : ℕ} (h : m ≤ 255 * 2 ^ 23) :
    (ofMagnitude negative m).isNaN = false := by
  rw [Bool.eq_false_iff, ne_eq, isNaN_iff, magnitude_ofMagnitude (by omega)]
  omega

theorem ofRatio_not_isNaN (negative : Bool) (p q : ℕ) : (ofRatio negative p q).isNaN = false :=
  ofMagnitude_not_isNaN (roundedMagnitude_le_infinity p q)

@[simp] theorem magnitude_neg (x : Binary32) : x.neg.magnitude = x.magnitude :=
  magnitude_ofMagnitude x.magnitude_lt

@[simp] theorem negative_neg (x : Binary32) : x.neg.negative = !x.negative :=
  negative_ofMagnitude x.magnitude_lt

@[simp] theorem isNaN_neg (x : Binary32) : x.neg.isNaN = x.isNaN := by
  rw [Bool.eq_iff_iff, isNaN_iff, isNaN_iff, magnitude_neg]

@[simp] theorem isFinite_neg (x : Binary32) : x.neg.isFinite = x.isFinite := by
  rw [Bool.eq_iff_iff, isFinite_iff, isFinite_iff, magnitude_neg]

/-- A difference is a number, unless it is of two infinities of one sign. -/
theorem sub_not_isNaN {x y : Binary32} (hx : x.isNaN = false) (hy : y.isNaN = false)
    (h : x.isFinite = true ∨ y.isFinite = true ∨ x.negative ≠ y.negative) :
    (sub x y).isNaN = false := by
  simp only [sub, hx, hy, Bool.or_self, Bool.false_eq_true, if_false]
  split_ifs with hxfinite hboth hyfinite hzero
  · rcases h with h | h | h <;> simp_all
  · exact hx
  · rw [isNaN_neg, hy]
  · exact ofMagnitude_not_isNaN (by omega)
  · exact ofRatio_not_isNaN _ _ _

/-- A quotient by a finite number that is not zero is a number. -/
theorem div_not_isNaN {x y : Binary32} (hx : x.isFinite = true) (hy : y.isFinite = true)
    (h : y.magnitude ≠ 0) :
    (div x y).isNaN = false ∧ (div x y).negative = (x.negative != y.negative) := by
  simp only [div, isNaN_of_isFinite hx, isNaN_of_isFinite hy, hx, hy, h, Bool.or_self,
    Bool.not_true, Bool.false_eq_true, if_false]
  have hle := roundedMagnitude_le_infinity (x.size * 2 ^ 149) y.size
  exact ⟨ofRatio_not_isNaN _ _ _, negative_ofMagnitude (by omega)⟩

/-- A number that is not `-∞`: what counts down and is held from below. -/
def Held (x : Binary32) : Prop := x.isNaN = false ∧ (x.isFinite = true ∨ x.negative = false)

theorem held_max {x y : Binary32} (hx : x.isNaN = false) (hy : y.isFinite = true) :
    (max x y).Held := by
  have hynan := isNaN_of_isFinite hy
  rw [max]
  split_ifs with hlt
  · exact ⟨hynan, .inl hy⟩
  · refine ⟨hx, ?_⟩
    by_contra hlow
    simp only [not_or, Bool.not_eq_true, Bool.not_eq_false] at hlow
    have hxlarge : 255 * 2 ^ 23 ≤ x.magnitude := by
      have := mt isFinite_iff.mpr (Bool.eq_false_iff.mp hlow.1)
      omega
    have hysmall := isFinite_iff.mp hy
    refine hlt ?_
    simp only [lt, hx, hynan, key_eq, hlow.2, if_true, Bool.not_false, Bool.and_self, Bool.true_and,
      decide_eq_true_eq]
    split_ifs <;> omega

/-- Anything that is a number equals itself. -/
theorem eq_self {x : Binary32} (h : x.isNaN = false) : eq x x = true := by simp [eq, h]

end Lib.Binary32
