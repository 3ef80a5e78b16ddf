import Augusta.Lib.Rounding
import Mathlib.Tactic.Positivity
import Mathlib.Tactic.Push

/-! A count-down in binary32: what is left of `x` as `y` is taken off it again and again.

      x ──▶ x ⊖ y ──▶ x ⊖ y ⊖ y ──▶ …        each `⊖` within 2⁻²⁴ of the exact difference -/

namespace Lib.Binary32

/-! ### How far a rounded count is from the exact one -/

theorem two_mul_nearestEven_sub_le {p q : ℕ} (hq : 0 < q) :
    2 * (nearestEven p q * q) ≤ 2 * p + q ∧ 2 * p ≤ 2 * (nearestEven p q * q) + q := by
  have hsplit := Nat.div_add_mod p q
  have hless := Nat.mod_lt p hq
  have hsucc : (p / q + 1) * q = q * (p / q) + q := by ring
  have hsame : p / q * q = q * (p / q) := Nat.mul_comm _ _
  rw [nearestEven]
  rcases Nat.mod_two_eq_zero_or_one (p / q) with heven | hodd
  · simp only [heven, Nat.add_zero]
    split_ifs <;> omega
  · simp only [hodd]
    split_ifs <;> omega

/-- A number's size from its bits, the significand a leading carry past 24 bits at the most. -/
theorem size_of_magnitude {x : Binary32} {s m : ℕ} (h : x.magnitude = s * 2 ^ 23 + m)
    (hm : m ≤ 2 ^ 24) (hnormal : s ≠ 0 → 2 ^ 23 ≤ m) : x.size = m * 2 ^ s := by
  have hexponent := x.exponent_eq
  have hfraction := x.fraction_eq
  rcases Nat.lt_or_ge m (2 ^ 23) with hsmall | hlarge
  · have hs : s = 0 := by
      by_contra hne
      exact absurd (hnormal hne) (by omega)
    have hzero : x.exponent = 0 := by omega
    rw [size, significand, if_pos hzero, scale, hzero, hfraction, h, hs]
    simp only [Nat.zero_mul, Nat.zero_add, Nat.mod_eq_of_lt hsmall]
    rfl
  · rcases Nat.lt_or_ge m (2 ^ 24) with hin | hcarry
    · have hone : x.exponent = s + 1 := by omega
      have hrest : x.fraction = m - 2 ^ 23 := by omega
      have hsignificand : 2 ^ 23 + (m - 2 ^ 23) = m := by omega
      rw [size, significand, if_neg (by omega), scale, hone, hrest, hsignificand]
      simp
    · have htwo : x.exponent = s + 2 := by omega
      have hrest : x.fraction = 0 := by omega
      have hfull : m = 2 ^ 23 * 2 := by omega
      have hscale : Max.max (s + 2) 1 - 1 = s + 1 := by omega
      rw [size, significand, if_neg (by omega), scale, htwo, hrest, hscale, hfull, pow_succ]
      ring

/-- The size of a count rounded to bits, short of infinity: within one part in `2 ^ 24` of it. -/
theorem size_ofRatio {negative : Bool} {n : ℕ} (hfinite : (ofRatio negative n 1).isFinite = true) :
    2 ^ 24 * (ofRatio negative n 1).size ≤ 2 ^ 24 * n + n ∧
      2 ^ 24 * n ≤ 2 ^ 24 * (ofRatio negative n 1).size + n := by
  have hbits : roundedMagnitude n 1 < 2 ^ 31 :=
    lt_of_le_of_lt (roundedMagnitude_le_infinity n 1) (by norm_num)
  have hmagnitude : (ofRatio negative n 1).magnitude = roundedMagnitude n 1 :=
    magnitude_ofMagnitude hbits
  have hsmall := isFinite_iff.mp hfinite
  rw [hmagnitude] at hsmall
  generalize hs : n.log2 - 23 = s
  generalize hnear : nearestEven n (2 ^ s) = m
  have hround : (ofRatio negative n 1).magnitude = s * 2 ^ 23 + m := by
    rw [hmagnitude]
    simp only [roundedMagnitude, Nat.div_one, Nat.one_mul, hs, hnear] at hsmall ⊢
    omega
  obtain ⟨hupper, hlower⟩ := two_mul_nearestEven_sub_le (p := n) (Nat.two_pow_pos s)
  rw [hnear] at hupper hlower
  have hm : m ≤ 2 ^ 24 := by
    rw [← hnear]
    refine nearestEven_le (Nat.two_pow_pos s) ?_
    rw [← Nat.pow_add]
    exact Nat.le_trans Nat.lt_log2_self.le (Nat.pow_le_pow_right (by omega) (by omega))
  rcases Nat.eq_zero_or_pos s with hzero | hpos
  · -- every count of 24 bits is kept exactly
    have hexact : m = n := by
      rw [← hnear, hzero]
      simp [nearestEven, Nat.mod_one]
    rw [size_of_magnitude hround hm (fun hne => absurd hzero hne), hzero, hexact]
    omega
  · have hn : n ≠ 0 := by
      rintro rfl
      simp at hs
      omega
    have hlow : 2 ^ (s + 23) ≤ n :=
      Nat.le_trans (Nat.pow_le_pow_right (by omega) (by omega)) (Nat.log2_self_le hn)
    have hleast : 2 ^ 23 ≤ m := by
      by_contra hless
      have hmul : m * 2 ^ s + 2 ^ s ≤ 2 ^ 23 * 2 ^ s := by
        calc m * 2 ^ s + 2 ^ s = (m + 1) * 2 ^ s := by ring
          _ ≤ 2 ^ 23 * 2 ^ s := Nat.mul_le_mul_right _ (by omega)
      rw [pow_add, Nat.mul_comm] at hlow
      omega
    rw [size_of_magnitude hround hm fun _ => hleast]
    rw [pow_add, Nat.mul_comm] at hlow
    omega

/-! ### Order and size -/

theorem size_le_size {x y : Binary32} : x.size ≤ y.size ↔ x.magnitude ≤ y.magnitude := by
  have hlt : ∀ {a b : Binary32}, a.magnitude < b.magnitude → a.size < b.size := by
    intro a b hless
    obtain ⟨ha, haless, hanormal⟩ := a.significand_eq
    obtain ⟨hb, hbless, hbnormal⟩ := b.significand_eq
    have hbscale : 1 ≤ b.scale := le_max_right _ _
    rcases Nat.lt_trichotomy a.scale b.scale with hbelow | hsame | habove
    · have hascale : 1 ≤ a.scale := le_max_right _ _
      have hsignificand := hbnormal (by omega)
      have hup : a.scale - 1 + 1 ≤ b.scale - 1 := by omega
      rw [size, size]
      calc a.significand * 2 ^ (a.scale - 1) < 2 ^ 24 * 2 ^ (a.scale - 1) :=
            Nat.mul_lt_mul_of_pos_right haless (Nat.two_pow_pos _)
        _ = 2 ^ 23 * 2 ^ (a.scale - 1 + 1) := by rw [pow_succ]; ring
        _ ≤ 2 ^ 23 * 2 ^ (b.scale - 1) :=
            Nat.mul_le_mul_left _ (Nat.pow_le_pow_right two_pos hup)
        _ ≤ b.significand * 2 ^ (b.scale - 1) := Nat.mul_le_mul_right _ hsignificand
    · rw [size, size, hsame]
      rw [hsame] at ha
      have hsignificand : a.significand < b.significand := by omega
      exact Nat.mul_lt_mul_of_pos_right hsignificand (Nat.two_pow_pos _)
    · have hsignificand := hanormal (by omega)
      omega
  rcases Nat.lt_trichotomy x.magnitude y.magnitude with h | h | h
  · have := hlt h
    omega
  · have hsize : x.size = y.size := by
      rw [size, size, significand, significand, scale, scale, exponent_eq, exponent_eq, fraction_eq,
        fraction_eq, h]
    omega
  · have := hlt h
    omega

theorem units_le_units {x y : Binary32} : x.units ≤ y.units ↔ x.key ≤ y.key := by
  have hsize := @size_le_size x y
  have hsize' := @size_le_size y x
  have hx : x.size = 0 ↔ x.magnitude = 0 := by
    have := @size_le_size x zero
    have hzero : zero.size = 0 := rfl
    have hzero' : zero.magnitude = 0 := rfl
    omega
  have hy : y.size = 0 ↔ y.magnitude = 0 := by
    have := @size_le_size y zero
    have hzero : zero.size = 0 := rfl
    have hzero' : zero.magnitude = 0 := rfl
    omega
  rw [units, units, key_eq, key_eq]
  split_ifs <;> omega

/-- Finite floats are ordered as the numbers they stand for. -/
theorem le_iff_toRat {x y : Binary32} (hx : x.isFinite = true) (hy : y.isFinite = true) :
    x.le y = true ↔ x.toRat ≤ y.toRat := by
  rw [toRat, toRat, div_le_div_iff_of_pos_right (by positivity), Int.cast_le, units_le_units]
  simp [le, isNaN_of_isFinite hx, isNaN_of_isFinite hy]

theorem lt_iff_toRat {x y : Binary32} (hx : x.isFinite = true) (hy : y.isFinite = true) :
    x.lt y = true ↔ x.toRat < y.toRat := by
  rw [← not_le, ← le_iff_toRat hy hx]
  simp [le, lt, isNaN_of_isFinite hx, isNaN_of_isFinite hy]

theorem nonnegative_iff_toRat {x : Binary32} :
    x.Nonnegative ↔ x.isFinite = true ∧ 0 ≤ x.toRat := by
  rw [nonnegative_iff]
  refine and_congr_right fun hx => ?_
  have hzero : zero.toRat = 0 := by simp [toRat, show zero.units = 0 from rfl]
  rw [le_iff_toRat (show zero.isFinite = true from rfl) hx, hzero]

/-! ### One subtraction -/

/-- Below a rounded difference, a positive float is below the exact one. -/
theorem toRat_lt_of_lt_sub {x y z : Binary32} (hx : x.Nonnegative) (hy : y.Nonnegative)
    (hpos : 0 < z.key) (hlt : z.lt (sub x y) = true) :
    z.isFinite = true ∧ z.toRat < x.toRat - y.toRat := by
  obtain ⟨hfinite, hle⟩ := sub_le hx hy
  simp only [lt, Bool.and_eq_true, Bool.not_eq_true', decide_eq_true_eq] at hlt
  obtain ⟨⟨_, _⟩, hkey⟩ := hlt
  have hsign : z.negative = false := by
    rw [key_eq] at hpos
    split_ifs at hpos with hnegative
    · omega
    · exact Bool.eq_false_iff.mpr hnegative
  have hzkey : z.key = z.magnitude := by rw [key_eq, if_neg (by simp [hsign])]
  have hzfinite : z.isFinite = true := by
    have hxkey := hx.key_eq_magnitude
    have hsmall := isFinite_iff.mp hx.1
    rw [isFinite_iff]
    omega
  refine ⟨hzfinite, ?_⟩
  by_contra hover
  rw [not_lt, toRat, toRat, toRat, ← sub_div, div_le_div_iff_of_pos_right (by positivity)] at hover
  have hunits : x.units - y.units ≤ z.units := by exact_mod_cast hover
  have hz : z.units = z.size := by rw [units, if_neg (by simp [hsign])]
  rw [hx.units_eq, hy.units_eq, hz] at hunits
  -- the rounded difference is no further out than `z`, which the exact one is not past
  have hmagnitude := @magnitude_ofRatio (decide ((x.size : ℤ) - y.size < 0))
    ((x.size : ℤ) - y.size).natAbs z
  simp only [sub, isNaN_of_isFinite hx.1, isNaN_of_isFinite hy.1, hx.1, hy.1, hx.units_eq,
    hy.units_eq, Bool.or_self, Bool.not_true, Bool.false_eq_true, if_false] at hkey
  split_ifs at hkey with hzero
  · rw [key_of_magnitude_eq_zero (magnitude_ofMagnitude (by omega))] at hkey
    omega
  · rw [hzkey, key_eq] at hkey
    rcases Int.lt_or_gt_of_ne hzero with hneg | hpos'
    · have hnegative : (ofRatio (decide ((x.size : ℤ) - y.size < 0))
          ((x.size : ℤ) - y.size).natAbs 1).negative = true := by
        have hbound := roundedMagnitude_le_infinity ((x.size : ℤ) - y.size).natAbs 1
        rw [ofRatio, negative_ofMagnitude (by omega), decide_eq_true_iff]
        exact hneg
      rw [if_pos hnegative] at hkey
      omega
    · have := hmagnitude (by omega)
      split_ifs at hkey <;> omega

/-- A difference of numbers from zero up is finite, and within one part in `2 ^ 24` of the exact
    one. -/
theorem toRat_sub_near {x y : Binary32} (hx : x.Nonnegative) (hy : y.Nonnegative) :
    (sub x y).isFinite = true ∧
      |(sub x y).toRat - (x.toRat - y.toRat)| ≤ |x.toRat - y.toRat| / 2 ^ 24 := by
  have hfinite := (sub_le hx hy).1
  refine ⟨hfinite, ?_⟩
  -- as counts of the smallest number
  suffices hunits : 2 ^ 24 * |(sub x y).units - (x.units - y.units)| ≤ |x.units - y.units| by
    have hcast : (2 : ℚ) ^ 24 * |(((sub x y).units - (x.units - y.units) : ℤ) : ℚ)| ≤
        |((x.units - y.units : ℤ) : ℚ)| := by exact_mod_cast hunits
    have hpos : (0 : ℚ) < 2 ^ 149 := by positivity
    rw [toRat, toRat, toRat, ← sub_div, ← sub_div, abs_div, abs_div, abs_of_pos hpos,
      le_div_iff₀ (by positivity), div_mul_eq_mul_div, div_le_div_iff_of_pos_right hpos]
    push_cast at hcast
    linarith
  by_cases hzero : x.units - y.units = 0
  · have hsub : sub x y = ofMagnitude (x.negative && !y.negative) 0 := by
      simp only [sub, isNaN_of_isFinite hx.1, isNaN_of_isFinite hy.1, hx.1, hy.1, hzero, Bool.or_self,
        Bool.not_true, Bool.false_eq_true, if_false, if_true]
    have hnone : (sub x y).units = 0 := by
      rw [hsub]
      exact units_of_magnitude_eq_zero (magnitude_ofMagnitude (by omega))
    rw [hzero, hnone]
    rfl
  · have hsub : sub x y = ofRatio (x.units - y.units < 0) (x.units - y.units).natAbs 1 := by
      simp only [sub, isNaN_of_isFinite hx.1, isNaN_of_isFinite hy.1, hx.1, hy.1, hzero, Bool.or_self,
        Bool.not_true, Bool.false_eq_true, if_false]
    have hbits : roundedMagnitude (x.units - y.units).natAbs 1 < 2 ^ 31 :=
      lt_of_le_of_lt (roundedMagnitude_le_infinity _ 1) (by norm_num)
    rw [hsub] at hfinite ⊢
    obtain ⟨hupper, hlower⟩ := size_ofRatio hfinite
    have hnegative : (ofRatio (x.units - y.units < 0) (x.units - y.units).natAbs 1).negative =
        decide (x.units - y.units < 0) := negative_ofMagnitude hbits
    rw [units, hnegative]
    generalize (ofRatio (decide (x.units - y.units < 0)) (x.units - y.units).natAbs 1).size = size at *
    rcases abs_cases (x.units - y.units) with ⟨habs, hsign⟩ | ⟨habs, hsign⟩
    · rw [if_neg (by simpa using hsign), habs]
      rcases abs_cases ((size : ℤ) - (x.units - y.units)) with ⟨hrest, -⟩ | ⟨hrest, -⟩
      · omega
      · omega
    · rw [if_pos (by simpa using hsign), habs]
      rcases abs_cases (-(size : ℤ) - (x.units - y.units)) with ⟨hrest, -⟩ | ⟨hrest, -⟩
      · omega
      · omega

/-! ### Again and again -/

/-- What is left of `x` after `y` is taken off `n` times. -/
def countDown (x y : Binary32) : ℕ → Binary32
  | 0 => x
  | n + 1 => (countDown x y n).sub y

/-- While something was left, the rounding adds up to one part in `2 ^ 24` a step at the most. -/
theorem countDown_near {x y : Binary32} (hx : x.Nonnegative) (hy : y.Nonnegative) (n : ℕ)
    (hleft : ∀ k < n, 0 ≤ (countDown x y k).toRat) :
    (countDown x y n).isFinite = true ∧ (countDown x y n).toRat ≤ x.toRat ∧
      |(countDown x y n).toRat - (x.toRat - n * y.toRat)| ≤ n * ((x.toRat ⊔ y.toRat) / 2 ^ 24) := by
  induction n with
  | zero => simp [countDown, hx.1]
  | succ n ih =>
      obtain ⟨hfinite, hmost, hnear⟩ := ih fun k hk => hleft k (by omega)
      have hnonnegative : (countDown x y n).Nonnegative :=
        nonnegative_iff_toRat.mpr ⟨hfinite, hleft n (Nat.lt_succ_self n)⟩
      obtain ⟨hnext, hstep⟩ := toRat_sub_near hnonnegative hy
      have hyrat := (nonnegative_iff_toRat.mp hy).2
      have hcount := hleft n (Nat.lt_succ_self n)
      have hless : (sub (countDown x y n) y).toRat ≤ (countDown x y n).toRat := by
        rw [← le_iff_toRat hnext hfinite]
        simpa [le, isNaN_of_isFinite hnext, isNaN_of_isFinite hfinite] using
          (sub_le hnonnegative hy).2
      refine ⟨hnext, hless.trans hmost, ?_⟩
      have hlarge : |(countDown x y n).toRat - y.toRat| ≤ x.toRat ⊔ y.toRat := by
        rw [abs_le]
        have hleftMax := le_max_left x.toRat y.toRat
        have hrightMax := le_max_right x.toRat y.toRat
        constructor <;> linarith
      have hround : |(countDown x y n).toRat - y.toRat| / 2 ^ 24 ≤ (x.toRat ⊔ y.toRat) / 2 ^ 24 :=
        div_le_div_of_nonneg_right hlarge (by positivity)
      rw [countDown]
      calc |(sub (countDown x y n) y).toRat - (x.toRat - (n + 1 : ℕ) * y.toRat)|
          = |((sub (countDown x y n) y).toRat - ((countDown x y n).toRat - y.toRat)) +
              ((countDown x y n).toRat - (x.toRat - n * y.toRat))| := by
            congr 1
            push_cast
            ring
        _ ≤ _ := abs_add_le _ _
        _ ≤ (x.toRat ⊔ y.toRat) / 2 ^ 24 + n * ((x.toRat ⊔ y.toRat) / 2 ^ 24) := by linarith
        _ = (n + 1 : ℕ) * ((x.toRat ⊔ y.toRat) / 2 ^ 24) := by
            push_cast
            ring

end Lib.Binary32
