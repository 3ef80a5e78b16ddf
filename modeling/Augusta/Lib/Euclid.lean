import Mathlib.Analysis.InnerProductSpace.PiL2
import Mathlib.LinearAlgebra.Matrix.DotProduct

/-! Lengths of real vectors by their coordinates, and what keeps a point near another.

      |M p| ≤ ‖M‖ |p|          ‖M‖² the sum of M's columns' squares
      |P - c| ≤ r              where P is in a triangle whose corners are within r of c
      the clamped foot of c    no point of a segment is nearer c -/

namespace Lib.Euclid
variable {n : ℕ}

/-- The length of a vector, as the root of its dot product with itself. -/
noncomputable def length (v : Fin n → ℝ) : ℝ := √(v ⬝ᵥ v)

theorem length_eq_norm (v : Fin n → ℝ) :
    length v = ‖(WithLp.toLp 2 v : EuclideanSpace ℝ (Fin n))‖ := by
  rw [length, EuclideanSpace.norm_eq]
  congr 1
  simp [dotProduct, sq]

theorem dot_self_nonneg (v : Fin n → ℝ) : 0 ≤ v ⬝ᵥ v :=
  Finset.sum_nonneg fun i _ => mul_self_nonneg (v i)

theorem length_nonneg (v : Fin n → ℝ) : 0 ≤ length v := Real.sqrt_nonneg _

theorem length_mul_self (v : Fin n → ℝ) : length v * length v = v ⬝ᵥ v :=
  Real.mul_self_sqrt (dot_self_nonneg v)

theorem length_add_le (v w : Fin n → ℝ) : length (v + w) ≤ length v + length w := by
  simp only [length_eq_norm, WithLp.toLp_add]
  exact norm_add_le _ _

theorem length_sub_comm (v w : Fin n → ℝ) : length (v - w) = length (w - v) := by
  simp only [length_eq_norm, WithLp.toLp_sub]
  exact norm_sub_rev _ _

theorem length_smul (c : ℝ) (v : Fin n → ℝ) : length (c • v) = |c| * length v := by
  simp only [length_eq_norm, WithLp.toLp_smul]
  exact norm_smul c _

/-- A point is within `r` of another when their square distance is within its square. -/
theorem length_le_iff {v : Fin n → ℝ} {r : ℝ} (hr : 0 ≤ r) : length v ≤ r ↔ v ⬝ᵥ v ≤ r * r := by
  rw [length, Real.sqrt_le_left hr, sq]

/-! ### What a matrix stretches -/

/-- What `p` of the columns adds up to is no longer than `p` times their root of squares. -/
theorem length_columns_le {m : ℕ} (columns : Fin m → Fin n → ℝ) (p : Fin m → ℝ) :
    length (∑ j, p j • columns j) ≤ length p * √(∑ j, columns j ⬝ᵥ columns j) := by
  have hnonneg : 0 ≤ ∑ j, columns j ⬝ᵥ columns j :=
    Finset.sum_nonneg fun j _ => dot_self_nonneg (columns j)
  rw [length_le_iff (mul_nonneg (length_nonneg p) (Real.sqrt_nonneg _)),
    mul_mul_mul_comm, length_mul_self, Real.mul_self_sqrt hnonneg]
  have hrow : ∀ i, ((∑ j, p j • columns j) i) ^ 2 ≤ (∑ j, p j ^ 2) * ∑ j, columns j i ^ 2 := by
    intro i
    simpa using Finset.sum_mul_sq_le_sq_mul_sq Finset.univ p (fun j => columns j i)
  calc (∑ j, p j • columns j) ⬝ᵥ (∑ j, p j • columns j)
      = ∑ i, ((∑ j, p j • columns j) i) ^ 2 := by simp [dotProduct, sq]
    _ ≤ ∑ i, (∑ j, p j ^ 2) * ∑ j, columns j i ^ 2 := Finset.sum_le_sum fun i _ => hrow i
    _ = (p ⬝ᵥ p) * ∑ j, columns j ⬝ᵥ columns j := by
        rw [← Finset.mul_sum, Finset.sum_comm]
        simp [dotProduct, sq]

/-! ### Triangles -/

/-- A triangle whose corners are near a point is near it. -/
theorem length_triangle_le {a b d center : Fin n → ℝ} {r u v : ℝ} (ha : length (a - center) ≤ r)
    (hb : length (b - center) ≤ r) (hd : length (d - center) ≤ r) (hu : 0 ≤ u) (hv : 0 ≤ v)
    (huv : u + v ≤ 1) : length (a + u • (b - a) + v • (d - a) - center) ≤ r := by
  have hsplit : a + u • (b - a) + v • (d - a) - center =
      (1 - u - v) • (a - center) + (u • (b - center) + v • (d - center)) := by
    module
  have hw : 0 ≤ 1 - u - v := by linarith
  rw [hsplit]
  calc length ((1 - u - v) • (a - center) + (u • (b - center) + v • (d - center)))
      ≤ length ((1 - u - v) • (a - center)) +
          (length (u • (b - center)) + length (v • (d - center))) :=
        (length_add_le _ _).trans (by gcongr; exact length_add_le _ _)
    _ = (1 - u - v) * length (a - center) + (u * length (b - center) + v * length (d - center)) := by
        rw [length_smul, length_smul, length_smul, abs_of_nonneg hw, abs_of_nonneg hu,
          abs_of_nonneg hv]
    _ ≤ (1 - u - v) * r + (u * r + v * r) := by gcongr
    _ = r := by ring

/-! ### Segments -/

/-- How far along a segment the point of it nearest another is. -/
noncomputable def foot (from_ along center : Fin n → ℝ) : ℝ :=
  if 0 < along ⬝ᵥ along then max 0 (min ((center - from_) ⬝ᵥ along / along ⬝ᵥ along) 1) else 0

/-- The square distance from a point `t` of the way along a segment. -/
theorem dot_apart (from_ along center : Fin n → ℝ) (t : ℝ) :
    (center - (from_ + t • along)) ⬝ᵥ (center - (from_ + t • along)) =
      (center - from_) ⬝ᵥ (center - from_) - 2 * t * ((center - from_) ⬝ᵥ along) +
        t ^ 2 * (along ⬝ᵥ along) := by
  have hsplit : center - (from_ + t • along) = (center - from_) - t • along := by module
  rw [hsplit]
  generalize center - from_ = apart
  rw [sub_dotProduct, dotProduct_sub, dotProduct_sub, smul_dotProduct, dotProduct_smul,
    smul_dotProduct, dotProduct_smul, dotProduct_comm along apart]
  simp only [smul_eq_mul]
  ring

/-- No point of a segment is nearer than its foot. -/
theorem dot_foot_le (from_ along center : Fin n → ℝ) {t : ℝ} (h0 : 0 ≤ t) (h1 : t ≤ 1) :
    (center - (from_ + foot from_ along center • along)) ⬝ᵥ
        (center - (from_ + foot from_ along center • along)) ≤
      (center - (from_ + t • along)) ⬝ᵥ (center - (from_ + t • along)) := by
  rw [dot_apart, dot_apart]
  set m := (center - from_) ⬝ᵥ along
  set l := along ⬝ᵥ along
  rw [foot]
  by_cases hl : 0 < l
  · rw [if_pos hl]
    have hml : m = m / l * l := (div_mul_cancel₀ m hl.ne').symm
    rcases le_total (m / l) 0 with hlow | hlow
    · rw [max_eq_left ((min_le_left _ _).trans hlow)]
      have hm : m ≤ 0 := by rw [hml]; exact mul_nonpos_of_nonpos_of_nonneg hlow hl.le
      nlinarith [mul_nonneg h0 h0, mul_nonneg h0 (neg_nonneg.mpr hm)]
    · rcases le_total (m / l) 1 with hhigh | hhigh
      · rw [min_eq_left hhigh, max_eq_right hlow]
        nlinarith [mul_nonneg hl.le (sq_nonneg (t - m / l))]
      · rw [min_eq_right hhigh, max_eq_right zero_le_one]
        have hm : l ≤ m := by rw [hml]; nlinarith
        nlinarith [mul_nonneg (sub_nonneg.mpr h1) (sub_nonneg.mpr hm),
          mul_nonneg (mul_nonneg (sub_nonneg.mpr h1) (sub_nonneg.mpr h1)) hl.le]
  · rw [if_neg hl]
    have hzero : l = 0 := le_antisymm (not_lt.mp hl) (dot_self_nonneg along)
    have halong : along = 0 := dotProduct_self_eq_zero.mp hzero
    have hm : m = 0 := by simp only [m, halong, dotProduct_zero]
    rw [hzero, hm]
    linarith

end Lib.Euclid
