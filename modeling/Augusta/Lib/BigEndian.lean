import Mathlib.Algebra.Group.Nat.Defs

/-! Whole numbers as bytes, the highest first: `n = b₀·256^(k-1) + … + b_(k-1)`. -/

namespace Lib

/-- The `size` lowest bytes of `n`. -/
def bigEndian : ℕ → ℕ → List UInt8
  | 0, _ => []
  | size + 1, n => bigEndian size (n / 256) ++ [UInt8.ofNat n]

def ofBigEndian (bytes : List UInt8) : ℕ := bytes.foldl (fun n byte => n * 256 + byte.toNat) 0

theorem length_bigEndian (size n : ℕ) : (bigEndian size n).length = size := by
  induction size generalizing n with
  | zero => rfl
  | succ size ih => rw [bigEndian, List.length_append, ih, List.length_singleton]

/-- A number that fits comes back. -/
theorem ofBigEndian_bigEndian {size n : ℕ} (h : n < 256 ^ size) :
    ofBigEndian (bigEndian size n) = n := by
  induction size generalizing n with
  | zero =>
      rw [Nat.pow_zero] at h
      rw [Nat.lt_one_iff.mp h]
      rfl
  | succ size ih =>
      have hrest : n / 256 < 256 ^ size := by
        rw [Nat.div_lt_iff_lt_mul (by omega), ← Nat.pow_succ]
        exact h
      rw [bigEndian, ofBigEndian, List.foldl_append]
      have hback := ih hrest
      rw [ofBigEndian] at hback
      simp only [hback, List.foldl_cons, List.foldl_nil, UInt8.toNat_ofNat']
      omega

end Lib
