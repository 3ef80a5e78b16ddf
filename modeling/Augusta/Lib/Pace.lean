import Augusta.Lib.Rounding
import Mathlib.Order.Bounds.Basic
import Mathlib.Tactic.NormNum
import Mathlib.Tactic.Positivity

/-! A counter that goes by a rounded step: when it gets there, against when the exact one does.

      exact      y   y   y   y   y │ y         R / y ticks
      counted    k     k     k     │ k         the fewest steps of k to cover R

    Each step's rounding adds to the ones before it. -/

namespace Lib

section
variable {𝕜 : Type*} [Field 𝕜] [LinearOrder 𝕜]

/-- What `ends` tells is so first on a tick within one of `ticks`. -/
def Timely (ends : ℕ → Prop) (ticks : 𝕜) : Prop :=
  ∃ n, IsLeast {m | ends m} n ∧ |(n : 𝕜) - ticks| ≤ 1

theorem timely_iff {ends : ℕ → Prop} {n : ℕ} (h : IsLeast {m | ends m} n) {ticks : 𝕜} :
    Timely ends ticks ↔ |(n : 𝕜) - ticks| ≤ 1 := by
  constructor
  · rintro ⟨m, hleast, hnear⟩
    rwa [← hleast.unique h]
  · intro hnear
    exact ⟨n, h, hnear⟩

theorem not_timely {ends : ℕ → Prop} (h : ∀ n, ¬ ends n) (ticks : 𝕜) : ¬ Timely ends ticks := by
  rintro ⟨n, hleast, -⟩
  exact h n hleast.1

/-- Two tellings that agree up to the first tick of either have the same first tick. -/
theorem isLeast_congr {ends other : ℕ → Prop}
    (h : ∀ n, (∀ m < n, ¬ ends m) → (ends n ↔ other n)) (n : ℕ) :
    IsLeast {m | ends m} n ↔ IsLeast {m | other m} n := by
  have hbefore : ∀ n, (∀ m < n, ¬ ends m) ↔ ∀ m < n, ¬ other m := by
    intro n
    induction n with
    | zero => simp
    | succ n ih =>
      constructor
      · intro hnone m hm
        rw [← h m fun i hi => hnone i (by omega)]
        exact hnone m hm
      · intro hnone
        have hfirst := ih.mpr fun m hm => hnone m (by omega)
        intro m hm
        rcases Nat.lt_succ_iff_lt_or_eq.mp hm with hless | rfl
        · exact hfirst m hless
        · rw [h m hfirst]
          exact hnone m hm
  have hleast : ∀ ends : ℕ → Prop,
      IsLeast {m | ends m} n ↔ ends n ∧ ∀ m < n, ¬ ends m := by
    intro ends
    constructor
    · rintro ⟨hover, hlow⟩
      exact ⟨hover, fun m hm hin => absurd (hlow hin) (by omega)⟩
    · rintro ⟨hover, hnone⟩
      exact ⟨hover, fun m hin => not_lt.mp fun hm => hnone m hm hin⟩
  rw [hleast, hleast]
  constructor
  · rintro ⟨hover, hnone⟩
    exact ⟨(h n hnone).mp hover, (hbefore n).mp hnone⟩
  · rintro ⟨hother, hnone⟩
    have hfirst := (hbefore n).mpr hnone
    exact ⟨(h n hfirst).mpr hother, hfirst⟩

theorem timely_congr {ends other : ℕ → Prop}
    (h : ∀ n, (∀ m < n, ¬ ends m) → (ends n ↔ other n)) (ticks : 𝕜) :
    Timely ends ticks ↔ Timely other ticks := by
  simp only [Timely, isLeast_congr h]

/-! ### The fewest steps -/

/-- `n` steps of `k` cover `R`, and no fewer do. -/
def Fewest (R k n : ℕ) : Prop := IsLeast {m | R ≤ m * k} n

theorem exists_fewest (R : ℕ) {k : ℕ} (hk : 0 < k) : ∃ n, Fewest R k n := by
  have hcovers : ∃ n, R ≤ n * k := ⟨R, Nat.le_mul_of_pos_right R hk⟩
  exact ⟨Nat.find hcovers, Nat.find_spec hcovers, fun m hm => Nat.find_min' hcovers hm⟩

theorem Fewest.covers {R k n : ℕ} (h : Fewest R k n) : R ≤ n * k := h.1

theorem Fewest.short {R k n : ℕ} (h : Fewest R k (n + 1)) : n * k < R := by
  by_contra hcovers
  have := h.2 (not_lt.mp hcovers : n ∈ {m | R ≤ m * k})
  omega

theorem Fewest.isLeast {R k n : ℕ} (h : Fewest R k n) {ends : ℕ → Prop}
    (hover : ∀ m, ends m ↔ R ≤ m * k) : IsLeast {m | ends m} n :=
  ⟨(hover n).mpr h.1, fun m hm => h.2 ((hover m).mp hm)⟩

theorem fewest_succ {R k n : ℕ} (hcovers : R ≤ (n + 1) * k) (hshort : n * k < R) :
    Fewest R k (n + 1) := by
  refine ⟨hcovers, fun m hm => ?_⟩
  by_contra hless
  have hle : m * k ≤ n * k := Nat.mul_le_mul_right k (by omega)
  have : R ≤ m * k := hm
  omega

/-! ### How near they come -/

/-- Steps of `k` for `y`, over as many as `N`, the `u`-th of them at a time, add up to a tick's
    worth at the most. -/
structure KeepsUp (N u k : ℕ) (y : 𝕜) : Prop where
  moves : 0 < k
  /-- Rounded up, all the steps gain no more than one tick. -/
  gains : y ≤ k → ((N / k : ℕ) : 𝕜) * (k - y) ≤ y
  /-- Rounded down, they fall behind no further than the last one left to take. -/
  loses : k < y → (((N - u) / k : ℕ) : 𝕜) * (y - k) ≤ u

/-- The same of a counter that is over below a step, not at nothing. -/
structure DrainsInStep (N u k : ℕ) (y : 𝕜) : Prop where
  moves : 0 < k
  gains : y < k → (((N + u) / k : ℕ) : 𝕜) * (k - y) ≤ y + u
  loses : k < y → (((N - u) / k : ℕ) : 𝕜) * (y - k) ≤ u

variable [IsStrictOrderedRing 𝕜]

theorem abs_sub_div_le_one {a b y : 𝕜} (hy : 0 < y) :
    |a - b / y| ≤ 1 ↔ a * y ≤ b + y ∧ b ≤ a * y + y := by
  have hdiv : b / y * y = b := div_mul_cancel₀ b hy.ne'
  rw [abs_le]
  constructor
  · rintro ⟨hlow, hhigh⟩
    have hmin := mul_le_mul_of_nonneg_right hlow hy.le
    have hmax := mul_le_mul_of_nonneg_right hhigh hy.le
    constructor <;> nlinarith
  · rintro ⟨hlow, hhigh⟩
    constructor
    · refine le_of_mul_le_mul_right ?_ hy
      rw [sub_mul, hdiv]
      linarith
    · refine le_of_mul_le_mul_right ?_ hy
      rw [sub_mul, hdiv]
      linarith

section
variable {N u k n R : ℕ} {y : 𝕜}

/-- A whole step needs no rounding. -/
theorem keepsUp_self (hk : 0 < k) : KeepsUp N u k (k : 𝕜) := by
  refine ⟨hk, fun _ => ?_, fun hless => absurd hless (lt_irrefl _)⟩
  rw [sub_self, mul_zero]
  exact Nat.cast_nonneg k

omit [IsStrictOrderedRing 𝕜] in
theorem drainsInStep_self (hk : 0 < k) : DrainsInStep N u k (k : 𝕜) :=
  ⟨hk, fun hless => absurd hless (lt_irrefl _), fun hless => absurd hless (lt_irrefl _)⟩

/-- What is left after whole steps is whole units of `u` too. -/
theorem add_le_of_dvd {a b : ℕ} (ha : u ∣ a) (hb : u ∣ b) (hless : a < b) : a + u ≤ b := by
  have hrest := Nat.le_of_dvd (by omega) (Nat.dvd_sub hb ha)
  omega

theorem mul_le_of_le_div {m : ℕ} {a c : 𝕜} (hm : m ≤ n) (ha : 0 ≤ a)
    (h : (n : 𝕜) * a ≤ c) : (m : 𝕜) * a ≤ c :=
  le_trans (mul_le_mul_of_nonneg_right (Nat.cast_le.mpr hm) ha) h

/-- A counter whose steps keep up is there within a tick of the exact time. -/
theorem Fewest.near (h : Fewest R k n) (hkeeps : KeepsUp N u k y) (hy : 0 < y)
    (hround : (k : 𝕜) - 1 ≤ y) (hR : R ≤ N) (hdvd : (k : 𝕜) < y → u ∣ R ∧ u ∣ k) :
    |(n : 𝕜) - R / y| ≤ 1 := by
  rw [abs_sub_div_le_one hy]
  have hcovers : (R : 𝕜) ≤ n * k := by exact_mod_cast h.covers
  rcases le_or_gt y k with hup | hdown
  · constructor
    · rcases n with - | j
      · have : (0 : 𝕜) ≤ R := Nat.cast_nonneg R
        push_cast
        linarith
      · have hshort : (j : 𝕜) * k ≤ R := by exact_mod_cast h.short.le
        have hsteps : (j : 𝕜) * y ≤ j * k := mul_le_mul_of_nonneg_left hup (Nat.cast_nonneg j)
        push_cast
        linarith
    · rcases Nat.lt_or_ge N (n * k) with hpast | hin
      · -- the last step goes past `N`
        rcases n with - | j
        · omega
        · have hj : j ≤ N / k := by
            rw [Nat.le_div_iff_mul_le hkeeps.moves]
            exact le_trans h.short.le hR
          have hlast : R ≤ j * k + (k - 1) := by
            rw [Nat.succ_mul] at hpast
            omega
          have hgain := mul_le_of_le_div hj (sub_nonneg.mpr hup) (hkeeps.gains hup)
          have hmoves : 1 ≤ k := hkeeps.moves
          have hcast : (R : 𝕜) ≤ j * k + (k - 1) := by
            rw [← Nat.cast_one, ← Nat.cast_sub hmoves]
            exact_mod_cast hlast
          push_cast
          linarith
      · have hn : n ≤ N / k := by
          rw [Nat.le_div_iff_mul_le hkeeps.moves]
          exact hin
        have hgain := mul_le_of_le_div hn (sub_nonneg.mpr hup) (hkeeps.gains hup)
        linarith
  · constructor
    · rcases n with - | j
      · have : (0 : 𝕜) ≤ R := Nat.cast_nonneg R
        push_cast
        linarith
      · obtain ⟨huR, huk⟩ := hdvd hdown
        have hrest : j * k + u ≤ R := add_le_of_dvd (Dvd.dvd.mul_left huk j) huR h.short
        have hj : j ≤ (N - u) / k := by
          rw [Nat.le_div_iff_mul_le hkeeps.moves]
          omega
        have hloss := mul_le_of_le_div hj (sub_nonneg.mpr hdown.le) (hkeeps.loses hdown)
        have hcast : (j : 𝕜) * k + u ≤ R := by exact_mod_cast hrest
        push_cast
        linarith
    · have hsteps : (n : 𝕜) * k ≤ n * y := mul_le_mul_of_nonneg_left hdown.le (Nat.cast_nonneg n)
      linarith

/-- Nor does it matter that the first step takes one more. -/
theorem Fewest.near_succ (h : Fewest (R - 1) k n) (hkeeps : KeepsUp N u k y) (hy : 0 < y)
    (hR : R - 1 ≤ N) (hle : (k : 𝕜) ≤ y) (hdvd : u ∣ R - 1 ∧ u ∣ k) : |(n : 𝕜) - R / y| ≤ 1 := by
  have hkone : (1 : 𝕜) ≤ k := by exact_mod_cast hkeeps.moves
  have hnear := h.near hkeeps hy (by linarith) hR fun _ => hdvd
  rw [abs_sub_div_le_one hy] at hnear ⊢
  have hcovers : (R : 𝕜) ≤ n * k + 1 := by
    have := h.covers
    exact_mod_cast (by omega : R ≤ n * k + 1)
  have hpred : ((R - 1 : ℕ) : 𝕜) ≤ R := Nat.cast_le.mpr (Nat.sub_le R 1)
  have hnk : (n : 𝕜) * k ≤ n * y := mul_le_mul_of_nonneg_left hle (Nat.cast_nonneg n)
  constructor <;> linarith [hnear.1]

/-- Of the counts that are late, the worst is one unit past whole steps. -/
theorem loses_of_near (hk : 0 < k) (hy : 0 < y) (hu : 0 < u) (huN : u ≤ N) (huk : u ∣ k)
    (h : ∀ R n, 0 < R → R ≤ N → u ∣ R → Fewest R k n → |(n : 𝕜) - R / y| ≤ 1) :
    (((N - u) / k : ℕ) : 𝕜) * (y - k) ≤ u := by
  have hle : u ≤ k := Nat.le_of_dvd hk huk
  have hless := Nat.div_mul_le_self (N - u) k
  have hfewest : Fewest ((N - u) / k * k + u) k ((N - u) / k + 1) := by
    refine fewest_succ ?_ (by omega)
    rw [Nat.succ_mul]
    omega
  obtain ⟨hearly, -⟩ := (abs_sub_div_le_one hy).mp
    (h _ _ (by omega) (by omega) (Nat.dvd_add (Dvd.dvd.mul_left huk _) (dvd_refl u)) hfewest)
  push_cast at hearly
  linarith

/-- Where it is always there in time, its steps keep up. -/
theorem KeepsUp.of_near (hk : 0 < k) (hy : 0 < y) (hu : 0 < u) (huN : u ≤ N) (huk : u ∣ k)
    (h : ∀ R n, R ≤ N → u ∣ R → Fewest R k n → |(n : 𝕜) - R / y| ≤ 1) : KeepsUp N u k y := by
  refine ⟨hk, fun _ => ?_, fun _ => loses_of_near hk hy hu huN huk fun R n _ => h R n⟩
  have hfewest : Fewest (N / k * k) k (N / k) :=
    ⟨le_refl (N / k * k), fun m hm => Nat.le_of_mul_le_mul_right hm hk⟩
  obtain ⟨-, hlate⟩ := (abs_sub_div_le_one hy).mp
    (h _ _ (Nat.div_mul_le_self N k) (Dvd.dvd.mul_left huk _) hfewest)
  push_cast at hlate
  linarith

omit [IsStrictOrderedRing 𝕜] in
/-- A counter over below a step is as one over at nothing, where its steps are no more than what
    they stand for. -/
theorem DrainsInStep.keepsUp (h : DrainsInStep N u k y) (hle : (k : 𝕜) ≤ y) (hy : 0 < y) :
    KeepsUp N u k y := by
  refine ⟨h.moves, fun hup => ?_, h.loses⟩
  rw [le_antisymm hle hup, sub_self, mul_zero]
  exact hy.le

/-- A counter over below a step, its steps more than what they stand for, is so within a tick. -/
theorem Fewest.near_drained (h : Fewest (R + u) k n) (hdrains : DrainsInStep N u k y) (hy : 0 < y)
    (hround : (k : 𝕜) - 1 ≤ y) (hup : y < k) (hu : 0 < u) (hR : R ≤ N) (huR : u ∣ R)
    (huk : u ∣ k) : |(n : 𝕜) - R / y| ≤ 1 := by
  rw [abs_sub_div_le_one hy]
  rcases n with - | j
  · have := h.covers
    omega
  have hdvd : ∀ m, u ∣ m * k := fun m => Dvd.dvd.mul_left huk m
  have hshort : j * k ≤ R := by
    by_contra hpast
    have := add_le_of_dvd huR (hdvd j) (not_le.mp hpast)
    have := h.short
    omega
  have hsteps : (j : 𝕜) * y ≤ j * k := mul_le_mul_of_nonneg_left hup.le (Nat.cast_nonneg j)
  have hcast : (j : 𝕜) * k ≤ R := by exact_mod_cast hshort
  constructor
  · push_cast
    linarith
  · rcases Nat.lt_or_ge (N + u) ((j + 1) * k) with hpast | hin
    · have hj : j ≤ (N + u) / k := by
        rw [Nat.le_div_iff_mul_le hdrains.moves]
        omega
      have hgain := mul_le_of_le_div hj (sub_nonneg.mpr hup.le) (hdrains.gains hup)
      -- more than one unit is left over past the last step
      have hrest := add_le_of_dvd (Nat.dvd_add huR (dvd_refl u)) (hdvd (j + 1)) (by omega)
      have hlast : (R : 𝕜) + u + u ≤ (j + 1) * k := by exact_mod_cast hrest
      have hone : (1 : 𝕜) ≤ u := by exact_mod_cast hu
      push_cast
      linarith
    · have hn : j + 1 ≤ (N + u) / k := by
        rw [Nat.le_div_iff_mul_le hdrains.moves]
        exact hin
      have hgain := mul_le_of_le_div hn (sub_nonneg.mpr hup.le) (hdrains.gains hup)
      have hcovers : (R : 𝕜) + u ≤ ((j + 1 : ℕ) : 𝕜) * k := by exact_mod_cast h.covers
      linarith

theorem DrainsInStep.of_near (hk : 0 < k) (hy : 0 < y) (hu : 0 < u) (huN : u ≤ N) (huk : u ∣ k)
    (hslow : k ≤ y → ∀ R n, 0 < R → R ≤ N → u ∣ R → Fewest R k n → |(n : 𝕜) - R / y| ≤ 1)
    (hfast : y < k → ∀ R n, R ≤ N → u ∣ R → Fewest (R + u) k n → |(n : 𝕜) - R / y| ≤ 1) :
    DrainsInStep N u k y := by
  refine ⟨hk, fun hup => ?_, fun hdown => loses_of_near hk hy hu huN huk (hslow hdown.le)⟩
  rcases Nat.eq_zero_or_pos ((N + u) / k) with hnone | hsome
  · rw [hnone, Nat.cast_zero, zero_mul]
    positivity
  · have hle : u ≤ (N + u) / k * k :=
      le_trans (Nat.le_of_dvd hk huk) (Nat.le_mul_of_pos_left k hsome)
    have hwithin := Nat.div_mul_le_self (N + u) k
    have hsplit : (N + u) / k * k - u + u = (N + u) / k * k := Nat.sub_add_cancel hle
    have hfewest : Fewest ((N + u) / k * k - u + u) k ((N + u) / k) := by
      rw [hsplit]
      exact ⟨le_refl ((N + u) / k * k), fun m hm => Nat.le_of_mul_le_mul_right hm hk⟩
    obtain ⟨-, hlate⟩ := (abs_sub_div_le_one hy).mp
      (hfast hup _ _ (by omega) (Nat.dvd_sub (Dvd.dvd.mul_left huk _) (dvd_refl u)) hfewest)
    rw [Nat.cast_sub hle] at hlate
    push_cast at hlate
    linarith

end
end
end Lib
