import Augusta.Lib.Pace
import Mathlib.Data.Nat.Cast.Order.Ring
import Mathlib.Algebra.Order.Ring.Abs
import Mathlib.Tactic.Push

/-! A whole count an amount is added to, or taken off, each tick, rounded to the nearest whole one.

      refilled   s ──▶ min N (s ⊕ y) ──▶ …      full at N
      drained    s ──▶ s ⊖ y ──▶ …              over once what is left is no more than y

    Where `y` is a whole number and a half each result is a tie, and goes to the even count: from
    the first tick on, there are only even ones. -/

namespace Lib

section
variable {𝕜 : Type*} [Field 𝕜] [LinearOrder 𝕜] [FloorRing 𝕜]

attribute [local instance] atLeastTwo_two in
/-- Every how many counts there is one that adding `y` leads to. -/
def grain (y : 𝕜) : ℕ := if y - ⌊y⌋ = 1 / 2 then 2 else 1

def refilled (N : ℕ) (y : 𝕜) (count : ℤ) : ℤ := min N (roundEven ((count : 𝕜) + y))

def drained (y : 𝕜) (count : ℤ) : ℤ := roundEven ((count : 𝕜) - y)

/-- That the `n`-th tick finds no more than `y` left. -/
def emptied (y : 𝕜) (count : ℤ) : ℕ → Prop
  | 0 => False
  | n + 1 => ((drained y)^[n] count : 𝕜) ≤ y

theorem grain_pos (y : 𝕜) : 0 < grain y := by
  rw [grain]
  split_ifs <;> omega

/-- A count that is off the grain is an odd one, and `y` a whole number and a half. -/
theorem not_grain_dvd {y : 𝕜} {s : ℤ} (h : ¬ (grain y : ℤ) ∣ s) :
    grain y = 2 ∧ y = ⌊y⌋ + 1 / 2 ∧ s % 2 = 1 := by
  rw [grain] at h ⊢
  split_ifs at h ⊢ with htie
  · refine ⟨rfl, eq_add_of_sub_eq' htie, ?_⟩
    rw [Nat.cast_ofNat] at h
    omega
  · exact absurd (one_dvd s) (by rwa [Nat.cast_one] at h)

theorem grain_dvd_roundEven (y : 𝕜) : (grain y : ℤ) ∣ roundEven y := by
  rw [grain, roundEven]
  split_ifs with htie hlow hhigh
  · exact absurd htie hlow.ne
  · exact absurd htie hhigh.ne'
  · rw [Nat.cast_ofNat]
    omega
  all_goals exact one_dvd _

variable [IsStrictOrderedRing 𝕜]

/-- On the grain, adding `y` adds what it rounds to. -/
theorem roundEven_add {y : 𝕜} {s : ℤ} (h : (grain y : ℤ) ∣ s) :
    roundEven ((s : 𝕜) + y) = s + roundEven y := by
  have hpart : (s : 𝕜) + y - ((s + ⌊y⌋ : ℤ) : 𝕜) = y - ⌊y⌋ := by
    push_cast
    ring
  rw [roundEven, roundEven, Int.floor_intCast_add, hpart]
  split_ifs with hlow hhigh
  · rfl
  · omega
  · have htie : y - ⌊y⌋ = 1 / 2 := le_antisymm (not_lt.mp hhigh) (not_lt.mp hlow)
    rw [grain, if_pos htie, Nat.cast_ofNat] at h
    omega

/-- Off it, the other neighbour of `y`. -/
theorem roundEven_odd_add {y : 𝕜} {s : ℤ} (htie : y = ⌊y⌋ + 1 / 2) (hodd : s % 2 = 1) :
    roundEven ((s : 𝕜) + y) = s + (2 * ⌊y⌋ + 1 - roundEven y) := by
  have hhalf : y - ⌊y⌋ = 1 / 2 := sub_eq_of_eq_add' htie
  have hpart : (s : 𝕜) + y - ((s + ⌊y⌋ : ℤ) : 𝕜) = 1 / 2 := by
    rw [← hhalf]
    push_cast
    ring
  rw [roundEven, roundEven, Int.floor_intCast_add, hpart, hhalf]
  simp only [lt_irrefl, if_false]
  omega

theorem roundEven_sub {y : 𝕜} {s : ℤ} (h : (grain y : ℤ) ∣ s) :
    roundEven ((s : 𝕜) - y) = s - roundEven y := by
  have hturned : (s : 𝕜) - y = -(((-s : ℤ) : 𝕜) + y) := by
    push_cast
    ring
  rw [hturned, roundEven_neg, roundEven_add ((dvd_neg).mpr h)]
  ring

theorem roundEven_odd_sub {y : 𝕜} {s : ℤ} (htie : y = ⌊y⌋ + 1 / 2) (hodd : s % 2 = 1) :
    roundEven ((s : 𝕜) - y) = s - (2 * ⌊y⌋ + 1 - roundEven y) := by
  have hturned : (s : 𝕜) - y = -(((-s : ℤ) : 𝕜) + y) := by
    push_cast
    ring
  rw [hturned, roundEven_neg, roundEven_odd_add htie (by omega)]
  ring

@[simp] theorem roundEven_natCast (n : ℕ) : roundEven (n : 𝕜) = n := by
  rw [← Int.cast_natCast, roundEven_intCast]

/-- Holding a number to a whole one rounds as holding what it rounds to. -/
theorem roundEven_min (n : ℤ) (x : 𝕜) : roundEven (min (n : 𝕜) x) = min n (roundEven x) := by
  rcases le_total (n : 𝕜) x with hpast | hwithin
  · rw [min_eq_left hpast, roundEven_intCast, min_eq_left (le_roundEven hpast)]
  · have hround : roundEven x ≤ n := roundEven_le (by linarith)
    rw [min_eq_right hwithin, min_eq_right hround]

theorem refilled_mem {N : ℕ} {y : 𝕜} (hy : 0 ≤ y) {count : ℤ} (hcount : 0 ≤ count) :
    0 ≤ refilled N y count ∧ refilled N y count ≤ N := by
  refine ⟨le_min (Int.natCast_nonneg N) (le_roundEven ?_), min_le_left _ _⟩
  have : (0 : 𝕜) ≤ count := Int.cast_nonneg hcount
  rw [Int.cast_zero]
  linarith

theorem refilled_iterate_mem {N : ℕ} {y : 𝕜} (hy : 0 ≤ y) {count : ℤ} (hcount : 0 ≤ count)
    (hN : count ≤ N) (n : ℕ) :
    0 ≤ (refilled N y)^[n] count ∧ (refilled N y)^[n] count ≤ N := by
  induction n with
  | zero => exact ⟨hcount, hN⟩
  | succ n ih =>
    rw [Function.iterate_succ_apply']
    exact refilled_mem hy ih.1

/-- What is more than `y` is left with something, or with nothing, but no less. -/
theorem drained_mem {y : 𝕜} (hy : 0 ≤ y) {count : ℤ} (hmore : y ≤ count) :
    0 ≤ drained y count ∧ drained y count ≤ count := by
  constructor
  · refine le_roundEven ?_
    rw [Int.cast_zero]
    linarith
  · exact roundEven_le (by linarith)

/-! ### Steps -/

section
variable {y : 𝕜} (hy : 0 < y)
include hy

omit [IsStrictOrderedRing 𝕜] in
theorem toNat_roundEven : ((roundEven y).toNat : ℤ) = roundEven y :=
  Int.toNat_of_nonneg (le_roundEven (by rw [Int.cast_zero]; exact hy.le))

omit [IsStrictOrderedRing 𝕜] in
theorem cast_toNat_roundEven : (((roundEven y).toNat : ℕ) : 𝕜) = (roundEven y : 𝕜) := by
  rw [← Int.cast_natCast, toNat_roundEven hy]

omit [IsStrictOrderedRing 𝕜] in
theorem grain_dvd_toNat : grain y ∣ (roundEven y).toNat := by
  have h := grain_dvd_roundEven y
  rw [← toNat_roundEven hy] at h
  exact Int.natCast_dvd_natCast.mp h

/-- A step is within a half of what it stands for. -/
theorem toNat_roundEven_near :
    (((roundEven y).toNat : ℕ) : 𝕜) ≤ y + 1 / 2 ∧ y ≤ ((roundEven y).toNat : ℕ) + 1 / 2 := by
  rw [cast_toNat_roundEven hy]
  have h := abs_le.mp (abs_roundEven_sub_le y)
  constructor <;> linarith [h.1, h.2]

/-- At a tie the step and the other one are half a count off, one below and one above. -/
theorem odd_step (htie : y = ⌊y⌋ + 1 / 2) :
    (2 * ⌊y⌋ + 1 - roundEven y = (roundEven y).toNat + 1 ∧
        y = ((roundEven y).toNat : ℕ) + 1 / 2) ∨
      (2 * ⌊y⌋ + 1 - roundEven y + 1 = (roundEven y).toNat ∧
        y + 1 / 2 = ((roundEven y).toNat : ℕ)) := by
  rw [toNat_roundEven hy, cast_toNat_roundEven hy]
  rcases roundEven_cases y with ⟨hround, -⟩ | ⟨hround, -⟩
  · rw [hround]
    exact .inl ⟨by omega, htie⟩
  · rw [hround]
    refine .inr ⟨by omega, ?_⟩
    push_cast
    linarith

/-! ### Runs -/

/-- A count on the grain goes up by the same step every tick. -/
theorem refilled_iterate {N : ℕ} (hN : grain y ∣ N) {s : ℤ} (hs : s ≤ N)
    (hdvd : (grain y : ℤ) ∣ s) (n : ℕ) :
    (refilled N y)^[n] s = min (N : ℤ) (s + n * (roundEven y).toNat) := by
  induction n with
  | zero =>
    simp only [Function.iterate_zero, id_eq, Nat.cast_zero, zero_mul, add_zero]
    omega
  | succ n ih =>
    have hstep := toNat_roundEven hy
    rw [Function.iterate_succ_apply', ih, refilled]
    generalize (roundEven y).toNat = k at hstep ⊢
    have hsum : (grain y : ℤ) ∣ s + n * k := by
      rw [hstep]
      exact dvd_add hdvd (Dvd.dvd.mul_left (grain_dvd_roundEven y) _)
    have hsucc : s + ((n + 1 : ℕ) : ℤ) * k = s + n * k + k := by
      push_cast
      ring
    rw [hsucc]
    rcases le_total (N : ℤ) (s + n * k) with hfull | hshort
    · rw [min_eq_left hfull, roundEven_add (Int.natCast_dvd_natCast.mpr hN)]
      omega
    · rw [min_eq_right hshort, roundEven_add hsum]
      omega

/-- One off it takes the other step first. -/
theorem refilled_iterate_odd {N : ℕ} (hN : grain y ∣ N) {s : ℤ} (hdvd : ¬ (grain y : ℤ) ∣ s)
    (n : ℕ) : (refilled N y)^[n + 1] s =
      min (N : ℤ) (s + (2 * ⌊y⌋ + 1 - roundEven y) + n * (roundEven y).toNat) := by
  obtain ⟨htwo, htie, hodd⟩ := not_grain_dvd hdvd
  have hparity := grain_dvd_roundEven y
  rw [Function.iterate_succ_apply, refilled, roundEven_odd_add htie hodd]
  have hnext : (grain y : ℤ) ∣ min (N : ℤ) (s + (2 * ⌊y⌋ + 1 - roundEven y)) := by
    rw [htwo, Nat.cast_ofNat] at hparity ⊢
    rw [htwo] at hN
    omega
  rw [refilled_iterate hy hN (min_le_left _ _) hnext]
  have hnonneg : (0 : ℤ) ≤ n * ((roundEven y).toNat : ℤ) := by positivity
  omega

/-- A count on the grain goes down by the same step every tick. -/
theorem drained_iterate {s : ℤ} (hdvd : (grain y : ℤ) ∣ s) (n : ℕ) :
    (drained y)^[n] s = s - n * (roundEven y).toNat := by
  induction n with
  | zero => simp
  | succ n ih =>
    have hstep := toNat_roundEven hy
    rw [Function.iterate_succ_apply', ih, drained]
    generalize (roundEven y).toNat = k at hstep ⊢
    have hrest : (grain y : ℤ) ∣ s - n * k := by
      rw [hstep]
      exact dvd_sub hdvd (Dvd.dvd.mul_left (grain_dvd_roundEven y) _)
    rw [roundEven_sub hrest]
    push_cast
    linarith

theorem drained_iterate_odd {s : ℤ} (hdvd : ¬ (grain y : ℤ) ∣ s) (n : ℕ) :
    (drained y)^[n + 1] s =
      s - (2 * ⌊y⌋ + 1 - roundEven y) - n * (roundEven y).toNat := by
  obtain ⟨htwo, htie, hodd⟩ := not_grain_dvd hdvd
  have hparity := grain_dvd_roundEven y
  rw [Function.iterate_succ_apply, drained, roundEven_odd_sub htie hodd, drained_iterate hy]
  rw [htwo, Nat.cast_ofNat] at hparity ⊢
  omega

/-! ### In time -/

theorem refilled_eq_full {N : ℕ} (hN : grain y ∣ N) {s : ℕ} (hs : s ≤ N)
    (hdvd : (grain y : ℤ) ∣ s) (n : ℕ) :
    (refilled N y)^[n] (s : ℤ) = N ↔ N - s ≤ n * (roundEven y).toNat := by
  rw [refilled_iterate hy hN (by omega) hdvd, ← Nat.cast_mul]
  omega

/-- A count whose steps keep up is full within a tick of the exact time. -/
theorem refill_timely {N : ℕ} (hN : grain y ∣ N)
    (hkeeps : KeepsUp N (grain y) (roundEven y).toNat y) {s : ℕ} (hs : s ≤ N) :
    Timely (fun n => (refilled N y)^[n] (s : ℤ) = N) (((N - s : ℕ) : 𝕜) / y) := by
  have hsteps := grain_dvd_toNat hy
  obtain ⟨hhigh, hlow⟩ := toNat_roundEven_near hy
  have hround : (((roundEven y).toNat : ℕ) : 𝕜) - 1 ≤ y := by linarith
  have hmoves := hkeeps.moves
  by_cases hdvd : (grain y : ℤ) ∣ s
  · obtain ⟨n, hn⟩ := exists_fewest (N - s) hmoves
    refine ⟨n, hn.isLeast (refilled_eq_full hy hN hs hdvd),
      hn.near hkeeps hy hround (Nat.sub_le N s) ?_⟩
    exact fun _ => ⟨Nat.dvd_sub hN (Int.natCast_dvd_natCast.mp hdvd), hsteps⟩
  · obtain ⟨htwo, htie, hodd⟩ := not_grain_dvd hdvd
    have hother := refilled_iterate_odd hy hN hdvd
    have hstep := odd_step hy htie
    rw [htwo] at hN hkeeps hsteps
    generalize hk : (roundEven y).toNat = k at *
    have hleft : N - s ≠ 0 := by omega
    rcases hstep with ⟨hmore, hyk⟩ | ⟨hless, hyk⟩
    · -- the first tick takes one more than the others
      rcases Nat.eq_or_lt_of_le (Nat.one_le_iff_ne_zero.mpr hleft) with hone | hmany
      · refine ⟨1, ⟨?_, fun m hm => ?_⟩, ?_⟩
        · rw [Set.mem_ofPred_eq, hother, hmore]
          omega
        · rcases m with - | m
          · simp only [Set.mem_ofPred_eq, Function.iterate_zero, id_eq] at hm
            omega
          · omega
        · rw [abs_sub_div_le_one hy, ← hone]
          have hkone : (1 : 𝕜) ≤ k := by exact_mod_cast hmoves
          push_cast
          constructor <;> linarith
      · have hfull : ∀ n, (refilled N y)^[n] (s : ℤ) = N ↔ N - s - 1 ≤ n * k := by
          intro n
          rcases n with - | n
          · simp only [Function.iterate_zero, id_eq, zero_mul]
            omega
          · rw [hother, hmore, Nat.succ_mul, ← Nat.cast_mul]
            omega
        obtain ⟨n, hn⟩ := exists_fewest (N - s - 1) hmoves
        exact ⟨n, hn.isLeast hfull,
          hn.near_succ hkeeps hy (by omega) (by linarith) ⟨by omega, hsteps⟩⟩
    · -- the first tick takes one less, which an odd count does not notice
      have hfull : ∀ n, (refilled N y)^[n] (s : ℤ) = N ↔ N - s ≤ n * k := by
        intro n
        rcases n with - | n
        · simp only [Function.iterate_zero, id_eq, zero_mul]
          omega
        · have heven : 2 ∣ n * k := Dvd.dvd.mul_left hsteps n
          rw [hother, Nat.succ_mul, ← Nat.cast_mul]
          omega
      obtain ⟨n, hn⟩ := exists_fewest (N - s) hmoves
      refine ⟨n, hn.isLeast hfull, hn.near hkeeps hy hround (Nat.sub_le N s) ?_⟩
      exact fun hdown => absurd hdown (by linarith)

theorem KeepsUp.of_refill {N : ℕ} (hN : grain y ∣ N) (hpos : 0 < N)
    (h : ∀ s ≤ N, Timely (fun n => (refilled N y)^[n] (s : ℤ) = N) (((N - s : ℕ) : 𝕜) / y)) :
    KeepsUp N (grain y) (roundEven y).toNat y := by
  have hmoves : 0 < (roundEven y).toNat := by
    by_contra hstill
    refine not_timely (fun n => ?_) _ (h 0 (Nat.zero_le N))
    rw [refilled_eq_full hy hN (Nat.zero_le N) (dvd_zero _), Nat.eq_zero_of_not_pos hstill]
    omega
  refine KeepsUp.of_near hmoves hy (grain_pos y) (Nat.le_of_dvd hpos hN) (grain_dvd_toNat hy)
    fun R n hR hdvd hn => ?_
  have hleft : N - (N - R) = R := by omega
  have hstart : (grain y : ℤ) ∣ ((N - R : ℕ) : ℤ) :=
    Int.natCast_dvd_natCast.mpr (Nat.dvd_sub hN hdvd)
  have hfull := refilled_eq_full hy hN (Nat.sub_le N R) hstart
  have htimely := h (N - R) (Nat.sub_le N R)
  rw [hleft] at hfull htimely
  exact (timely_iff (hn.isLeast hfull)).mp htimely

/-- Where rounding alone fills it, it is early. -/
theorem refilled_early {N : ℕ} (hN : grain y ∣ N) {s n : ℕ} (hs : s ≤ N)
    (hfull : (refilled N y)^[n + 1] (s : ℤ) = N)
    (hshort : ((refilled N y)^[n] (s : ℤ) : 𝕜) + y < N) :
    ((n + 1 : ℕ) : 𝕜) * y ≤ (N - s : ℕ) := by
  have hleft : ((N - s : ℕ) : 𝕜) = N - s := Nat.cast_sub hs
  by_cases hdvd : (grain y : ℤ) ∣ s
  · have hbelow : s + n * (roundEven y).toNat < N := by
      by_contra hpast
      have := (refilled_eq_full hy hN hs hdvd n).mpr (by omega)
      rw [this, Int.cast_natCast] at hshort
      linarith
    have hlast := (refilled_eq_full hy hN hs hdvd (n + 1)).mp hfull
    have hvalue : (refilled N y)^[n] (s : ℤ) = ((s + n * (roundEven y).toNat : ℕ) : ℤ) := by
      rw [refilled_iterate hy hN (by omega) hdvd]
      push_cast
      omega
    rw [hvalue, Int.cast_natCast] at hshort
    generalize (roundEven y).toNat = k at *
    have hcast : (N : 𝕜) ≤ s + (n + 1) * k := by
      exact_mod_cast (by omega : N ≤ s + (n + 1) * k)
    push_cast at hshort ⊢
    have hup : (n : 𝕜) * y ≤ n * k :=
      mul_le_mul_of_nonneg_left (by linarith) (Nat.cast_nonneg n)
    linarith
  · rcases n with - | n
    · simp only [Function.iterate_zero, id_eq, Int.cast_natCast] at hshort
      push_cast
      linarith
    · obtain ⟨-, htie, -⟩ := not_grain_dvd hdvd
      rw [refilled_iterate_odd hy hN hdvd] at hfull hshort
      generalize hother : 2 * ⌊y⌋ + 1 - roundEven y = other at *
      have hstep := odd_step hy htie
      rw [hother] at hstep
      generalize (roundEven y).toNat = k at *
      have hsucc : ((n + 1 : ℕ) : ℤ) * k = n * k + k := by
        push_cast
        ring
      rw [hsucc] at hfull
      rcases le_total (N : ℤ) (s + other + n * k) with hpast | hbelow
      · rw [min_eq_left hpast, Int.cast_natCast] at hshort
        linarith
      · rw [min_eq_right hbelow] at hshort
        have hlast : ((N : ℤ) : 𝕜) ≤ ((s + other + n * k + k : ℤ) : 𝕜) :=
          Int.cast_le.mpr (by omega)
        rcases hstep with ⟨-, hyk⟩ | ⟨hless, hyk⟩
        · push_cast at hshort hlast
          linarith
        · -- two ticks at the least have each gained half a count
          have hwhole : ((s + other + n * k + k : ℤ) : 𝕜) < ((N + 1 : ℤ) : 𝕜) := by
            push_cast at hshort ⊢
            linarith
          have hcount := Int.cast_lt.mp hwhole
          have hall : ((s + n * k + 2 * k : ℤ) : 𝕜) ≤ ((N + 1 : ℤ) : 𝕜) :=
            Int.cast_le.mpr (by omega)
          have hn : (0 : 𝕜) ≤ n := Nat.cast_nonneg n
          have hgained : (n : 𝕜) * y = n * k - n * (1 / 2) := by
            rw [← hyk]
            ring
          push_cast at hall ⊢
          linarith

/-! ### Emptied in time -/

theorem emptied_slow {s : ℕ} (hsome : 0 < s) (hdvd : grain y ∣ s)
    (hle : ((roundEven y).toNat : 𝕜) ≤ y) : ∀ n, emptied y s n ↔ s ≤ n * (roundEven y).toNat := by
  rintro (- | n)
  · simp only [emptied, zero_mul, false_iff]
    omega
  have hsteps := grain_dvd_toNat hy
  obtain ⟨-, hlow⟩ := toNat_roundEven_near hy
  have hunit : (1 : 𝕜) ≤ grain y := by exact_mod_cast grain_pos y
  rw [emptied, drained_iterate hy (Int.natCast_dvd_natCast.mpr hdvd)]
  generalize (roundEven y).toNat = k at *
  push_cast
  constructor
  · intro hlast
    by_contra hmore
    have hleft : ((n + 1) * k + grain y : 𝕜) ≤ s := by
      exact_mod_cast add_le_of_dvd (Dvd.dvd.mul_left hsteps (n + 1)) hdvd (not_le.mp hmore)
    linarith
  · intro hcovers
    have hcast : (s : 𝕜) ≤ (n + 1) * k := by exact_mod_cast hcovers
    linarith

theorem emptied_fast {s : ℕ} (hdvd : grain y ∣ s) (hlt : y < (roundEven y).toNat) :
    ∀ n, emptied y s n ↔ s + grain y ≤ n * (roundEven y).toNat := by
  have hsteps := grain_dvd_toNat hy
  have hunit := grain_pos y
  rintro (- | n)
  · simp only [emptied, zero_mul, false_iff]
    omega
  obtain ⟨hhigh, -⟩ := toNat_roundEven_near hy
  have hone : (1 : 𝕜) ≤ grain y := by exact_mod_cast hunit
  rw [emptied, drained_iterate hy (Int.natCast_dvd_natCast.mpr hdvd)]
  generalize (roundEven y).toNat = k at *
  push_cast
  constructor
  · intro hlast
    have hless : (s : 𝕜) < ((n + 1) * k : ℕ) := by
      push_cast
      linarith
    exact add_le_of_dvd hdvd (Dvd.dvd.mul_left hsteps (n + 1)) (Nat.cast_lt.mp hless)
  · intro hcovers
    have hcast : (s : 𝕜) + grain y ≤ (n + 1) * k := by exact_mod_cast hcovers
    linarith

/-- Off the grain, the first tick taking one more than the others. -/
theorem emptied_odd_slow {s k : ℕ} (hdvd : ¬ (grain y : ℤ) ∣ s) (hk : (roundEven y).toNat = k)
    (hmore : 2 * ⌊y⌋ + 1 - roundEven y = k + 1) (hyk : y = k + 1 / 2) (n : ℕ) :
    emptied y s (n + 2) ↔ s - 1 ≤ (n + 2) * k := by
  obtain ⟨-, -, hodd⟩ := not_grain_dvd hdvd
  have hsplit : (n + 2) * k = n * k + 2 * k := by ring
  rw [emptied, drained_iterate_odd hy hdvd, hmore, hk, hsplit]
  constructor
  · intro hin
    have hcast : ((s - (k + 1) - n * k : ℤ) : 𝕜) < ((k + 1 : ℤ) : 𝕜) := by
      refine lt_of_le_of_lt hin ?_
      rw [hyk]
      push_cast
      linarith
    have hint := Int.cast_lt.mp hcast
    rw [← Nat.cast_mul] at hint
    omega
  · intro hin
    have hcast : ((s - (k + 1) - n * k : ℤ) : 𝕜) ≤ ((k : ℤ) : 𝕜) := by
      refine Int.cast_le.mpr ?_
      rw [← Nat.cast_mul]
      omega
    rw [Int.cast_natCast] at hcast
    linarith

/-- Off the grain, the first tick taking one less. -/
theorem emptied_odd_fast {s k : ℕ} (hdvd : ¬ (grain y : ℤ) ∣ s) (hk : (roundEven y).toNat = k)
    (hless : 2 * ⌊y⌋ + 1 - roundEven y + 1 = k) (hyk : y + 1 / 2 = k) (n : ℕ) :
    emptied y s (n + 2) ↔ s + 1 + 2 ≤ (n + 2) * k := by
  obtain ⟨htwo, -, hodd⟩ := not_grain_dvd hdvd
  have hsteps := grain_dvd_toNat hy
  rw [hk, htwo] at hsteps
  have heven : 2 ∣ n * k := Dvd.dvd.mul_left hsteps n
  have hsplit : (n + 2) * k = n * k + 2 * k := by ring
  rw [emptied, drained_iterate_odd hy hdvd, eq_sub_of_add_eq hless, hk, hsplit]
  constructor
  · intro hin
    have hcast : ((s - (k - 1) - n * k : ℤ) : 𝕜) < ((k : ℤ) : 𝕜) := by
      refine lt_of_le_of_lt hin ?_
      rw [Int.cast_natCast]
      linarith
    have hint := Int.cast_lt.mp hcast
    rw [← Nat.cast_mul] at hint
    omega
  · intro hin
    have hcast : ((s - (k - 1) - n * k : ℤ) : 𝕜) ≤ ((k - 1 : ℤ) : 𝕜) := by
      refine Int.cast_le.mpr ?_
      rw [← Nat.cast_mul]
      omega
    push_cast at hcast ⊢
    linarith

theorem emptied_at_once {s : ℕ} (hlast : (s : 𝕜) ≤ y) : Timely (emptied y s) ((s : 𝕜) / y) := by
  refine ⟨1, ⟨?_, fun m hm => ?_⟩, ?_⟩
  · rw [Set.mem_ofPred_eq, emptied, Function.iterate_zero, id_eq, Int.cast_natCast]
    exact hlast
  · rcases m with - | m
    · exact hm.elim
    · omega
  · rw [abs_sub_div_le_one hy, Nat.cast_one]
    have : (0 : 𝕜) ≤ s := Nat.cast_nonneg s
    constructor <;> linarith

theorem drain_timely_odd {N : ℕ} (hN : grain y ∣ N)
    (hdrains : DrainsInStep N (grain y) (roundEven y).toNat y) {s : ℕ} (hs : s ≤ N)
    (hlast : ¬ (s : 𝕜) ≤ y) (hdvd : ¬ (grain y : ℤ) ∣ s) : Timely (emptied y s) ((s : 𝕜) / y) := by
  obtain ⟨htwo, htie, hodd⟩ := not_grain_dvd hdvd
  have hfirst : ¬ emptied y s 1 := by
    rw [emptied, Function.iterate_zero, id_eq, Int.cast_natCast]
    exact hlast
  have hsteps := grain_dvd_toNat hy
  have hstep := odd_step hy htie
  obtain ⟨hhigh, hlow⟩ := toNat_roundEven_near hy
  generalize hk : (roundEven y).toNat = k at hstep hdrains hsteps hhigh hlow
  rw [htwo] at hN hdrains hsteps
  rcases hstep with ⟨hmore, hyk⟩ | ⟨hless, hyk⟩
  · have hover := emptied_odd_slow hy hdvd hk hmore hyk
    have hbelow : k < s := by
      have : (k : 𝕜) < s := by linarith [not_le.mp hlast]
      exact_mod_cast this
    rcases Nat.eq_or_lt_of_le hbelow with hnext | hmany
    · refine ⟨2, ⟨(hover 0).mpr (by omega), fun m hm => ?_⟩, ?_⟩
      · rcases m with - | - | m
        · exact hm.elim
        · exact absurd hm hfirst
        · omega
      · rw [abs_sub_div_le_one hy, ← hnext]
        have hkone : (1 : 𝕜) ≤ k := by exact_mod_cast hdrains.moves
        push_cast
        constructor <;> linarith
    · have hall : ∀ n, emptied y s n ↔ s - 1 ≤ n * k := by
        rintro (- | - | n)
        · simp only [emptied, zero_mul, false_iff]
          omega
        · simp only [hfirst, false_iff]
          omega
        · exact hover n
      obtain ⟨n, hn⟩ := exists_fewest (s - 1) hdrains.moves
      exact ⟨n, hn.isLeast hall, hn.near_succ (hdrains.keepsUp (by linarith) hy) hy (by omega)
        (by linarith) ⟨by omega, hsteps⟩⟩
  · have hbelow : k < s := by
      have hreal : (k : 𝕜) < ((s + 1 : ℕ) : 𝕜) := by
        push_cast
        linarith [not_le.mp hlast]
      have := Nat.cast_lt.mp hreal
      omega
    have hall : ∀ n, emptied y s n ↔ s + 1 + 2 ≤ n * k := by
      rintro (- | - | n)
      · simp only [emptied, zero_mul, false_iff]
        omega
      · simp only [hfirst, false_iff]
        omega
      · exact emptied_odd_fast hy hdvd hk hless hyk n
    obtain ⟨n, hn⟩ := exists_fewest (s + 1 + 2) hdrains.moves
    refine ⟨n, hn.isLeast hall, ?_⟩
    have hnear := hn.near_drained hdrains hy (by linarith) (by linarith) two_pos (by omega)
      (by omega) hsteps
    rw [abs_sub_div_le_one hy] at hnear ⊢
    push_cast at hnear
    refine ⟨?_, by linarith [hnear.2]⟩
    have hleft : (0 : 𝕜) ≤ s := Nat.cast_nonneg s
    rcases n with - | - | j
    · push_cast
      linarith
    · push_cast
      linarith
    · -- after the first two ticks half a count is gained each time
      have heven : 2 ∣ (j + 1) * k := Dvd.dvd.mul_left hsteps (j + 1)
      have hshort := hn.short
      have hwhole : ((j + 1 : ℕ) : 𝕜) * k ≤ s + 1 := by
        exact_mod_cast (by omega : (j + 1) * k ≤ s + 1)
      have hgained : ((j + 1 : ℕ) : 𝕜) * y =
          ((j + 1 : ℕ) : 𝕜) * k - ((j + 1 : ℕ) : 𝕜) * (1 / 2) := by
        rw [← hyk]
        ring
      rcases Nat.eq_zero_or_pos j with rfl | hpos
      · push_cast
        linarith [not_le.mp hlast]
      · have hone : (1 : 𝕜) ≤ j := by exact_mod_cast hpos
        push_cast at hwhole hgained ⊢
        linarith

/-- A count whose steps drain in step is emptied within a tick of the exact time. -/
theorem drain_timely {N : ℕ} (hN : grain y ∣ N)
    (hdrains : DrainsInStep N (grain y) (roundEven y).toNat y) {s : ℕ} (hs : s ≤ N) :
    Timely (emptied y s) ((s : 𝕜) / y) := by
  by_cases hlast : (s : 𝕜) ≤ y
  · exact emptied_at_once hy hlast
  by_cases hdvd : grain y ∣ s
  · have hsteps := grain_dvd_toNat hy
    obtain ⟨hhigh, -⟩ := toNat_roundEven_near hy
    have hround : (((roundEven y).toNat : ℕ) : 𝕜) - 1 ≤ y := by linarith
    rcases le_or_gt (((roundEven y).toNat : ℕ) : 𝕜) y with hslow | hfast
    · have hsome : 0 < s := by
        rcases Nat.eq_zero_or_pos s with rfl | hpos
        · rw [Nat.cast_zero] at hlast
          exact absurd hy.le hlast
        · exact hpos
      obtain ⟨n, hn⟩ := exists_fewest s hdrains.moves
      exact ⟨n, hn.isLeast (emptied_slow hy hsome hdvd hslow),
        hn.near (hdrains.keepsUp hslow hy) hy hround hs fun _ => ⟨hdvd, hsteps⟩⟩
    · obtain ⟨n, hn⟩ := exists_fewest (s + grain y) hdrains.moves
      exact ⟨n, hn.isLeast (emptied_fast hy hdvd hfast),
        hn.near_drained hdrains hy hround hfast (grain_pos y) hs hdvd hsteps⟩
  · exact drain_timely_odd hy hN hdrains hs hlast fun h => hdvd (Int.natCast_dvd_natCast.mp h)

theorem DrainsInStep.of_drain {N : ℕ} (hN : grain y ∣ N) (hpos : 0 < N)
    (h : ∀ s ≤ N, Timely (emptied y s) ((s : 𝕜) / y)) :
    DrainsInStep N (grain y) (roundEven y).toNat y := by
  obtain ⟨-, hlow⟩ := toNat_roundEven_near hy
  have hmoves : 0 < (roundEven y).toNat := by
    by_contra hstill
    have hzero := Nat.eq_zero_of_not_pos hstill
    refine not_timely (fun n => ?_) _ (h N (le_refl N))
    rcases n with - | n
    · exact id
    · rw [hzero, Nat.cast_zero, zero_add] at hlow
      have hone : (1 : 𝕜) ≤ N := by exact_mod_cast hpos
      rw [emptied, drained_iterate hy (Int.natCast_dvd_natCast.mpr hN), hzero]
      push_cast
      linarith
  refine DrainsInStep.of_near hmoves hy (grain_pos y) (Nat.le_of_dvd hpos hN) (grain_dvd_toNat hy)
    (fun hslow R n hsome hR hdvd hn => ?_) (fun hfast R n hR hdvd hn => ?_)
  · exact (timely_iff (hn.isLeast (emptied_slow hy hsome hdvd hslow))).mp (h R hR)
  · exact (timely_iff (hn.isLeast (emptied_fast hy hdvd hfast))).mp (h R hR)

end
end
end Lib
