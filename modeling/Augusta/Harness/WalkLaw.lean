import Augusta.Harness.Intent
import Augusta.Physics.Counters
import Mathlib.Algebra.BigOperators.Intervals
import Mathlib.Algebra.Order.BigOperators.Group.Finset
import Mathlib.Analysis.SpecialFunctions.Pow.Real

/-! A MoveTo with nothing in its way, over exact arithmetic: each tick heads for the point, and the
    body moves by what its speed covers in the tick.

      ●───s₀───▶●───s₁───▶●───s₂───▶●        (  ·  )   within half a metre: arrived
                                             (  ·  )●  a step over it: back again, and blocked  -/

namespace Augusta.Harness
open Lib (Binary32)
open Physics

attribute [local instance] Lib.neZero_three in
noncomputable instance : Floor (Math.Point ℝ) ℝ where
  alongTheFloor source target := ![target 0 - source 0, 0, target 2 - source 2]
  length v := √(v 0 ^ 2 + v 1 ^ 2 + v 2 ^ 2)
  div v d := d⁻¹ • v
  sub x y := x - y
  le x y := x ≤ y
  lt x y := x < y
  ofFloat x := (x.toRat : ℝ)

/-- `ResolveSpeed`, exactly. -/
def exactSpeed (stance : Stance) (sprinting : Bool) : ℚ :=
  let speed := kWalkSpeed.toRat * (speedMultiplierForStance stance).toRat
  if sprinting && stance = .standing then speed * kSprintMultiplier.toRat else speed

/-- A body on its way to a point, and what the MoveTo has counted. -/
structure Walker where
  position : Math.Point ℝ
  counters : Counters ℚ
  progress : Progress ℝ := .start (Math.Point ℝ)

/-- What every body is asked on its way, on a floor with room for every stance. -/
def onTheWay (moveTo : MoveTo (Math.Point ℝ)) (moving : Bool) : Asked where
  desiredStance := moveTo.stance
  fits := true
  sprint := moveTo.sprint
  moving

section
variable (rules : StaminaRules ℚ) (transitions : Transitions ℚ) (tickRateHz : UInt8)
  (moveTo : MoveTo (Math.Point ℝ))

/-- A tick's length in seconds. -/
def tickSeconds : ℚ := 1 / tickRateHz.toNat

/-- How far a tick takes a body, its stance changed and its stamina spent first. -/
def stepLength (counters : Counters ℚ) (asked : Asked) : ℚ :=
  exactSpeed (counters.changeStance asked).stance
    (counters.spent rules (tickSeconds tickRateHz) asked).sprinting * tickSeconds tickRateHz

/-- One tick: what the MoveTo asks, and the body's step. -/
noncomputable def Walker.tick (walker : Walker) : Option IntentEnding × Walker :=
  let carried := walker.progress.carry (Math.Point ℝ) tickRateHz.toNat
    (moveTo.distance walker.position)
  match carried.1 with
  | some ending => (some ending, { walker with progress := carried.2 })
  | none =>
      let direction := moveTo.direction walker.position
      let asked := onTheWay moveTo (decide (0 < Floor.length direction))
      let moved := stepLength rules tickRateHz walker.counters asked
      (none,
        { position := walker.position + (moved : ℝ) • direction
          counters := walker.counters.step rules transitions (tickSeconds tickRateHz) asked
          progress := carried.2 })

/-- The walker as each tick finds it, until the MoveTo has ended. -/
noncomputable def Walker.before (walker : Walker) : ℕ → Option Walker
  | 0 => some walker
  | n + 1 => (walker.before n).bind fun found =>
      match found.tick rules transitions tickRateHz moveTo with
      | (none, left) => some left
      | (some _, _) => none

/-- The MoveTo ends on tick `n`. -/
def Walker.EndsAt (walker : Walker) (n : ℕ) (ending : IntentEnding) : Prop :=
  ∃ found, walker.before rules transitions tickRateHz moveTo n = some found ∧
    (found.tick rules transitions tickRateHz moveTo).1 = some ending

/-- The MoveTo ends arrived, every tick having headed the way the first did: it has not stepped over
    its point and back. -/
def Walker.Arrives (walker : Walker) : Prop :=
  ∃ n, walker.EndsAt rules transitions tickRateHz moveTo n .arrived ∧
    ∀ i < n, ∀ found, walker.before rules transitions tickRateHz moveTo i = some found →
      moveTo.direction found.position = moveTo.direction walker.position

/-- How far the first `n` ticks take a body that has not arrived. -/
def travelled (counters : Counters ℚ) (n : ℕ) : ℚ :=
  ∑ i ∈ Finset.range n, stepLength rules tickRateHz
    (counters.after rules transitions (tickSeconds tickRateHz) (fun _ => onTheWay moveTo true) i)
    (onTheWay moveTo true)

end

/-! ### The numbers -/

theorem toRat_kArrivedM : kArrivedM.toRat = 1 / 2 := by decide +kernel

/-- A second of ticks at the slowest there is gains more than it takes to be nearer. -/
theorem kProgressM_lt : kProgressM.toRat < 9 / 10 := by decide +kernel

theorem exactSpeed_bounds (stance : Stance) (sprinting : Bool) :
    9 / 10 ≤ exactSpeed stance sprinting ∧ exactSpeed stance sprinting ≤ 5 := by
  cases stance <;> cases sprinting <;> decide +kernel

/-- How near a body that has not come near yet is to be, to have come nearer. -/
def kFirstNear : ℚ := kFarthest.toRat - kProgressM.toRat

theorem one_lt_kFirstNear : 1 < kFirstNear := by decide +kernel

theorem carry_exact (progress : Progress ℝ) (tickRateHz : ℕ) (distance : ℝ) :
    progress.carry (Math.Point ℝ) tickRateHz distance =
      if distance ≤ 1 / 2 then (some .arrived, progress)
      else if distance < progress.nearest - kProgressM.toRat then (none, ⟨distance, 0⟩)
      else
        (if tickRateHz ≤ progress.ticksWithoutProgress + 1 then some .blocked else none,
          { progress with ticksWithoutProgress := progress.ticksWithoutProgress + 1 }) := by
  have harrived : (kArrivedM.toRat : ℝ) = 1 / 2 := by rw [toRat_kArrivedM]; norm_num
  simp only [Progress.carry, Floor.le, Floor.lt, Floor.sub, Floor.ofFloat, harrived,
    decide_eq_true_eq]

/-! ### Along the floor -/

theorem length_smul (c : ℝ) (v : Math.Point ℝ) :
    Floor.length (c • v) = |c| * Floor.length v := by
  show √((c * v 0) ^ 2 + (c * v 1) ^ 2 + (c * v 2) ^ 2) = _
  rw [show (c * v 0) ^ 2 + (c * v 1) ^ 2 + (c * v 2) ^ 2 =
    c ^ 2 * (v 0 ^ 2 + v 1 ^ 2 + v 2 ^ 2) by ring, Real.sqrt_mul (sq_nonneg c), Real.sqrt_sq_eq_abs]
  rfl

theorem length_nonneg (v : Math.Point ℝ) : 0 ≤ Floor.length v := Real.sqrt_nonneg _

/-- What is left to go after some of the way. -/
theorem alongTheFloor_add {source target direction : Math.Point ℝ} (hfloor : direction 1 = 0)
    (moved : ℝ) :
    Floor.alongTheFloor (source + moved • direction) target =
      Floor.alongTheFloor source target - moved • direction := by
  show ![_, _, _] = (![_, _, _] : Math.Point ℝ) - _
  ext i
  fin_cases i
  · simp only [Math.Point, Fin.zero_eta, Matrix.cons_val_zero, Pi.add_apply, Pi.sub_apply,
      Pi.smul_apply, smul_eq_mul]
    ring
  · simp [hfloor]
  · simp [sub_sub]

/-! ### How far the steps go -/

section
variable {rules : StaminaRules ℚ} {transitions : Transitions ℚ} {tickRateHz : UInt8}
  {moveTo : MoveTo (Math.Point ℝ)} {counters : Counters ℚ}

theorem tickSeconds_pos (hrate : Parameters.isValidTickRate tickRateHz = true) :
    0 < tickSeconds tickRateHz := by
  have hpos : 0 < tickRateHz.toNat := by
    simpa [Parameters.isValidTickRate, UInt8.lt_iff_toNat_lt] using hrate
  rw [tickSeconds]
  positivity

theorem stepLength_bounds (hrate : Parameters.isValidTickRate tickRateHz = true)
    (counters : Counters ℚ) (asked : Asked) :
    9 / 10 * tickSeconds tickRateHz ≤ stepLength rules tickRateHz counters asked ∧
      stepLength rules tickRateHz counters asked ≤ 5 * tickSeconds tickRateHz := by
  have hpos := tickSeconds_pos hrate
  have hspeed := exactSpeed_bounds (counters.changeStance asked).stance
    (counters.spent rules (tickSeconds tickRateHz) asked).sprinting
  rw [stepLength]
  constructor
  · exact mul_le_mul_of_nonneg_right hspeed.1 hpos.le
  · exact mul_le_mul_of_nonneg_right hspeed.2 hpos.le

theorem travelled_succ (n : ℕ) :
    travelled rules transitions tickRateHz moveTo counters (n + 1) =
      travelled rules transitions tickRateHz moveTo counters n + stepLength rules tickRateHz
        (counters.after rules transitions (tickSeconds tickRateHz)
          (fun _ => onTheWay moveTo true) n)
        (onTheWay moveTo true) :=
  Finset.sum_range_succ _ n

/-- Some ticks on, a body is as much further as the slowest covers in them, or more. -/
theorem travelled_add (hrate : Parameters.isValidTickRate tickRateHz = true) (j n : ℕ) :
    travelled rules transitions tickRateHz moveTo counters j +
        n * (9 / 10 * tickSeconds tickRateHz) ≤
      travelled rules transitions tickRateHz moveTo counters (j + n) := by
  induction n with
  | zero => simp
  | succ n ih =>
      have hstep := (@stepLength_bounds rules _ hrate
        (counters.after rules transitions (tickSeconds tickRateHz)
          (fun _ => onTheWay moveTo true) (j + n)) (onTheWay moveTo true)).1
      rw [← Nat.add_assoc, travelled_succ]
      push_cast
      linarith

theorem travelled_mono (hrate : Parameters.isValidTickRate tickRateHz = true) {j n : ℕ}
    (h : j ≤ n) :
    travelled rules transitions tickRateHz moveTo counters j ≤
      travelled rules transitions tickRateHz moveTo counters n := by
  obtain ⟨n, rfl⟩ := Nat.exists_eq_add_of_le h
  have hadd := @travelled_add rules transitions _ moveTo counters hrate j n
  have hpos := tickSeconds_pos hrate
  have : 0 ≤ (n : ℚ) * (9 / 10 * tickSeconds tickRateHz) := by positivity
  linarith

/-- A second of ticks comes nearer. -/
theorem travelled_second (hrate : Parameters.isValidTickRate tickRateHz = true) {j k : ℕ}
    (h : j + tickRateHz.toNat ≤ k) :
    travelled rules transitions tickRateHz moveTo counters j + kProgressM.toRat <
      travelled rules transitions tickRateHz moveTo counters k := by
  have hadd := @travelled_add rules transitions _ moveTo counters hrate j tickRateHz.toNat
  have hmono := @travelled_mono rules transitions _ moveTo counters hrate _ _ h
  have hpos : (0 : ℚ) < tickRateHz.toNat := by
    have := tickSeconds_pos hrate
    rw [tickSeconds] at this
    exact one_div_pos.mp this
  have hsecond : (tickRateHz.toNat : ℚ) * (9 / 10 * tickSeconds tickRateHz) = 9 / 10 := by
    rw [tickSeconds]
    field_simp
  have := kProgressM_lt
  linarith

/-- Wherever the point is, the steps get there. -/
theorem exists_travelled (hrate : Parameters.isValidTickRate tickRateHz = true) (d : ℝ) :
    ∃ n, d ≤ travelled rules transitions tickRateHz moveTo counters n := by
  have hpos := tickSeconds_pos hrate
  have hstep : (0 : ℝ) < ((9 / 10 * tickSeconds tickRateHz : ℚ) : ℝ) := by
    exact_mod_cast (by positivity : (0 : ℚ) < 9 / 10 * tickSeconds tickRateHz)
  obtain ⟨n, hn⟩ := exists_nat_ge (d / ((9 / 10 * tickSeconds tickRateHz : ℚ) : ℝ))
  refine ⟨n, ?_⟩
  rw [div_le_iff₀ hstep] at hn
  have hadd := @travelled_add rules transitions _ moveTo counters hrate 0 n
  rw [Nat.zero_add, show travelled rules transitions tickRateHz moveTo counters 0 = 0 from rfl,
    zero_add] at hadd
  exact hn.trans (by exact_mod_cast hadd)

/-! ### The way there -/

variable {position : Math.Point ℝ}

/-- What the MoveTo has counted when tick `k` comes: not come near yet, or nearest where it was on
    some tick. -/
def Counted (rules : StaminaRules ℚ) (transitions : Transitions ℚ) (tickRateHz : UInt8)
    (moveTo : MoveTo (Math.Point ℝ)) (position : Math.Point ℝ) (counters : Counters ℚ) (k : ℕ)
    (progress : Progress ℝ) : Prop :=
  progress = ⟨kFarthest.toRat, k⟩ ∨
    ∃ j ticks, j + ticks + 1 = k ∧
      (moveTo.distance position - travelled rules transitions tickRateHz moveTo counters j : ℝ) <
        kFirstNear ∧
      progress =
        ⟨moveTo.distance position - travelled rules transitions tickRateHz moveTo counters j, ticks⟩

/-- The walker as tick `k` finds it, its point not reached nor stepped over before. -/
structure Underway (rules : StaminaRules ℚ) (transitions : Transitions ℚ) (tickRateHz : UInt8)
    (moveTo : MoveTo (Math.Point ℝ)) (position : Math.Point ℝ) (counters : Counters ℚ) (k : ℕ)
    (found : Walker) : Prop where
  here : Walker.before rules transitions tickRateHz moveTo { position, counters } k = some found
  left : Floor.alongTheFloor found.position moveTo.point =
    (moveTo.distance position - travelled rules transitions tickRateHz moveTo counters k) •
      moveTo.direction position
  spent : found.counters = counters.after rules transitions (tickSeconds tickRateHz)
    (fun _ => onTheWay moveTo true) k
  progress : Counted rules transitions tickRateHz moveTo position counters k found.progress

variable {k : ℕ} {found : Walker}

theorem direction_floor (position : Math.Point ℝ) : moveTo.direction position 1 = 0 := by
  show (moveTo.distance position)⁻¹ * 0 = (0 : ℝ)
  rw [mul_zero]

theorem length_direction (h : 0 < moveTo.distance position) :
    Floor.length (moveTo.direction position) = 1 := by
  show Floor.length ((moveTo.distance position)⁻¹ • Floor.alongTheFloor position moveTo.point) = 1
  rw [length_smul, abs_of_pos (inv_pos.mpr h)]
  exact inv_mul_cancel₀ h.ne'

/-- The way to the point is its distance, that way. -/
theorem alongTheFloor_eq (h : 0 < moveTo.distance position) :
    Floor.alongTheFloor position moveTo.point =
      moveTo.distance position • moveTo.direction position := by
  show _ = moveTo.distance position •
    ((moveTo.distance position)⁻¹ • Floor.alongTheFloor position moveTo.point)
  rw [smul_inv_smul₀ h.ne']

theorem underway_start (h : 0 < moveTo.distance position) :
    Underway rules transitions tickRateHz moveTo position counters 0 { position, counters } where
  here := rfl
  left := by
    rw [alongTheFloor_eq h, show travelled rules transitions tickRateHz moveTo counters 0 = 0 from
      rfl, Rat.cast_zero, sub_zero]
  spent := rfl
  progress := .inl rfl

namespace Underway
variable (h : Underway rules transitions tickRateHz moveTo position counters k found)
include h

theorem distance_eq (hstart : 0 < moveTo.distance position) :
    moveTo.distance found.position =
      |moveTo.distance position - travelled rules transitions tickRateHz moveTo counters k| := by
  rw [MoveTo.distance, h.left, length_smul, length_direction hstart, mul_one]

/-- Short of its point, a body heads on as it did. -/
theorem direction_eq (hstart : 0 < moveTo.distance position)
    (hshort : 0 < moveTo.distance position -
      travelled rules transitions tickRateHz moveTo counters k) :
    moveTo.direction found.position = moveTo.direction position := by
  show (moveTo.distance found.position)⁻¹ • Floor.alongTheFloor found.position moveTo.point = _
  rw [h.distance_eq hstart, abs_of_pos hshort, h.left, inv_smul_smul₀ hshort.ne']

/-- Past its point, it heads back. -/
theorem direction_past (hstart : 0 < moveTo.distance position)
    (hpast : moveTo.distance position -
      travelled rules transitions tickRateHz moveTo counters k < 0) :
    moveTo.direction found.position ≠ moveTo.direction position := by
  intro hsame
  have hback : moveTo.direction found.position = -moveTo.direction position := by
    show (moveTo.distance found.position)⁻¹ • Floor.alongTheFloor found.position moveTo.point = _
    rw [h.distance_eq hstart, abs_of_neg hpast, h.left, inv_neg, neg_smul,
      inv_smul_smul₀ hpast.ne]
  have hzero : moveTo.direction position = (0 : ℝ) • moveTo.direction position := by
    rw [zero_smul, ← self_eq_neg, ← hback, hsame]
  have hlength := length_direction hstart
  rw [hzero, length_smul, abs_zero, zero_mul] at hlength
  exact zero_ne_one hlength

/-- What the MoveTo makes of a tick short of its point: it ends only without having come near in a
    second. -/
theorem carry_eq (hrate : Parameters.isValidTickRate tickRateHz = true)
    (hstart : 0 < moveTo.distance position)
    (hshort : 1 / 2 < moveTo.distance position -
      travelled rules transitions tickRateHz moveTo counters k) :
    let d := moveTo.distance position - travelled rules transitions tickRateHz moveTo counters k
    let carried := found.progress.carry (Math.Point ℝ) tickRateHz.toNat
      (moveTo.distance found.position)
    (d < kFirstNear ∨ k + 1 < tickRateHz.toNat → carried.1 = none ∧
      Counted rules transitions tickRateHz moveTo position counters (k + 1) carried.2) ∧
    (¬ (d < kFirstNear ∨ k + 1 < tickRateHz.toNat) → carried.1 = some .blocked) := by
  intro d carried
  have hfirst : (kFarthest.toRat : ℝ) - kProgressM.toRat = kFirstNear := by
    rw [kFirstNear, Rat.cast_sub]
  have hcarried : carried =
      if d < found.progress.nearest - kProgressM.toRat then (none, ⟨d, 0⟩)
      else
        (if tickRateHz.toNat ≤ found.progress.ticksWithoutProgress + 1 then some .blocked else none,
          { found.progress with
            ticksWithoutProgress := found.progress.ticksWithoutProgress + 1 }) := by
    have hdistance : moveTo.distance found.position = d := by
      rw [h.distance_eq hstart, abs_of_pos (by linarith)]
    rw [show carried = found.progress.carry (Math.Point ℝ) tickRateHz.toNat
      (moveTo.distance found.position) from rfl, hdistance, carry_exact,
      if_neg (not_le.mpr hshort)]
  rw [hcarried]
  rcases h.progress with hnone | ⟨j, ticks, hj, hnear, hsome⟩
  · -- not come near yet
    rw [hnone, hfirst]
    by_cases hnear : d < kFirstNear
    · rw [if_pos hnear]
      refine ⟨fun _ => ⟨rfl, .inr ⟨k, 0, rfl, hnear, rfl⟩⟩, fun hfar => absurd (.inl hnear) hfar⟩
    · rw [if_neg hnear]
      constructor
      · rintro (hnear' | hearly)
        · exact absurd hnear' hnear
        · exact ⟨if_neg (by dsimp only; omega), .inl rfl⟩
      · intro hlate
        exact if_pos (by dsimp only; omega)
  · -- nearest on tick `j`
    have hmono : (travelled rules transitions tickRateHz moveTo counters j : ℝ) ≤
        travelled rules transitions tickRateHz moveTo counters k := by
      exact_mod_cast travelled_mono hrate (by omega)
    have hnear' : d < kFirstNear := by
      have : d = moveTo.distance position -
        travelled rules transitions tickRateHz moveTo counters k := rfl
      linarith
    refine ⟨fun _ => ?_, fun hfar => absurd (.inl hnear') hfar⟩
    rw [hsome]
    split_ifs with hgain hblocked
    · exact ⟨rfl, .inr ⟨k, 0, rfl, hnear', rfl⟩⟩
    · -- a second of ticks would have come nearer
      refine absurd ?_ hgain
      have hsecond : (travelled rules transitions tickRateHz moveTo counters j : ℝ) +
          kProgressM.toRat < travelled rules transitions tickRateHz moveTo counters k := by
        exact_mod_cast travelled_second hrate (by dsimp only at hblocked; omega)
      have : d = moveTo.distance position -
        travelled rules transitions tickRateHz moveTo counters k := rfl
      linarith
    · exact ⟨rfl, .inr ⟨j, ticks + 1, by omega, hnear, rfl⟩⟩

end Underway

theorem Walker.tick_fst (walker : Walker) :
    (walker.tick rules transitions tickRateHz moveTo).1 =
      (walker.progress.carry (Math.Point ℝ) tickRateHz.toNat (moveTo.distance walker.position)).1 := by
  rw [Walker.tick]
  split <;> simp_all

/-- A tick that does not end the MoveTo takes the body a step on. -/
theorem Walker.tick_of_none {walker : Walker}
    (h : (walker.progress.carry (Math.Point ℝ) tickRateHz.toNat
      (moveTo.distance walker.position)).1 = none)
    (hmoving : 0 < Floor.length (moveTo.direction walker.position)) :
    walker.tick rules transitions tickRateHz moveTo = (none,
      { position := walker.position + (stepLength rules tickRateHz walker.counters
          (onTheWay moveTo true) : ℝ) • moveTo.direction walker.position
        counters := walker.counters.step rules transitions (tickSeconds tickRateHz)
          (onTheWay moveTo true)
        progress := (walker.progress.carry (Math.Point ℝ) tickRateHz.toNat
          (moveTo.distance walker.position)).2 }) := by
  simp only [Walker.tick, h, hmoving, decide_true]

/-- The body is a step further after a tick short of its point. -/
theorem Underway.tick (h : Underway rules transitions tickRateHz moveTo position counters k found)
    (hrate : Parameters.isValidTickRate tickRateHz = true)
    (hshort : 1 / 2 < moveTo.distance position -
      travelled rules transitions tickRateHz moveTo counters k)
    (hnear : moveTo.distance position - travelled rules transitions tickRateHz moveTo counters k <
      kFirstNear ∨ k + 1 < tickRateHz.toNat) :
    (found.tick rules transitions tickRateHz moveTo).1 = none ∧
      ∃ left, Underway rules transitions tickRateHz moveTo position counters (k + 1) left := by
  have hstart : 0 < moveTo.distance position := by
    have : (0 : ℝ) ≤ travelled rules transitions tickRateHz moveTo counters k := by
      exact_mod_cast travelled_mono hrate (Nat.zero_le k)
    linarith
  obtain ⟨hnone, hcounted⟩ := (h.carry_eq hrate hstart hshort).1 hnear
  have hdirection := h.direction_eq hstart (by linarith)
  have htick := @Walker.tick_of_none rules transitions tickRateHz moveTo found hnone
    (by rw [hdirection, length_direction hstart]; exact one_pos)
  refine ⟨by rw [htick], (found.tick rules transitions tickRateHz moveTo).2, ?_⟩
  rw [htick]
  refine ⟨?_, ?_, ?_, hcounted⟩
  · rw [Walker.before, h.here, Option.bind_some, htick]
  · dsimp only
    rw [hdirection, alongTheFloor_add (direction_floor position), h.left, travelled_succ, h.spent,
      ← sub_smul, Rat.cast_add, ← sub_sub]
  · dsimp only
    rw [h.spent]
    rfl

/-- Short of its point, and not without coming near for a second, a body goes on. -/
theorem underway_of_short (hrate : Parameters.isValidTickRate tickRateHz = true)
    (hstart : 0 < moveTo.distance position) (k : ℕ)
    (hshort : ∀ i < k, 1 / 2 < moveTo.distance position -
      travelled rules transitions tickRateHz moveTo counters i)
    (hnear : ∀ i < k, moveTo.distance position -
      travelled rules transitions tickRateHz moveTo counters i < kFirstNear ∨
        i + 1 < tickRateHz.toNat) :
    ∃ found, Underway rules transitions tickRateHz moveTo position counters k found := by
  induction k with
  | zero => exact ⟨_, underway_start hstart⟩
  | succ k ih =>
      obtain ⟨found, hfound⟩ := ih (fun i hi => hshort i (Nat.lt_succ_of_lt hi))
        (fun i hi => hnear i (Nat.lt_succ_of_lt hi))
      exact (hfound.tick hrate (hshort k (Nat.lt_succ_self k)) (hnear k (Nat.lt_succ_self k))).2

/-- What has ended stays so. -/
theorem Walker.before_none {walker : Walker} {n m : ℕ} (hle : n ≤ m)
    (h : walker.before rules transitions tickRateHz moveTo n = none) :
    walker.before rules transitions tickRateHz moveTo m = none := by
  induction m, hle using Nat.le_induction with
  | base => exact h
  | succ m _ ih => rw [Walker.before, ih, Option.bind_none]

/-- Nothing comes after the tick that ends the MoveTo. -/
theorem Walker.EndsAt.le {walker found : Walker} {n m : ℕ} {ending : IntentEnding}
    (h : walker.EndsAt rules transitions tickRateHz moveTo n ending)
    (hfound : walker.before rules transitions tickRateHz moveTo m = some found) : m ≤ n := by
  obtain ⟨last, hlast, hends⟩ := h
  by_contra hafter
  have hnone : walker.before rules transitions tickRateHz moveTo (n + 1) = none := by
    rw [Walker.before, hlast, Option.bind_some]
    split <;> simp_all
  rw [Walker.before_none (by omega) hnone] at hfound
  cases hfound

theorem Walker.EndsAt.unique {walker : Walker} {n m : ℕ} {ending ending' : IntentEnding}
    (h : walker.EndsAt rules transitions tickRateHz moveTo n ending)
    (h' : walker.EndsAt rules transitions tickRateHz moveTo m ending') : ending = ending' := by
  obtain ⟨found, hfound, hends⟩ := h
  obtain ⟨found', hfound', hends'⟩ := h'
  obtain rfl : n = m := Nat.le_antisymm
    (Walker.EndsAt.le ⟨found', hfound', hends'⟩ hfound)
    (Walker.EndsAt.le ⟨found, hfound, hends⟩ hfound')
  rw [hfound] at hfound'
  obtain rfl := Option.some.inj hfound'
  rw [hends] at hends'
  exact Option.some.inj hends'

/-! ### Arriving -/

/-- Near enough, the MoveTo ends there. -/
theorem carry_arrived_iff (progress : Progress ℝ) (tickRateHz : ℕ) (distance : ℝ) :
    (progress.carry (Math.Point ℝ) tickRateHz distance).1 = some .arrived ↔ distance ≤ 1 / 2 := by
  rw [carry_exact]
  split_ifs <;> simp_all

theorem Underway.arrives_iff
    (h : Underway rules transitions tickRateHz moveTo position counters k found)
    (hstart : 0 < moveTo.distance position) :
    (found.tick rules transitions tickRateHz moveTo).1 = some .arrived ↔
      |moveTo.distance position - travelled rules transitions tickRateHz moveTo counters k| ≤
        1 / 2 := by
  rw [Walker.tick_fst, carry_arrived_iff, h.distance_eq hstart]

/-- The first tick that leaves a body no further short of its point than half a metre. -/
theorem exists_landing (hrate : Parameters.isValidTickRate tickRateHz = true) (d : ℝ) :
    ∃ k, d - travelled rules transitions tickRateHz moveTo counters k ≤ 1 / 2 ∧
      ∀ i < k, 1 / 2 < d - travelled rules transitions tickRateHz moveTo counters i := by
  classical
  have hexists : ∃ k, d - travelled rules transitions tickRateHz moveTo counters k ≤ 1 / 2 := by
    obtain ⟨n, hn⟩ := @exists_travelled rules transitions _ moveTo counters hrate d
    exact ⟨n, by linarith⟩
  exact ⟨Nat.find hexists, Nat.find_spec hexists, fun i hi => not_le.mp (Nat.find_min hexists hi)⟩

attribute [local instance] Lib.atLeastTwo_two in
/-- The point is near enough for the first second to come near, and some number of steps ends within
    half a metre of it. -/
def Reaches (rules : StaminaRules ℚ) (transitions : Transitions ℚ) (tickRateHz : UInt8)
    (moveTo : MoveTo (Math.Point ℝ)) (position : Math.Point ℝ) (counters : Counters ℚ) : Prop :=
  moveTo.distance position -
      travelled rules transitions tickRateHz moveTo counters (tickRateHz.toNat - 1) < kFirstNear ∧
    ∃ n, |moveTo.distance position - travelled rules transitions tickRateHz moveTo counters n| ≤
      1 / 2

/-- A body already there arrives at once, and no steps reach its point. -/
theorem arrives_at_once (hrate : Parameters.isValidTickRate tickRateHz = true)
    (hthere : moveTo.distance position ≤ 1 / 2) :
    Walker.Arrives rules transitions tickRateHz moveTo { position, counters } ∧
      Reaches rules transitions tickRateHz moveTo position counters := by
  have hnonneg : 0 ≤ moveTo.distance position := length_nonneg _
  refine ⟨⟨0, ⟨_, rfl, ?_⟩, fun i hi => absurd hi (Nat.not_lt_zero i)⟩, ?_, 0, ?_⟩
  · rw [Walker.tick_fst, carry_arrived_iff]
    exact hthere
  · have hmono : (0 : ℝ) ≤ travelled rules transitions tickRateHz moveTo counters
        (tickRateHz.toNat - 1) := by
      exact_mod_cast travelled_mono hrate (Nat.zero_le _)
    have hfar : (1 : ℝ) < kFirstNear := by exact_mod_cast one_lt_kFirstNear
    linarith
  · rw [show travelled rules transitions tickRateHz moveTo counters 0 = 0 from rfl, Rat.cast_zero,
      sub_zero, abs_of_nonneg hnonneg]
    exact hthere

section
variable (hrate : Parameters.isValidTickRate tickRateHz = true)
  (hstart : 1 / 2 < moveTo.distance position)
include hrate hstart

omit hstart in
/-- Near enough in the first second, a body is always near enough, or early. -/
theorem near_or_early (hnear : moveTo.distance position -
      travelled rules transitions tickRateHz moveTo counters (tickRateHz.toNat - 1) < kFirstNear)
    (i : ℕ) :
    moveTo.distance position - travelled rules transitions tickRateHz moveTo counters i <
      kFirstNear ∨ i + 1 < tickRateHz.toNat := by
  rcases Nat.lt_or_ge (i + 1) tickRateHz.toNat with hearly | hlate
  · exact .inr hearly
  · have hmono : (travelled rules transitions tickRateHz moveTo counters (tickRateHz.toNat - 1) : ℝ)
        ≤ travelled rules transitions tickRateHz moveTo counters i := by
      exact_mod_cast travelled_mono hrate (by omega)
    exact .inl (by linarith)

/-- Too far to have come near in the first second, the MoveTo ends blocked with it. -/
theorem endsAt_of_far (hfar : ¬ moveTo.distance position -
      travelled rules transitions tickRateHz moveTo counters (tickRateHz.toNat - 1) < kFirstNear) :
    Walker.EndsAt rules transitions tickRateHz moveTo { position, counters } (tickRateHz.toNat - 1)
      .blocked := by
  have hpos : 0 < tickRateHz.toNat := by
    simpa [Parameters.isValidTickRate, UInt8.lt_iff_toNat_lt] using hrate
  have hone : (1 : ℝ) < kFirstNear := by exact_mod_cast one_lt_kFirstNear
  have hshort : ∀ i ≤ tickRateHz.toNat - 1, 1 / 2 < moveTo.distance position -
      travelled rules transitions tickRateHz moveTo counters i := by
    intro i hi
    have hmono : (travelled rules transitions tickRateHz moveTo counters i : ℝ) ≤
        travelled rules transitions tickRateHz moveTo counters (tickRateHz.toNat - 1) := by
      exact_mod_cast travelled_mono hrate hi
    linarith
  obtain ⟨found, hfound⟩ := underway_of_short hrate (by linarith) (tickRateHz.toNat - 1)
    (fun i hi => hshort i hi.le) fun i hi => .inr (by omega)
  refine ⟨found, hfound.here, ?_⟩
  rw [Walker.tick_fst]
  refine (hfound.carry_eq hrate (by linarith) (hshort _ le_rfl)).2 ?_
  rintro (hnear | hearly)
  · exact hfar hnear
  · omega

/-- Where some steps end within half a metre of the point, the first to come so near arrives. -/
theorem arrives_of_reaches (h : Reaches rules transitions tickRateHz moveTo position counters) :
    Walker.Arrives rules transitions tickRateHz moveTo { position, counters } := by
  obtain ⟨hnear, n, hn⟩ := h
  obtain ⟨k, hk, hshort⟩ := @exists_landing rules transitions _ moveTo counters hrate
    (moveTo.distance position)
  obtain ⟨found, hfound⟩ := underway_of_short hrate (by linarith) k hshort
    fun i _ => near_or_early hrate hnear i
  refine ⟨k, ⟨found, hfound.here, (hfound.arrives_iff (by linarith)).mpr ?_⟩, ?_⟩
  · -- no step over the circle: a later one ends in it
    have hkn : k ≤ n := by
      by_contra hbefore
      have := hshort n (by omega)
      have := (abs_le.mp hn).2
      linarith
    have hmono : (travelled rules transitions tickRateHz moveTo counters k : ℝ) ≤
        travelled rules transitions tickRateHz moveTo counters n := by
      exact_mod_cast travelled_mono hrate hkn
    have := (abs_le.mp hn).1
    exact abs_le.mpr ⟨by linarith, hk⟩
  · intro i hi walker hwalker
    obtain ⟨found', hfound'⟩ := underway_of_short hrate (by linarith) i
      (fun j hj => hshort j (by omega)) fun j _ => near_or_early hrate hnear j
    obtain rfl : walker = found' := Option.some.inj (hwalker.symm.trans hfound'.here)
    exact hfound'.direction_eq (by linarith) (by linarith [hshort i hi])

/-- A body that arrives without having turned round has come near in the first second, and its steps
    have ended within half a metre of the point. -/
theorem reaches_of_arrives
    (h : Walker.Arrives rules transitions tickRateHz moveTo { position, counters }) :
    Reaches rules transitions tickRateHz moveTo position counters := by
  obtain ⟨n, hends, hsame⟩ := h
  have hnear : moveTo.distance position -
      travelled rules transitions tickRateHz moveTo counters (tickRateHz.toNat - 1) <
        kFirstNear := by
    by_contra hfar
    cases hends.unique (endsAt_of_far hrate hstart hfar)
  obtain ⟨k, hk, hshort⟩ := @exists_landing rules transitions _ moveTo counters hrate
    (moveTo.distance position)
  obtain ⟨found, hfound⟩ := underway_of_short hrate (by linarith) k hshort
    fun i _ => near_or_early hrate hnear i
  refine ⟨hnear, k, ?_⟩
  rcases Nat.lt_or_eq_of_le (hends.le hfound.here) with hlater | rfl
  · -- it goes on there, and not back
    have hnotback : ¬ moveTo.distance position -
        travelled rules transitions tickRateHz moveTo counters k < 0 := fun hpast =>
      hfound.direction_past (by linarith) hpast (hsame k hlater found hfound.here)
    exact abs_le.mpr ⟨by linarith, hk⟩
  · obtain ⟨last, hlast, harrived⟩ := hends
    rw [hfound.here] at hlast
    obtain rfl := Option.some.inj hlast
    exact (hfound.arrives_iff (by linarith)).mp harrived

end

/-- CORRECT: a MoveTo with nothing in its way arrives, and not by stepping over its point and back,
    exactly where its steps end within half a metre of it. -/
theorem moveTo_arrives_iff (hrate : Parameters.isValidTickRate tickRateHz = true) :
    Walker.Arrives rules transitions tickRateHz moveTo { position, counters } ↔
      Reaches rules transitions tickRateHz moveTo position counters := by
  rcases le_or_gt (moveTo.distance position) (1 / 2) with hthere | hstart
  · have := @arrives_at_once rules transitions _ moveTo counters position hrate hthere
    exact ⟨fun _ => this.2, fun _ => this.1⟩
  · exact ⟨reaches_of_arrives hrate hstart, arrives_of_reaches hrate hstart⟩

/-- Steps of a metre at the most land within half a metre of any point not too far to come near. -/
theorem reaches_of_short_steps (hrate : Parameters.isValidTickRate tickRateHz = true)
    (hshort : ∀ state, stepLength rules tickRateHz state (onTheWay moveTo true) ≤ 1)
    (hnear : moveTo.distance position < kFirstNear) :
    Reaches rules transitions tickRateHz moveTo position counters := by
  have hmono : ∀ n, (0 : ℝ) ≤ travelled rules transitions tickRateHz moveTo counters n := fun n => by
    exact_mod_cast travelled_mono hrate (Nat.zero_le n)
  refine ⟨by linarith [hmono (tickRateHz.toNat - 1)], ?_⟩
  obtain ⟨k, hk, hbefore⟩ := @exists_landing rules transitions _ moveTo counters hrate
    (moveTo.distance position)
  refine ⟨k, abs_le.mpr ⟨?_, hk⟩⟩
  cases k with
  | zero =>
      have hnonneg : 0 ≤ moveTo.distance position := length_nonneg _
      rw [show travelled rules transitions tickRateHz moveTo counters 0 = 0 from rfl, Rat.cast_zero]
      linarith
  | succ k =>
      have hlast := hbefore k (Nat.lt_succ_self k)
      have hstep : (travelled rules transitions tickRateHz moveTo counters (k + 1) : ℝ) ≤
          travelled rules transitions tickRateHz moveTo counters k + 1 := by
        rw [travelled_succ]
        exact_mod_cast (add_le_add_iff_left _).mpr (hshort _)
      linarith

/-- From 5 Hz up no step is longer than a metre. -/
theorem reaches_of_fast (hfast : 5 ≤ tickRateHz.toNat)
    (hnear : moveTo.distance position < kFirstNear) :
    Reaches rules transitions tickRateHz moveTo position counters := by
  have hrate : Parameters.isValidTickRate tickRateHz = true := by
    simp only [Parameters.isValidTickRate, UInt8.lt_iff_toNat_lt, decide_eq_true_eq]
    exact Nat.lt_of_lt_of_le (by decide) hfast
  refine reaches_of_short_steps hrate (fun state => ?_) hnear
  have hcast : (5 : ℚ) ≤ tickRateHz.toNat := by exact_mod_cast hfast
  calc stepLength rules tickRateHz state (onTheWay moveTo true) ≤ 5 * tickSeconds tickRateHz :=
        (stepLength_bounds hrate state (onTheWay moveTo true)).2
    _ ≤ 1 := by
        rw [tickSeconds, mul_one_div]
        exact div_le_one_of_le₀ hcast (by positivity)

/-- On a floor with room for every stance a body is in the one it is asked for. -/
theorem changeStance_onTheWay (counters : Counters ℚ) (moving : Bool) :
    (counters.changeStance (onTheWay moveTo moving)).stance = moveTo.stance := by
  rw [Counters.changeStance]
  by_cases h : (onTheWay moveTo moving).desiredStance ≠ counters.stance ∧
      (onTheWay moveTo moving).fits = true
  · rw [if_pos h]
    rfl
  · rw [if_neg h]
    simp only [onTheWay, and_true, ne_eq, not_not] at h
    exact h.symm

/-- Without a sprint every step is as long. -/
theorem travelled_of_steady (hsteady : moveTo.sprint = false) (n : ℕ) :
    travelled rules transitions tickRateHz moveTo counters n =
      n * (exactSpeed moveTo.stance false * tickSeconds tickRateHz) := by
  have hstep : ∀ state, stepLength rules tickRateHz state (onTheWay moveTo true) =
      exactSpeed moveTo.stance false * tickSeconds tickRateHz := by
    intro state
    rw [stepLength, changeStance_onTheWay]
    simp [Counters.spent, Counters.resolveStamina, onTheWay, hsteady]
  induction n with
  | zero => simp [travelled]
  | succ n ih =>
      rw [travelled_succ, ih, hstep]
      push_cast
      ring

end

/-! ### Two walks -/

/-- A point so far ahead. -/
noncomputable def ahead (metres : ℝ) : MoveTo (Math.Point ℝ) where
  point := ![metres, 0, 0]

theorem distance_ahead {metres : ℝ} (h : 0 ≤ metres) : (ahead metres).distance 0 = metres := by
  show √((metres - 0) ^ 2 + 0 ^ 2 + (0 - 0) ^ 2) = metres
  rw [sub_zero, sub_zero, zero_pow two_ne_zero, add_zero, add_zero, Real.sqrt_sq h]

/-- Rested, standing still. -/
def rested : Counters ℚ := ⟨.standing, .standing, kStanceProgressSteps, 1, false⟩

/-- Five metres at 60 Hz. -/
theorem moveTo_arrives_five_metres :
    Walker.Arrives ⟨0, 0, 0⟩ ⟨0, 0, 0⟩ 60 (ahead 5) { position := 0, counters := rested } :=
  (moveTo_arrives_iff (by decide)).mpr (reaches_of_fast (by decide) (by
    rw [distance_ahead (by norm_num)]
    exact_mod_cast (by decide +kernel : (5 : ℚ) < kFirstNear)))

/-- At 1 Hz a walk of three metres a tick steps over a point a metre and a half ahead. -/
theorem moveTo_steps_over :
    ¬ Walker.Arrives ⟨0, 0, 0⟩ ⟨0, 0, 0⟩ 1 (ahead (3 / 2))
      { position := 0, counters := rested } := by
  intro harrives
  have hdistance : (ahead (3 / 2)).distance 0 = 3 / 2 := distance_ahead (by norm_num)
  obtain ⟨-, n, hn⟩ := reaches_of_arrives (by decide) (by rw [hdistance]; norm_num) harrives
  have hstep : exactSpeed .standing false * tickSeconds 1 = 3 := by decide +kernel
  rw [hdistance, travelled_of_steady rfl, show (ahead (3 / 2)).stance = .standing from rfl, hstep,
    abs_le] at hn
  rcases n with - | n
  · norm_num at hn
  · push_cast at hn
    linarith [hn.1, (Nat.cast_nonneg n : (0 : ℝ) ≤ n)]

end Augusta.Harness
