import Augusta.Host.CaptureTape
import Augusta.Host.Replay
import Augusta.Simulation.HistoryLaw

/-! The Shooter's delay of a replayed Command against the live one's.

      live      … first-2  first-1 │ first  first+1  …  tick          seen ≤ tick - 1
      Replay          0        0   │   1       2     …  tick - first + 1

    A Seen tick is captured from the Match's first on, held to 32 bits, and moved onto the Replay's
    ticks. -/

namespace Augusta.Host
open Lib
open Simulation (roundedShootersDelay clamp clamp_nonneg)

/-- The Seen tick a Replay judges a Command by, on the live ticks: one of the Match or the one before
    it, else that one. -/
def movedSeen (first seenTick : Tick) : ℕ :=
  if first.toNat ≤ seenTick.toNat + 1 ∧ seenTick.toNat < first.toNat + 2 ^ 63 then seenTick.toNat
  else first.toNat - 1

/-! ### In the doubles it is computed in -/

/-- A fraction off the wire is a whole number of 256ths, short of one. -/
theorem clamp_snapFraction {fraction : Binary32} (h : Math.snapFraction fraction = fraction) :
    ∃ j : ℕ, j < 2 ^ 8 ∧ (clamp fraction .zero .one).toRat = ((j : ℤ) : ℚ) / 2 ^ 8 := by
  obtain ⟨hlow, hhigh⟩ := Math.toSteps_mem fraction Math.kFractionGrid
  have hfraction : fraction = Binary32.ofScaled (Math.toSteps fraction Math.kFractionGrid) 8 := by
    conv_lhs => rw [← h]
    rfl
  revert hlow hhigh hfraction
  generalize Math.toSteps fraction Math.kFractionGrid = n
  simp only [Math.kFractionGrid]
  rintro hlow hhigh hfraction
  have hrat : fraction.toRat = (n : ℚ) / 2 ^ 8 := by
    rw [hfraction]
    exact Binary32.toRat_ofScaled (by omega) (by decide)
  have hlow' : (0 : ℚ) ≤ (n : ℚ) / 2 ^ 8 := div_nonneg (by exact_mod_cast hlow) (by norm_num)
  have hhigh' : (n : ℚ) / 2 ^ 8 < 1 := by
    rw [div_lt_one (by norm_num)]
    exact_mod_cast (by omega : n < 2 ^ 8)
  have hfinite : fraction.isFinite = true := by
    rw [hfraction]
    exact Binary32.ofScaled_isFinite (by omega) (by decide)
  -- a whole number of 256ths short of one is not clamped
  have hclamp : clamp fraction .zero .one = fraction := by
    have hzero : Binary32.zero.toRat = 0 := by simp [Binary32.toRat, show Binary32.zero.units = 0 from rfl]
    have hone : Binary32.one.toRat = 1 := by
      rw [Binary32.toRat, show Binary32.one.units = 2 ^ 149 from rfl]
      norm_num
    have hbelow : ¬ fraction.lt .zero = true := by
      rw [Binary32.lt_iff_toRat hfinite rfl, hzero, hrat]
      exact not_lt.mpr hlow'
    have habove : ¬ Binary32.lt .one fraction = true := by
      rw [Binary32.lt_iff_toRat rfl hfinite, hone, hrat]
      exact not_lt.mpr hhigh'.le
    rw [clamp, if_neg hbelow, if_neg habove]
  refine ⟨n.toNat, by omega, ?_⟩
  rw [hclamp, hrat, Int.toNat_of_nonneg hlow]

/-- What is `2 ^ 44` or more is not rounded to less. -/
theorem le_roundDouble_of_large {x : ℚ} (h : (2 : ℚ) ^ 44 ≤ x) : (2 : ℚ) ^ 44 ≤ roundDouble x := by
  have hpos : 0 ≤ x := le_trans (by norm_num) h
  rcases lt_or_ge x (2 ^ 53) with hsmall | hlarge
  · have habs : |x| < 2 ^ 53 := by rwa [abs_of_nonneg hpos]
    have hle := le_roundDouble habs (n := 2 ^ 44) (by exact_mod_cast h)
    exact_mod_cast hle
  · have hhalf := half_le_roundDouble hpos
    linarith

section
variable {fraction cap : Binary32} {j : ℕ} (hj : j < 2 ^ 8)
  (hclamp : (clamp fraction .zero .one).toRat = ((j : ℤ) : ℚ) / 2 ^ 8)
include hj hclamp

/-- The delay as the numbers have it. -/
theorem roundedShootersDelay_eq {tick : Tick} (htick : 1 ≤ tick.toNat) (hlimit : tick.toNat < 2 ^ 44)
    (seenTick : Tick) : roundedShootersDelay tick seenTick fraction cap =
      Binary32.min (.ofRat ((tick.toNat : ℚ) -
        min ((seenTick.toNat : ℚ) + ((j : ℤ) : ℚ) / 2 ^ 8) ((tick.toNat : ℚ) - 1))) cap := by
  obtain ⟨now, hnow⟩ : ∃ now, now = tick.toNat := ⟨_, rfl⟩
  obtain ⟨seen, hseen⟩ : ∃ seen, seen = seenTick.toNat := ⟨_, rfl⟩
  rw [roundedShootersDelay, hclamp, ← hnow, ← hseen]
  rw [← hnow] at htick hlimit
  clear hclamp hnow hseen
  have hjpos : (0 : ℚ) ≤ ((j : ℤ) : ℚ) / 2 ^ 8 := by positivity
  have hlast : roundDouble ((now : ℚ) - 1) = (now : ℚ) - 1 := by
    have hcast : (now : ℚ) - 1 = ((now - 1 : ℕ) : ℚ) := by rw [Nat.cast_sub htick, Nat.cast_one]
    rw [hcast, roundDouble_natCast (by omega)]
  have hbound : (now : ℚ) - 1 ≤ 2 ^ 44 := by
    have hcast : (now : ℚ) ≤ 2 ^ 44 := by exact_mod_cast hlimit.le
    linarith
  simp only [roundDouble_natCast (show now < 2 ^ 53 by omega), hlast]
  rcases Nat.lt_or_ge seen (2 ^ 44) with hnear | hfar
  · -- the time seen is a double, and so is what is left to it
    have hsum : (seen : ℚ) + ((j : ℤ) : ℚ) / 2 ^ 8 = (((seen * 2 ^ 8 + j : ℕ) : ℤ) : ℚ) / 2 ^ 8 := by
      push_cast
      ring
    have hexact : roundDouble (roundDouble (seen : ℚ) + ((j : ℤ) : ℚ) / 2 ^ 8) =
        (seen : ℚ) + ((j : ℤ) : ℚ) / 2 ^ 8 := by
      rw [roundDouble_natCast (by omega), hsum]
      exact roundDouble_dyadic 8 (by rw [abs_lt]; omega)
    rw [hexact]
    congr 2
    rcases le_total ((seen : ℚ) + ((j : ℤ) : ℚ) / 2 ^ 8) ((now : ℚ) - 1) with hpast | hfuture
    · have hdiff : (now : ℚ) - ((seen : ℚ) + ((j : ℤ) : ℚ) / 2 ^ 8) =
          (((now : ℤ) * 2 ^ 8 - (seen * 2 ^ 8 + j : ℕ) : ℤ) : ℚ) / 2 ^ 8 := by
        push_cast
        ring
      rw [min_eq_left hpast, hdiff]
      exact roundDouble_dyadic 8 (by rw [abs_lt]; omega)
    · rw [min_eq_right hfuture, sub_sub_cancel]
      exact_mod_cast roundDouble_natCast (show 1 < 2 ^ 53 by norm_num)
  · -- a time too far off to be one is in the future, rounded or not
    have hcast : (2 : ℚ) ^ 44 ≤ seen := by exact_mod_cast hfar
    have hround : (2 : ℚ) ^ 44 ≤ roundDouble (roundDouble (seen : ℚ) + ((j : ℤ) : ℚ) / 2 ^ 8) :=
      le_roundDouble_of_large (by linarith [le_roundDouble_of_large hcast])
    rw [min_eq_right (by linarith), min_eq_right (by linarith), sub_sub_cancel]
    congr 2
    exact_mod_cast roundDouble_natCast (show 1 < 2 ^ 53 by norm_num)

end

/-! ### Moved onto the Replay's ticks -/

theorem toNat_seenTick (offset : ℤ) (h : offset < 2 ^ 63) :
    ((Replay.seenTick offset).toNat : ℤ) = max 0 (1 + offset) := by
  rw [Replay.seenTick]
  split_ifs with hseen
  · rw [UInt64.toNat_ofNat_of_lt' (by change _ < 2 ^ 64; omega)]
    omega
  · simp
    omega

/-- A time held to a tick ago, and both moved alike. -/
theorem sub_min_moved (tick seen part moved : ℚ) :
    tick - moved - min (seen + part) (tick - moved - 1) =
      tick - min (seen + moved + part) (tick - 1) := by
  rcases le_total (seen + part) (tick - moved - 1) with hpast | hfuture
  · rw [min_eq_left hpast, min_eq_left (by linarith)]
    ring
  · rw [min_eq_right hfuture, min_eq_right (by linarith)]
    ring

section
variable {c : Capturer} {tick : Tick} (hfirst : 1 ≤ c.firstTick.toNat)
  (hlived : c.firstTick.toNat ≤ tick.toNat) (hlimit : tick.toNat < 2 ^ 44)
include hfirst hlived hlimit

omit hlived hlimit hfirst in
theorem movedSeen_lt (seenTick : Tick) : movedSeen c.firstTick seenTick < 2 ^ 64 := by
  have hseen := seenTick.toNat_lt
  have htick := c.firstTick.toNat_lt
  rw [movedSeen]
  split <;> omega

/-- A Seen tick read back is the live one moved, or in the future of both ticks. -/
theorem seenTick_seenOffset (hlength : tick.toNat - c.firstTick.toNat < 2 ^ 31) (seenTick : Tick) :
    (Replay.seenTick (c.seenOffset seenTick)).toNat + (c.firstTick.toNat - 1) =
        movedSeen c.firstTick seenTick ∨
      tick.toNat - c.firstTick.toNat ≤ (Replay.seenTick (c.seenOffset seenTick)).toNat ∧
        tick.toNat - 1 ≤ movedSeen c.firstTick seenTick := by
  have hseen := seenTick.toNat_lt
  have hoffset : c.seenOffset seenTick = max (-2 ^ 31) (min
      (Int.bmod ((seenTick.toNat : ℤ) - c.firstTick.toNat) (2 ^ 64)) (2 ^ 31 - 1)) := rfl
  have hread := toNat_seenTick (c.seenOffset seenTick) (by omega)
  generalize (Replay.seenTick (c.seenOffset seenTick)).toNat = replayed at hread ⊢
  rw [hoffset] at hread
  rw [movedSeen]
  split_ifs with hnamed
  · -- of the Match, or the tick before it: only one far in its future is held to 32 bits
    rw [Int.bmod_eq_of_le (by omega) (by omega)] at hread
    omega
  · -- long before the Match, or so far on that it counts as that: the tick before its first
    have hbefore : Int.bmod ((seenTick.toNat : ℤ) - c.firstTick.toNat) (2 ^ 64) < -1 := by
      rw [Int.bmod_def]
      omega
    omega

/-- A Replay's tick, by the live one. -/
theorem toNat_replayTick : (tick - c.firstTick + 1).toNat = tick.toNat - c.firstTick.toNat + 1 := by
  rw [UInt64.toNat_add, UInt64.toNat_sub_of_le _ _ hlived]
  simp
  omega

/-- The delay of a Seen tick moved is that of the live one it counts as. -/
theorem roundedShootersDelay_moved (hlength : tick.toNat - c.firstTick.toNat < 2 ^ 31)
    (seenTick : Tick) {fraction : Binary32} (hgrid : Math.snapFraction fraction = fraction)
    (cap : Binary32) :
    roundedShootersDelay (tick - c.firstTick + 1) (Replay.seenTick (c.seenOffset seenTick)) fraction
        cap =
      roundedShootersDelay tick (UInt64.ofNat (movedSeen c.firstTick seenTick)) fraction cap := by
  obtain ⟨j, hj, hclamp⟩ := clamp_snapFraction hgrid
  have htick := toNat_replayTick hfirst hlived hlimit
  rw [roundedShootersDelay_eq hj hclamp (by omega) (by omega),
    roundedShootersDelay_eq hj hclamp (by omega) hlimit, htick,
    UInt64.toNat_ofNat_of_lt' (by exact movedSeen_lt seenTick)]
  congr 2
  have hnow : ((tick.toNat - c.firstTick.toNat + 1 : ℕ) : ℚ) =
      tick.toNat - ((c.firstTick.toNat - 1 : ℕ) : ℚ) := by
    rw [eq_sub_iff_add_eq]
    exact_mod_cast (by omega : tick.toNat - c.firstTick.toNat + 1 + (c.firstTick.toNat - 1) = _)
  have hpart : (0 : ℚ) ≤ ((j : ℤ) : ℚ) / 2 ^ 8 := by positivity
  rw [hnow]
  rcases seenTick_seenOffset hfirst hlived hlimit hlength seenTick with hsame | ⟨hfar, hlate⟩
  · -- both times moved by the ticks before the Match
    rw [← hsame, Nat.cast_add]
    exact sub_min_moved _ _ _ _
  · -- both in the future: one tick ago
    have hfar' : (tick.toNat : ℚ) - ((c.firstTick.toNat - 1 : ℕ) : ℚ) - 1 ≤
        ((Replay.seenTick (c.seenOffset seenTick)).toNat : ℚ) := by
      rw [← hnow, Nat.cast_add, Nat.cast_one, add_sub_cancel_right]
      exact_mod_cast hfar
    have hlate' : (tick.toNat : ℚ) - 1 ≤ (movedSeen c.firstTick seenTick : ℚ) := by
      rw [sub_le_iff_le_add]
      exact_mod_cast (by omega : tick.toNat ≤ movedSeen c.firstTick seenTick + 1)
    rw [min_eq_right (by linarith), min_eq_right (by linarith), sub_sub_cancel, sub_sub_cancel]

/-- The tick a Replay runs an offset on. -/
theorem offsetOf_add_one (hlength : tick.toNat - c.firstTick.toNat < 2 ^ 31) :
    UInt64.ofNat ((c.offsetOf tick).toNat + 1) = tick - c.firstTick + 1 := by
  apply UInt64.toNat_inj.mp
  rw [toNat_replayTick hfirst hlived hlimit, Capturer.offsetOf,
    offset_of_le (UInt64.le_iff_toNat_le.mpr hlived) (by omega), UInt32.toNat_ofNat', kMaxUint32,
    UInt64.toNat_ofNat_of_lt' (by change _ < 2 ^ 64; omega)]
  omega

/-- CORRECT: a replayed Command is judged by the delay it was judged by live. Its Seen tick counts
    as it did for every tick of the Match and the one before it, and for the future, which is one
    tick ago; one from before that counts as the tick before the Match. -/
theorem replayed_delay (hlength : tick.toNat - c.firstTick.toNat < 2 ^ 31) {entity : EntityId}
    {command captured : Command} {at_ : UInt32} {player : Capture.Player} {seenOffset : ℤ}
    (hcaptured : c.command tick entity command =
      some ⟨at_, .command player seenOffset captured⟩)
    (hgrid : Math.snapFraction command.seenFraction = command.seenFraction) (cap : Binary32) :
    roundedShootersDelay (UInt64.ofNat (at_.toNat + 1)) (Replay.seenTick seenOffset)
        captured.seenFraction cap =
      roundedShootersDelay tick (UInt64.ofNat (movedSeen c.firstTick command.seenTick))
        command.seenFraction cap ∧
    (c.firstTick.toNat ≤ command.seenTick.toNat + 1 →
      command.seenTick.toNat < c.firstTick.toNat + 2 ^ 63 →
      roundedShootersDelay (UInt64.ofNat (at_.toNat + 1)) (Replay.seenTick seenOffset)
          captured.seenFraction cap =
        roundedShootersDelay tick command.seenTick command.seenFraction cap) := by
  rw [Capturer.command] at hcaptured
  by_cases hnone : ¬ c.isOpen ∨ c.playerOf entity = 0
  · rw [if_pos hnone] at hcaptured
    cases hcaptured
  · rw [if_neg hnone] at hcaptured
    cases hcaptured
    rw [offsetOf_add_one hfirst hlived hlimit hlength,
      roundedShootersDelay_moved hfirst hlived hlimit hlength _ hgrid]
    refine ⟨rfl, fun hstart hfuture => ?_⟩
    rw [movedSeen, if_pos ⟨hstart, hfuture⟩, UInt64.ofNat_toNat]

end

/-- A Match from tick 100 on, and a Command of its tick 110. -/
def laterCapturer : Capturer where
  header := {}
  isOpen := true
  firstTick := 100
  players := (∅ : Table EntityId Capture.Player).emplace 5 1

def laterCommand : Command := { seenTick := 98, seenFraction := .ofScaled 128 8 }

/-- What was seen a tick and a half before the Match counts as seen half a tick before it. -/
theorem replayed_delay_before_the_match :
    let cap := Simulation.shootersDelayCap 60
    movedSeen 100 laterCommand.seenTick = 99 ∧ Replay.seenTick (-2) = 0 ∧
      roundedShootersDelay (UInt64.ofNat (UInt32.toNat 10 + 1)) (Replay.seenTick (-2))
          laterCommand.seenFraction cap =
        roundedShootersDelay 110 (UInt64.ofNat (movedSeen 100 laterCommand.seenTick))
          laterCommand.seenFraction cap :=
  ⟨rfl, rfl, (@replayed_delay laterCapturer 110 (by decide) (by decide) (by decide) (by decide) 5
    laterCommand { laterCommand with seenTick := 0 } 10 1 (-2) rfl (by decide +kernel) _).1⟩

end Augusta.Host
