import Augusta.Core.Parameters
import Augusta.Lib.Conversion
import Augusta.Simulation.HitboxHistory

/-! The Hitbox history as it is kept and as it is asked, in the code's own doubles and floats.

      kept       T - capacity … T - 1                     each player's newest ticks, in a ring
      asked for  T - delay,  1 ≤ delay ≤ cap ≤ capacity    unless the cap is no tick at all, or its
                                                          float a little over a whole number of them

    How two ticks' poses blend is left open. Ticks are below `2 ^ 53`, as far as a double counts. -/

namespace Augusta.Simulation
open Lib (Binary32 Ring roundDouble)

/-! ### What is kept -/

section
variable {𝕜 Joints : Type} {capacity : ℕ}

/-- How two ticks' poses blend at a fraction of the way between them. -/
abbrev Between (𝕜 Joints : Type) :=
  SkeletonPose 𝕜 Joints → SkeletonPose 𝕜 Joints → ℚ → SkeletonPose 𝕜 Joints

/-- `SlotOf`: where the `count`th oldest of those kept is. -/
def slotOf {α : Type} (ring : Ring α capacity) (count : ℕ) : ℕ := (ring.oldest + count) % capacity

/-- `PoseHistory::At`, slot by slot. -/
def PoseHistory.poseAtSlots (between : Between 𝕜 Joints) (history : PoseHistory 𝕜 Joints capacity)
    (time : ℚ) : Option (SkeletonPose 𝕜 Joints) :=
  match history.kept with
  | none => none
  | some ring =>
      let size := ring.slots.length
      let newest : ℚ := history.newestTick.toNat
      let oldest : ℚ := newest - (size - 1 : ℕ)
      let held := max oldest (min time newest)
      let whole : ℚ := ⌊held⌋
      let earlierIndex := ⌊whole - oldest⌋.toNat
      -- the newest tick is held at a fraction of 0, so its own pose comes back
      let earlier := slotOf ring earlierIndex
      let later := slotOf ring (min (earlierIndex + 1) (size - 1))
      match ring.slots[earlier]?, ring.slots[later]? with
      | some source, some target => some (between source target (held - whole))
      | _, _ => none

/-- The same asked of a plain list of ticks and their poses, oldest first. -/
def plainAt (between : Between 𝕜 Joints) (kept : List (ℕ × SkeletonPose 𝕜 Joints)) (time : ℚ) :
    Option (SkeletonPose 𝕜 Joints) :=
  match kept.head?, kept.getLast? with
  | some oldest, some newest =>
      let held := max (oldest.1 : ℚ) (min time newest.1)
      let poseOf (tick : ℤ) := kept.find? fun entry => (entry.1 : ℤ) = tick
      (poseOf ⌊held⌋).map fun source =>
        between source.2 ((poseOf (⌊held⌋ + 1)).getD newest).2 (held - ⌊held⌋)
  | _, _ => none

/-- The last `capacity` of the poses recorded, each with its tick. -/
def lastPoses (capacity : ℕ) (poses : ℕ → SkeletonPose 𝕜 Joints) (first count : ℕ) :
    List (ℕ × SkeletonPose 𝕜 Joints) :=
  ((List.range count).map fun i => (first + i, poses (first + i))).drop (count - capacity)

/-- The ring read slot by slot is the list of what is kept read by index. -/
theorem poseAtSlots_eq (between : Between 𝕜 Joints) (history : PoseHistory 𝕜 Joints capacity)
    (time : ℚ) : history.poseAtSlots between time =
      let kept := history.entries
      let newest : ℚ := history.newestTick.toNat
      let oldest : ℚ := newest - (kept.length - 1 : ℕ)
      let held := max oldest (min time newest)
      let earlier := ⌊(⌊held⌋ : ℚ) - oldest⌋.toNat
      match kept[earlier]?, kept[min (earlier + 1) (kept.length - 1)]? with
      | some source, some target => some (between source target (held - ⌊held⌋))
      | _, _ => none := by
  rcases hkept : history.kept with _ | ring
  · simp [PoseHistory.poseAtSlots, PoseHistory.entries, hkept]
  · have hslot : ∀ i < ring.slots.length, ring.slots[slotOf ring i]? = ring.toList[i]? := by
      intro i hi
      rw [ring.getElem?_toList hi, slotOf]
      rcases Nat.lt_or_ge ring.slots.length capacity with hfilling | hfull
      · rw [ring.wrapped hfilling, Nat.zero_add, Nat.mod_eq_of_lt hi, Nat.mod_eq_of_lt (by omega)]
      · rw [Nat.le_antisymm ring.bound hfull]
    -- the time is held within the ticks kept, so its index is one of theirs
    have hsize : 0 < ring.slots.length := List.length_pos_iff.mpr ring.nonempty
    simp only [PoseHistory.poseAtSlots, PoseHistory.entries, hkept, Ring.length_toList]
    generalize hoffset : (ring.slots.length - 1 : ℕ) = offset
    generalize (history.newestTick.toNat : ℚ) = newest
    have hupper : max (newest - (offset : ℚ)) (min time newest) ≤ newest :=
      max_le (sub_le_self _ (Nat.cast_nonneg offset)) (min_le_right _ _)
    generalize max (newest - (offset : ℚ)) (min time newest) = held at hupper
    have hindex : ⌊(⌊held⌋ : ℚ) - (newest - (offset : ℚ))⌋.toNat ≤ offset := by
      have hfloor := Int.floor_le held
      have hle : ⌊(⌊held⌋ : ℚ) - (newest - (offset : ℚ))⌋ ≤ (offset : ℤ) := by
        rw [← Int.floor_natCast (R := ℚ) offset]
        exact Int.floor_le_floor (by linarith)
      omega
    rw [hslot _ (by omega), hslot _ (by omega)]

/-! ### What was recorded -/

theorem find?_range_map {α : Type} (n oldest i : ℕ) (f : ℕ → α) :
    ((List.range n).map fun j => (oldest + j, f j)).find?
        (fun entry => (entry.1 : ℤ) = ((oldest + i : ℕ) : ℤ)) =
      if i < n then some (oldest + i, f i) else none := by
  induction n with
  | zero => simp
  | succ n ih =>
      rw [List.range_succ, List.map_append, List.find?_append, ih, List.map_singleton]
      rcases Nat.lt_trichotomy i n with hless | rfl | hmore
      · rw [if_pos hless, if_pos (by omega)]
        rfl
      · rw [if_neg (lt_irrefl _), if_pos (Nat.lt_succ_self _), Option.none_or]
        simp
      · rw [if_neg (by omega), if_neg (by omega), Option.none_or]
        have hne : ¬ ((oldest + n : ℕ) : ℤ) = ((oldest + i : ℕ) : ℤ) := by omega
        simp only [List.find?_cons, List.find?_nil, hne, decide_false]

theorem lastPoses_eq (poses : ℕ → SkeletonPose 𝕜 Joints) (first count : ℕ) :
    lastPoses capacity poses first count = (List.range (min count capacity)).map fun j =>
      (first + (count - capacity) + j, poses (first + (count - capacity) + j)) := by
  rw [lastPoses]
  refine List.ext_getElem ?_ fun j hj _ => ?_
  · simp only [List.length_drop, List.length_map, List.length_range]
    omega
  · simp only [List.getElem_drop, List.getElem_map, List.getElem_range, Nat.add_assoc]

variable {first : Tick} {count : ℕ}

/-- Whatever the time, the ring gives what the plain list does. -/
theorem poseAtSlots_recorded (between : Between 𝕜 Joints) (poses : ℕ → SkeletonPose 𝕜 Joints)
    (hsize : first.toNat + count ≤ 2 ^ 64) (time : ℚ) :
    (PoseHistory.recorded capacity poses first count).poseAtSlots between time =
      plainAt between (lastPoses capacity poses first.toNat count) time := by
  rcases Nat.eq_zero_or_pos (min count capacity) with hnone | hsome
  · -- nothing is kept
    rw [lastPoses_eq, hnone]
    have hkept : (PoseHistory.recorded capacity poses first count).kept = none := by
      rcases Nat.eq_zero_or_pos capacity with rfl | hcapacity
      · clear hsize hnone
        induction count with
        | zero => rfl
        | succ count ih =>
            rw [recorded_succ, PoseHistory.record, dif_neg (lt_irrefl 0)]
            exact ih
      · have hzero : count = 0 := by omega
        rw [hzero]
        rfl
    rw [PoseHistory.poseAtSlots, hkept]
    rfl
  · obtain ⟨hcount, hcapacity⟩ := Nat.lt_min.mp hsome
    rw [poseAtSlots_eq]
    simp only [length_entries_recorded hcapacity, newestTick_recorded hcapacity hcount hsize]
    -- the ticks kept are `oldest` to `oldest + offset`
    obtain ⟨oldest, holdest⟩ : ∃ oldest, oldest = first.toNat + (count - capacity) := ⟨_, rfl⟩
    obtain ⟨offset, hoffset⟩ : ∃ offset, min count capacity = offset + 1 := ⟨_, (Nat.succ_pred hsome.ne').symm⟩
    have hnewest : first.toNat + count - 1 = oldest + offset := by omega
    have hlast : (lastPoses capacity poses first.toNat count).getLast? =
        some (oldest + offset, poses (oldest + offset)) := by
      rw [lastPoses_eq, hoffset, ← holdest, List.range_succ, List.map_append, List.map_singleton,
        List.getLast?_concat]
    have hhead : (lastPoses capacity poses first.toNat count).head? = some (oldest, poses oldest) := by
      rw [lastPoses_eq, hoffset, ← holdest, List.range_succ_eq_map, List.map_cons]
      rfl
    have hlower : ((oldest + offset : ℕ) : ℚ) - (offset : ℚ) = oldest := by
      push_cast
      ring
    simp only [plainAt, hhead, hlast, hnewest, hoffset, Nat.add_sub_cancel, hlower]
    generalize hheld : max (oldest : ℚ) (min time ((oldest + offset : ℕ) : ℚ)) = held
    have hatLeast : (oldest : ℚ) ≤ held := hheld ▸ le_max_left _ _
    have hatMost : held ≤ ((oldest + offset : ℕ) : ℚ) := by
      rw [← hheld]
      refine max_le ?_ (min_le_right _ _)
      exact_mod_cast Nat.le_add_right _ _
    obtain ⟨i, hi, hfloor⟩ : ∃ i ≤ offset, ⌊held⌋ = ((oldest + i : ℕ) : ℤ) := by
      have hlow : (oldest : ℤ) ≤ ⌊held⌋ := Int.le_floor.mpr (by exact_mod_cast hatLeast)
      have hhigh : ⌊held⌋ ≤ ((oldest + offset : ℕ) : ℤ) := by
        have := Int.floor_le_floor hatMost
        rwa [Int.floor_natCast] at this
      exact ⟨(⌊held⌋ - oldest).toNat, by omega, by omega⟩
    have hindex : ⌊(((oldest + i : ℕ) : ℤ) : ℚ) - (oldest : ℚ)⌋.toNat = i := by
      have hdiff : (((oldest + i : ℕ) : ℤ) : ℚ) - (oldest : ℚ) = (i : ℕ) := by
        push_cast
        ring
      rw [hdiff, Int.floor_natCast, Int.toNat_natCast]
    have hearlier := getElem?_entries_recorded poses first hcapacity
      (show i < min count capacity by omega)
    have hlater := getElem?_entries_recorded poses first hcapacity
      (show min (i + 1) offset < min count capacity by omega)
    rw [← Nat.add_assoc, ← holdest] at hearlier hlater
    have hsource := find?_range_map (min count capacity) oldest i fun j => poses (oldest + j)
    have htarget := find?_range_map (min count capacity) oldest (i + 1) fun j => poses (oldest + j)
    have hsucc : ((oldest + (i + 1) : ℕ) : ℤ) = ((oldest + i : ℕ) : ℤ) + 1 := by push_cast; ring
    rw [hsucc] at htarget
    rw [hfloor, hindex, hearlier, hlater, lastPoses_eq, ← holdest, hsource, if_pos (by omega), htarget]
    rcases Nat.lt_or_ge i offset with hinside | hend
    · rw [if_pos (by omega), Nat.min_eq_left hinside]
      rfl
    · rw [if_neg (by omega), Nat.min_eq_right (by omega)]
      rfl

end
/-! ### What is asked for -/

/-- `MaxShootersDelayTicks`, as the floats count it. -/
def shootersDelayCap (tickRateHz : UInt8) : Binary32 :=
  ((Binary32.ofInt 300).div (.ofInt 1000)).mul (.ofInt tickRateHz.toNat)

/-- `std::clamp`. -/
def clamp (value low high : Binary32) : Binary32 :=
  if value.lt low then low else if high.lt value then high else value

/-- `ShootersDelay`, in the doubles and floats it is computed in. -/
def roundedShootersDelay (tick seenTick : Tick) (seenFraction maxDelay : Binary32) : Binary32 :=
  let now := roundDouble tick.toNat
  let fraction := (clamp seenFraction .zero .one).toRat
  let reported := roundDouble (roundDouble seenTick.toNat + fraction)
  let seen := min reported (roundDouble (now - 1))
  Binary32.min (.ofRat (roundDouble (now - seen))) maxDelay

/-- The time `HitboxesFor` asks a history of on `tick`. -/
def judgedTime (tick : Tick) (delay : Binary32) : ℚ := roundDouble (roundDouble tick.toNat - delay.toRat)

/-- The cap is a tick or more, and no more than the ticks kept. -/
def CapFits (tickRateHz : UInt8) : Prop :=
  4 ≤ tickRateHz.toNat ∧ tickRateHz.toNat ∉ [50, 90, 100, 170, 180, 190, 200, 210]

instance (tickRateHz : UInt8) : Decidable (CapFits tickRateHz) := by
  unfold CapFits
  infer_instance

/-- The cap of each rate against the ticks kept at it, as counts of the smallest float. -/
theorem units_shootersDelayCap : ∀ rate : ℕ, rate < 2 ^ 8 → 4 ≤ rate →
    rate ∉ [50, 90, 100, 170, 180, 190, 200, 210] →
      let cap := ((Binary32.ofInt 300).div (.ofInt 1000)).mul (.ofInt rate)
      cap.isFinite = true ∧ 2 ^ 149 ≤ cap.units ∧
        cap.units ≤ (((300 * rate + 999) / 1000 : ℕ) : ℤ) * 2 ^ 149 := by
  decide +kernel

section
variable {tickRateHz : UInt8} (hfits : CapFits tickRateHz)
include hfits

theorem shootersDelayCap_bounds : (shootersDelayCap tickRateHz).isFinite = true ∧
    1 ≤ (shootersDelayCap tickRateHz).toRat ∧
      (shootersDelayCap tickRateHz).toRat ≤ hitboxHistoryTicks tickRateHz := by
  obtain ⟨hfinite, hone, hmost⟩ :=
    units_shootersDelayCap tickRateHz.toNat tickRateHz.toNat_lt hfits.1 hfits.2
  have hpos : (0 : ℚ) < 2 ^ 149 := by positivity
  refine ⟨hfinite, ?_, ?_⟩
  · rw [Binary32.toRat, le_div_iff₀ hpos, one_mul]
    exact_mod_cast hone
  · change (shootersDelayCap tickRateHz).units ≤ _ at hmost
    have hcast := (Int.cast_le (R := ℚ)).mpr hmost
    rw [Int.cast_mul, Int.cast_natCast, Int.cast_pow, Int.cast_ofNat] at hcast
    rw [Binary32.toRat, div_le_iff₀ hpos, hitboxHistoryTicks]
    exact hcast

omit hfits in
theorem clamp_nonneg {value : Binary32} (hfinite : value.isFinite = true) :
    0 ≤ (clamp value .zero .one).toRat := by
  have hzero : Binary32.zero.toRat = 0 := by simp [Binary32.toRat, show Binary32.zero.units = 0 from rfl]
  have hone : (0 : ℚ) ≤ Binary32.one.toRat := by
    rw [Binary32.toRat, show Binary32.one.units = 2 ^ 149 by decide +kernel]
    positivity
  rw [clamp]
  split_ifs with hbelow
  · exact hzero.ge
  · exact hone
  · rw [Binary32.lt_iff_toRat hfinite rfl, hzero] at hbelow
    exact not_lt.mp hbelow

/-- A Shooter's delay is a tick or more, and no more than the ticks kept. -/
theorem roundedShootersDelay_bounds {tick : Tick} (hone : 1 ≤ tick.toNat) (hsmall : tick.toNat < 2 ^ 53)
    (seenTick : Tick) {seenFraction : Binary32} (hfinite : seenFraction.isFinite = true) :
    1 ≤ (roundedShootersDelay tick seenTick seenFraction (shootersDelayCap tickRateHz)).toRat ∧
      (roundedShootersDelay tick seenTick seenFraction (shootersDelayCap tickRateHz)).toRat ≤
        hitboxHistoryTicks tickRateHz := by
  obtain ⟨hcap, hcapone, hcapmost⟩ := shootersDelayCap_bounds hfits
  have hunit : Binary32.one.toRat = 1 := by
    rw [Binary32.toRat, show Binary32.one.units = 2 ^ 149 by decide +kernel]
    norm_num
  have hlast : roundDouble ((tick.toNat : ℚ) - 1) = (tick.toNat : ℚ) - 1 := by
    have hcast : (tick.toNat : ℚ) - 1 = ((tick.toNat - 1 : ℕ) : ℚ) := by
      rw [Nat.cast_sub hone, Nat.cast_one]
    rw [hcast, Lib.roundDouble_natCast (by omega)]
  have hreported : 0 ≤ roundDouble (roundDouble seenTick.toNat + (clamp seenFraction .zero .one).toRat) :=
    Lib.roundDouble_nonneg (add_nonneg (Lib.roundDouble_nonneg (Nat.cast_nonneg _)) (clamp_nonneg hfinite))
  simp only [roundedShootersDelay, Lib.roundDouble_natCast hsmall, hlast]
  generalize roundDouble (roundDouble seenTick.toNat + (clamp seenFraction .zero .one).toRat) = reported
    at hreported
  have hnow : (1 : ℚ) ≤ tick.toNat := by exact_mod_cast hone
  have hseen : 0 ≤ min reported ((tick.toNat : ℚ) - 1) := le_min hreported (by linarith)
  have hlate := min_le_right reported ((tick.toNat : ℚ) - 1)
  have hbound : |(tick.toNat : ℚ) - min reported ((tick.toNat : ℚ) - 1)| < 2 ^ 53 := by
    have hcast : (tick.toNat : ℚ) < 2 ^ 53 := by exact_mod_cast hsmall
    rw [abs_of_nonneg (by linarith)]
    linarith
  have hround : ((1 : ℤ) : ℚ) ≤ roundDouble ((tick.toNat : ℚ) - min reported ((tick.toNat : ℚ) - 1)) :=
    Lib.le_roundDouble hbound (by push_cast; linarith)
  rw [Int.cast_one] at hround
  obtain ⟨hleast, hmost⟩ := @Binary32.min_ofRat_bounds _ (zero_le_one.trans hround) .one _
    ⟨rfl, by decide⟩ (by decide) hcap (hunit.le.trans hround) (hunit.le.trans hcapone)
  exact ⟨hunit.ge.trans hleast, hmost.trans hcapmost⟩

end

/-- The time asked for is between the oldest and the newest tick kept, as the delay is. -/
theorem judgedTime_bounds {tick : Tick} (hsmall : tick.toNat < 2 ^ 53) {delay : Binary32} {kept : ℕ}
    (hkept : kept < 2 ^ 52) (hone : 1 ≤ delay.toRat) (hmost : delay.toRat ≤ kept) :
    (tick.toNat : ℚ) - kept ≤ judgedTime tick delay ∧ judgedTime tick delay ≤ (tick.toNat : ℚ) - 1 := by
  have hnow : (tick.toNat : ℚ) < 2 ^ 53 := by exact_mod_cast hsmall
  have hfew : (kept : ℚ) < 2 ^ 52 := by exact_mod_cast hkept
  have htick : (0 : ℚ) ≤ tick.toNat := Nat.cast_nonneg _
  have hbound : |(tick.toNat : ℚ) - delay.toRat| < 2 ^ 53 := by
    rw [abs_lt]
    constructor <;> linarith
  rw [judgedTime, Lib.roundDouble_natCast hsmall]
  have hlow := Lib.le_roundDouble hbound (n := (tick.toNat : ℤ) - kept) (by push_cast; linarith)
  have hhigh := Lib.roundDouble_le hbound (n := (tick.toNat : ℤ) - 1) (by push_cast; linarith)
  push_cast at hlow hhigh
  exact ⟨hlow, hhigh⟩

/-! ### The whole of it -/

/-- The oldest tick a history keeps. -/
def PoseHistory.oldestTick {𝕜 Joints : Type} {capacity : ℕ} (history : PoseHistory 𝕜 Joints capacity) :
    ℚ := history.newestTick.toNat - (history.entries.length - 1 : ℕ)

/-- What a Hitbox history is to a bullet at a tick rate. -/
structure HistoryServes (tickRateHz : UInt8) : Prop where
  /-- It answers as a plain list of the last poses, whatever the time. -/
  plain : ∀ {𝕜 Joints : Type} (between : Between 𝕜 Joints) (capacity : ℕ)
    (poses : ℕ → SkeletonPose 𝕜 Joints) (first : Tick) (count : ℕ), first.toNat + count ≤ 2 ^ 53 →
    ∀ time, (PoseHistory.recorded capacity poses first count).poseAtSlots between time =
      plainAt between (lastPoses capacity poses first.toNat count) time
  /-- A bullet fired on a tick, with any Seen time, asks on every tick of its flight for a time that
      the ticks recorded before it reach, from as far back as they are full. -/
  judged : ∀ {𝕜 Joints : Type} (poses : ℕ → SkeletonPose 𝕜 Joints) (first fired seenTick tick : Tick)
    (seenFraction : Binary32) (count : ℕ), seenFraction.isFinite = true → 1 ≤ fired.toNat →
    fired.toNat ≤ tick.toNat → tick.toNat < 2 ^ 53 → 0 < count → first.toNat + count = tick.toNat →
    let history := PoseHistory.recorded (hitboxHistoryTicks tickRateHz) poses first count
    let time := judgedTime tick
      (roundedShootersDelay fired seenTick seenFraction (shootersDelayCap tickRateHz))
    time ≤ history.newestTick.toNat ∧
      (hitboxHistoryTicks tickRateHz ≤ count → history.oldestTick ≤ time)

theorem historyServes_of_capFits {tickRateHz : UInt8} (hfits : CapFits tickRateHz) :
    HistoryServes tickRateHz := by
  refine ⟨fun between capacity poses first count hsize time =>
    poseAtSlots_recorded between poses (hsize.trans (by norm_num)) time, ?_⟩
  intro 𝕜 Joints poses first fired seenTick tick seenFraction count hfinite hfired hflight hsmall hcount
    hnow history time
  have hrate := tickRateHz.toNat_lt
  have hcapacity : 0 < hitboxHistoryTicks tickRateHz := by
    have hleast := hfits.1
    rw [hitboxHistoryTicks]
    omega
  obtain ⟨hone, hmost⟩ := roundedShootersDelay_bounds hfits hfired (lt_of_le_of_lt hflight hsmall) seenTick
    hfinite
  have hfew : hitboxHistoryTicks tickRateHz < 2 ^ 52 := by
    rw [hitboxHistoryTicks]
    omega
  obtain ⟨hlow, hhigh⟩ := judgedTime_bounds hsmall hfew hone hmost
  have hnewest : history.newestTick.toNat = tick.toNat - 1 := by
    rw [newestTick_recorded hcapacity hcount (by omega), hnow]
  have hcast : ((tick.toNat - 1 : ℕ) : ℚ) = (tick.toNat : ℚ) - 1 := by
    rw [Nat.cast_sub (by omega), Nat.cast_one]
  refine ⟨by rw [hnewest, hcast]; exact hhigh, fun hfull => ?_⟩
  rw [PoseHistory.oldestTick, hnewest, length_entries_recorded hcapacity, Nat.min_eq_right hfull, hcast,
    Nat.cast_sub hcapacity, Nat.cast_one]
  linarith

/-- A bullet whose shooter reports no Seen time, fired and judged on tick 100 against a player recorded
    from tick 1 on. -/
theorem not_historyServes {tickRateHz : UInt8} (hcapacity : 0 < hitboxHistoryTicks tickRateHz)
    (hfull : hitboxHistoryTicks tickRateHz ≤ 99)
    (houtside : 99 < judgedTime 100 (roundedShootersDelay 100 0 .zero (shootersDelayCap tickRateHz)) ∨
      judgedTime 100 (roundedShootersDelay 100 0 .zero (shootersDelayCap tickRateHz)) <
        100 - hitboxHistoryTicks tickRateHz) : ¬ HistoryServes tickRateHz := by
  intro h
  obtain ⟨hnewest, holdest⟩ := h.judged (𝕜 := ℚ) (fun _ => ⟨⟨fun _ => 0, 0, .standing⟩, ()⟩) 1 100 0 100
    .zero 99 rfl (by decide) (by decide) (by decide) (by decide) (by decide)
  have hfirst : (1 : Tick).toNat = 1 := rfl
  have htick : (PoseHistory.recorded (hitboxHistoryTicks tickRateHz)
      (fun _ => (⟨⟨fun _ => 0, 0, .standing⟩, ()⟩ : SkeletonPose ℚ Unit)) 1 99).newestTick.toNat = 99 :=
    newestTick_recorded hcapacity (by decide) (by decide)
  rw [htick] at hnewest
  have holdest := holdest hfull
  rw [PoseHistory.oldestTick, htick, length_entries_recorded hcapacity, Nat.min_eq_right hfull,
    Nat.cast_sub hcapacity] at holdest
  push_cast at hnewest holdest
  rcases houtside with hnew | hold
  · linarith
  · linarith

/-- At no rate whose cap does not fit: the cap is what such a bullet is judged with. -/
theorem outside_of_not_capFits : ∀ rate : ℕ, rate < 2 ^ 8 → 0 < rate →
    (rate < 4 ∨ rate ∈ [50, 90, 100, 170, 180, 190, 200, 210]) →
      let delay := roundedShootersDelay 100 0 .zero
        (((Binary32.ofInt 300).div (.ofInt 1000)).mul (.ofInt rate))
      99 < judgedTime 100 delay ∨ judgedTime 100 delay < 100 - ((300 * rate + 999) / 1000 : ℕ) := by
  intro rate _ hpos hrate
  have hcases : rate ∈ [1, 2, 3, 50, 90, 100, 170, 180, 190, 200, 210] := by
    simp only [List.mem_cons, List.not_mem_nil, or_false] at hrate ⊢
    omega
  have hall : ∀ rate ∈ [1, 2, 3, 50, 90, 100, 170, 180, 190, 200, 210],
      let delay := roundedShootersDelay 100 0 .zero
        (((Binary32.ofInt 300).div (.ofInt 1000)).mul (.ofInt (rate : ℕ)))
      99 < judgedTime 100 delay ∨ judgedTime 100 delay < 100 - ((300 * rate + 999) / 1000 : ℕ) := by
    decide +kernel
  exact hall rate hcases

/-- CORRECT: the Hitbox history answers as the last poses would, and holds all that a bullet asks
    for just at the tick rates whose cap fits it. -/
theorem history_serves {tickRateHz : UInt8} (hvalid : Parameters.isValidTickRate tickRateHz = true) :
    HistoryServes tickRateHz ↔ CapFits tickRateHz := by
  refine ⟨fun h => ?_, historyServes_of_capFits⟩
  by_contra hnot
  have hrate := tickRateHz.toNat_lt
  have hpos : 0 < tickRateHz.toNat := by
    rw [Parameters.isValidTickRate, decide_eq_true_iff] at hvalid
    exact UInt8.lt_iff_toNat_lt.mp hvalid
  rw [CapFits, not_and_or, not_not, not_le] at hnot
  refine not_historyServes ?_ ?_ (outside_of_not_capFits tickRateHz.toNat hrate hpos hnot) h
  · rw [hitboxHistoryTicks]
    omega
  · rw [hitboxHistoryTicks]
    omega

theorem history_serves_sixty : HistoryServes 60 ↔ CapFits 60 :=
  history_serves (by decide)

/-- At 50 Hz the float of 15 ticks is a little over them, and the time asked for before the oldest of
    the 15 kept; at 1 Hz the cap is three tenths of a tick, and the time after the newest. -/
theorem judged_outside_history :
    judgedTime 100 (roundedShootersDelay 100 0 .zero (shootersDelayCap 50)) < 100 - hitboxHistoryTicks 50 ∧
      99 < judgedTime 100 (roundedShootersDelay 100 0 .zero (shootersDelayCap 1)) ∧
      ¬ HistoryServes 50 ∧ ¬ HistoryServes 1 := by
  have hbefore : judgedTime 100 (roundedShootersDelay 100 0 .zero (shootersDelayCap 50)) <
      100 - hitboxHistoryTicks 50 := by decide +kernel
  have hafter : 99 < judgedTime 100 (roundedShootersDelay 100 0 .zero (shootersDelayCap 1)) := by
    decide +kernel
  exact ⟨hbefore, hafter, not_historyServes (by decide) (by decide) (.inr hbefore),
    not_historyServes (by decide) (by decide) (.inl hafter)⟩

end Augusta.Simulation
