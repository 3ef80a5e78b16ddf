import Augusta.Lib.Ring
import Augusta.Math.Exact

/-! `augusta::simulation`'s Hitbox history: what is kept of a player's recent ticks, to judge a
    bullet against the player as its shooter saw it.

      ticks       … 41   42   43   44   45 = newest          capacity of them
      judged at           └──▲─┘                            between the two ticks around a time

    Over exact arithmetic, the Joints of a pose and how two are blended left open. -/

namespace Augusta.Simulation
open Lib (Ring)
open Math

/-! ### What a tick keeps -/

/-- `hitbox::Pose`. -/
structure Pose (𝕜 : Type) where
  position : Point 𝕜
  yaw : 𝕜
  stance : Physics.Stance
  deriving DecidableEq

/-- A character posed: its root, and each kept Joint relative to its parent. -/
structure SkeletonPose (𝕜 Joints : Type) where
  root : Pose 𝕜
  joints : Joints

structure PoseHistory (𝕜 Joints : Type) (capacity : ℕ) where
  kept : Option (Ring (SkeletonPose 𝕜 Joints) capacity) := none
  newestTick : Tick := 0

section
variable {𝕜 Joints : Type} {capacity : ℕ}

namespace PoseHistory
variable (history : PoseHistory 𝕜 Joints capacity)

/-- The poses kept, oldest first. -/
def entries : List (SkeletonPose 𝕜 Joints) :=
  match history.kept with
  | none => []
  | some ring => ring.toList

def record (tick : Tick) (posed : SkeletonPose 𝕜 Joints) : PoseHistory 𝕜 Joints capacity :=
  if h : 0 < capacity then
    match history.kept with
    | none => ⟨some (.single posed h), tick⟩
    | some ring => ⟨some (ring.push posed), tick⟩
  else history

end PoseHistory

variable [Field 𝕜] [LinearOrder 𝕜] [FloorRing 𝕜]

/-- How two ticks' Joints blend: their positions linearly, their rotations the shorter way. -/
abbrev BlendJoints (𝕜 Joints : Type) := Joints → Joints → 𝕜 → Joints

attribute [local instance] Lib.atLeastTwo_two in
/-- The pose a fraction of the way from one tick's to the next's. -/
def SkeletonPose.between (blendJoints : BlendJoints 𝕜 Joints) (source target : SkeletonPose 𝕜 Joints)
    (fraction : 𝕜) : SkeletonPose 𝕜 Joints where
  root :=
    { position := lerp source.root.position target.root.position fraction
      yaw := lerpAngle source.root.yaw target.root.yaw fraction
      stance := if fraction < 1 / 2 then source.root.stance else target.root.stance }
  joints := blendJoints source.joints target.joints fraction

/-- `PoseHistory::At`. -/
def PoseHistory.poseAt (blendJoints : BlendJoints 𝕜 Joints)
    (history : PoseHistory 𝕜 Joints capacity) (time : 𝕜) : Option (SkeletonPose 𝕜 Joints) :=
  let kept := history.entries
  let newest : 𝕜 := history.newestTick.toNat
  let oldest : 𝕜 := newest - (kept.length - 1 : ℕ)
  let held := max oldest (min time newest)
  let whole := ⌊held⌋
  let earlier := ⌊(whole : 𝕜) - oldest⌋.toNat
  let later := min (earlier + 1) (kept.length - 1)
  match kept[earlier]?, kept[later]? with
  | some source, some target => some (source.between blendJoints target (held - whole))
  | _, _ => none

end

/-! ### The Shooter's delay -/

/-- `MaxShootersDelayTicks`: `kMaxShootersDelay`, 300 ms. -/
def maxShootersDelayTicks (tickRateHz : UInt8) : ℚ := 300 / 1000 * tickRateHz.toNat

/-- The same, rounded up to whole ticks. -/
def hitboxHistoryTicks (tickRateHz : UInt8) : ℕ := (300 * tickRateHz.toNat + 999) / 1000

/-- How long before `tick` a round is judged, in ticks. -/
def shootersDelay (tick seenTick : Tick) (seenFraction maxDelay : ℚ) : ℚ :=
  let now : ℚ := tick.toNat
  let reported := (seenTick.toNat : ℚ) + max 0 (min seenFraction 1)
  let seen := min reported (now - 1)
  min (now - seen) maxDelay

theorem maxShootersDelayTicks_le (tickRateHz : UInt8) :
    maxShootersDelayTicks tickRateHz ≤ hitboxHistoryTicks tickRateHz := by
  have hle : 300 * tickRateHz.toNat ≤ 1000 * hitboxHistoryTicks tickRateHz := by
    rw [hitboxHistoryTicks]
    omega
  have hcast : (300 * tickRateHz.toNat : ℚ) ≤ 1000 * hitboxHistoryTicks tickRateHz := by
    exact_mod_cast hle
  rw [maxShootersDelayTicks]
  linarith

/-! ### What is kept of a run of ticks -/

/-- A history that recorded `count` ticks' poses, one after the other from `first` on. -/
def PoseHistory.recorded {𝕜 Joints : Type} (capacity : ℕ) (poses : ℕ → SkeletonPose 𝕜 Joints)
    (first : Tick) (count : ℕ) : PoseHistory 𝕜 Joints capacity :=
  (List.range count).foldl (fun history i =>
    history.record (first + UInt64.ofNat i) (poses (first.toNat + i))) {}

section
variable {𝕜 Joints : Type} {capacity : ℕ} {poses : ℕ → SkeletonPose 𝕜 Joints} {first : Tick}

theorem recorded_succ (count : ℕ) :
    PoseHistory.recorded capacity poses first (count + 1) =
      (PoseHistory.recorded capacity poses first count).record (first + UInt64.ofNat count)
        (poses (first.toNat + count)) := by
  rw [PoseHistory.recorded, List.range_succ, List.foldl_append]
  rfl

/-- Recording appends, and drops the oldest of a full history. -/
theorem entries_record (h : 0 < capacity) (history : PoseHistory 𝕜 Joints capacity) (tick : Tick)
    (posed : SkeletonPose 𝕜 Joints) : (history.record tick posed).entries =
      if history.entries.length < capacity then history.entries ++ [posed]
      else history.entries.tail ++ [posed] := by
  rw [PoseHistory.record, dif_pos h]
  rcases hkept : history.kept with _ | ring
  · simp only [PoseHistory.entries, hkept, List.length_nil, h, if_true, List.nil_append]
    rfl
  · simp only [PoseHistory.entries, hkept, Ring.toList_push, Ring.length_toList]

/-- What is kept: the newest `capacity` of the ticks recorded. -/
theorem entries_recorded (h : 0 < capacity) (count : ℕ) :
    (PoseHistory.recorded capacity poses first count).entries =
      ((List.range count).map fun i => poses (first.toNat + i)).drop (count - capacity) := by
  induction count with
  | zero =>
      rw [List.range_zero, List.map_nil, List.drop_nil]
      rfl
  | succ count ih =>
      rw [recorded_succ, entries_record h, ih, List.length_drop, List.length_map, List.length_range,
        List.range_succ, List.map_append, List.map_singleton]
      split_ifs with hroom
      · have hnone : count + 1 - capacity = 0 := by omega
        have hnone' : count - capacity = 0 := by omega
        rw [hnone, hnone', List.drop_zero, List.drop_zero]
      · have hone : count + 1 - capacity = count - capacity + 1 := by omega
        have hinside : count - capacity + 1 ≤
            ((List.range count).map fun i => poses (first.toNat + i)).length := by
          rw [List.length_map, List.length_range]
          omega
        rw [hone, List.tail_drop, List.drop_append_of_le_length hinside]

theorem length_entries_recorded (h : 0 < capacity) (count : ℕ) :
    (PoseHistory.recorded capacity poses first count).entries.length = min count capacity := by
  rw [entries_recorded h, List.length_drop, List.length_map, List.length_range]
  omega

theorem getElem?_entries_recorded (poses : ℕ → SkeletonPose 𝕜 Joints) (first : Tick)
    (h : 0 < capacity) {count i : ℕ} (hi : i < min count capacity) :
    (PoseHistory.recorded capacity poses first count).entries[i]? =
      some (poses (first.toNat + (count - capacity + i))) := by
  rw [entries_recorded h, List.getElem?_drop, List.getElem?_map, List.getElem?_range (by omega)]
  rfl

theorem newestTick_recorded (h : 0 < capacity) {count : ℕ} (hcount : 0 < count)
    (hsize : first.toNat + count ≤ 2 ^ 64) :
    (PoseHistory.recorded capacity poses first count).newestTick.toNat =
      first.toNat + count - 1 := by
  obtain ⟨last, rfl⟩ : ∃ last, count = last + 1 := ⟨count - 1, by omega⟩
  have htick : (PoseHistory.recorded capacity poses first (last + 1)).newestTick =
      first + UInt64.ofNat last := by
    rw [recorded_succ, PoseHistory.record, dif_pos h]
    split <;> rfl
  rw [htick, UInt64.toNat_add, UInt64.toNat_ofNat']
  omega

/-! ### What is judged -/

variable [Field 𝕜] [LinearOrder 𝕜] [IsStrictOrderedRing 𝕜] [FloorRing 𝕜]

/-- At a time within the ticks kept, the pose is between the two ticks around it; the newest is
    held. -/
theorem poseAt_recorded (blendJoints : BlendJoints 𝕜 Joints) (poses : ℕ → SkeletonPose 𝕜 Joints)
    (first : Tick) (h : 0 < capacity) {count e : ℕ}
    (hsize : first.toNat + count ≤ 2 ^ 64) (hfirst : first.toNat ≤ e)
    (hkept : first.toNat + count ≤ e + capacity) (hlast : e < first.toNat + count) {fraction : 𝕜}
    (hnonneg : 0 ≤ fraction) (hlt : fraction < 1)
    (hnewest : e + 1 = first.toNat + count → fraction = 0) :
    (PoseHistory.recorded capacity poses first count).poseAt blendJoints (e + fraction) =
      some ((poses e).between blendJoints (poses (min (e + 1) (first.toNat + count - 1)))
        fraction) := by
  have hcount : 0 < count := by omega
  obtain ⟨oldest, holdest⟩ : ∃ oldest, oldest = first.toNat + count - min count capacity := ⟨_, rfl⟩
  have hlower : ((first.toNat + count - 1 : ℕ) : 𝕜) - ((min count capacity - 1 : ℕ) : 𝕜) =
      (oldest : 𝕜) := by
    rw [← Nat.cast_sub (by omega)]
    congr 1
    omega
  have hupper : (e : 𝕜) + fraction ≤ ((first.toNat + count - 1 : ℕ) : 𝕜) := by
    rcases Nat.lt_or_ge (e + 1) (first.toNat + count) with hinside | hend
    · have hcast : ((e + 1 : ℕ) : 𝕜) ≤ ((first.toNat + count - 1 : ℕ) : 𝕜) := by
        exact_mod_cast Nat.le_sub_one_of_lt hinside
      push_cast at hcast ⊢
      linarith
    · rw [hnewest (by omega), add_zero]
      exact_mod_cast Nat.le_sub_one_of_lt hlast
  have hreached : (oldest : 𝕜) ≤ e + fraction := by
    have hcast : (oldest : 𝕜) ≤ e := by exact_mod_cast (by omega : oldest ≤ e)
    linarith
  have hfloor : ⌊(e : 𝕜) + fraction⌋ = (e : ℤ) := by
    rw [Int.floor_eq_iff, Int.cast_natCast]
    constructor <;> linarith
  have hindex : ⌊(e : 𝕜) - (oldest : 𝕜)⌋.toNat = e - oldest := by
    rw [← Nat.cast_sub (by omega), Int.floor_natCast, Int.toNat_natCast]
  have hearlier := getElem?_entries_recorded poses first h
    (show e - oldest < min count capacity by omega)
  have hlater := getElem?_entries_recorded poses first h
    (show min (e - oldest + 1) (min count capacity - 1) < min count capacity by omega)
  rw [show first.toNat + (count - capacity + (e - oldest)) = e by omega] at hearlier
  rw [show first.toNat + (count - capacity + min (e - oldest + 1) (min count capacity - 1)) =
    min (e + 1) (first.toNat + count - 1) by omega] at hlater
  simp only [PoseHistory.poseAt, length_entries_recorded h, newestTick_recorded h hcount hsize,
    hlower, min_eq_left hupper, max_eq_right hreached, hfloor, hindex, hearlier, hlater,
    Int.cast_natCast, add_sub_cancel_left]

/-- No way on, the earlier tick's pose is the pose. -/
theorem between_root_zero (blendJoints : BlendJoints 𝕜 Joints)
    (source target : SkeletonPose 𝕜 Joints) :
    (source.between blendJoints target 0).root = source.root := by
  simp only [SkeletonPose.between, lerp_zero, lerpAngle_zero]
  rw [if_pos (by norm_num)]

end
end Augusta.Simulation
