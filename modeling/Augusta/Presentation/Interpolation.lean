import Augusta.Lib.Arithmetic
import Augusta.Lib.Ring
import Augusta.Link.Messages
import Mathlib.Algebra.Order.Floor.Ring
import Mathlib.Data.Rat.Floor

/-! `augusta::presentation`'s interpolation: the other players, a little behind the server's time.

      updates of one player    u₁   u₂       u₃ u₄            u₅ …
      on the server's timeline ─┴────┴───▲────┴──┴─────────────┴──▶  tick × tick duration
                                         └ Now() − kInterpolationDelay: between u₂ and u₃

    Times are exact: the clock's doubles are taken for the numbers they stand for. -/

namespace Augusta.Presentation
open Lib (Binary32 Ring)

/-! ### What is fixed -/

/-- 100 ms -/
def kInterpolationDelay : ℚ := 1 / 10

def kFastestTickRateHz : ℕ := 255

def kUpdatesKept : ℕ := ⌊kInterpolationDelay * kFastestTickRateHz⌋.toNat + 3

theorem kUpdatesKept_eq : kUpdatesKept = 28 := by
  norm_num [kUpdatesKept, kInterpolationDelay, kFastestTickRateHz]
  rfl

/-! ### The server's time, as frames follow it -/

structure ServerClock where
  now : Option ℚ := none
  /-- How far the server time last observed was ahead of the clock, less what has been caught up. -/
  behind : ℚ := 0

namespace ServerClock

def kSlew : ℚ := 2 / 100

def kFastSlew : ℚ := 10 / 100

def kFastSlewBeyond : ℚ := 5 / 100

def kResyncThreshold : ℚ := 25 / 100

def advance (clock : ServerClock) (elapsed : ℚ) : ServerClock :=
  match clock.now with
  | none => clock
  | some now =>
      let limit := (if kFastSlewBeyond < |clock.behind| then kFastSlew else kSlew) * elapsed
      let catchUp := max (-limit) (min clock.behind limit)
      { clock with now := some (now + (elapsed + catchUp)), behind := clock.behind - catchUp }

def observe (clock : ServerClock) (serverTime : ℚ) : ServerClock :=
  match clock.now with
  | none => ⟨some serverTime, 0⟩
  | some now =>
      if kResyncThreshold < |serverTime - now| then ⟨some serverTime, 0⟩
      else { clock with behind := serverTime - now }

end ServerClock

structure SeenTime where
  tick : Tick
  fraction : ℚ
  deriving DecidableEq

/-- Ticks, held within the first and the last there is to show. -/
def clampTicks (sampleTime tickDuration : ℚ) (oldestTick newestTick : Tick) : ℚ :=
  max (oldestTick.toNat : ℚ) (min (sampleTime / tickDuration) newestTick.toNat)

def seenTimeAt (sampleTime tickDuration : ℚ) (oldestTick newestTick : Tick) : SeenTime :=
  let ticks := clampTicks sampleTime tickDuration oldestTick newestTick
  ⟨UInt64.ofNat ⌊ticks⌋.toNat, ticks - ⌊ticks⌋⟩

/-- The moment of the server's timeline it is. -/
def SeenTime.time (seen : SeenTime) (tickDuration : ℚ) : ℚ :=
  (seen.tick.toNat + seen.fraction) * tickDuration

/-! ### A body between two updates -/

structure Aim where
  yaw : Binary32 := .zero
  pitch : Binary32 := .zero
  ads : Bool := false
  deriving DecidableEq, Repr

structure RemoteBody where
  position : Math.Vec3
  velocity : Math.Vec3
  yaw : Binary32
  pitch : Binary32
  stance : Physics.Stance
  ads : Bool
  stride : UInt8
  previousStance : Physics.Stance
  stanceProgress : UInt8
  grounded : Bool
  deriving DecidableEq, Repr

structure Update where
  serverTime : ℚ
  body : Physics.BodyState
  aim : Aim := {}
  deriving DecidableEq

/-- The float functions of the platform that bodies are blended by: `glm::mix`, `std::lerp` and
    `std::remainder`. -/
structure Floats where
  mix : Math.Vec3 → Math.Vec3 → Binary32 → Math.Vec3
  lerp : Binary32 → Binary32 → Binary32 → Binary32
  remainder : Binary32 → Binary32 → Binary32

/-- 0.5 -/
def kMidpointFraction : Binary32 := ⟨0x3F000000⟩

def kStrideSteps : ℤ := 256

/-- 2π as a binary32. -/
def kTurn : Binary32 := ⟨0x40C90FDB⟩

/-- The float nearest a number. -/
def toFloat (q : ℚ) : Binary32 := .ofRatio (q < 0) (q.num.natAbs * 2 ^ 149) q.den

def Update.asRemote (update : Update) : RemoteBody where
  position := update.body.position
  velocity := update.body.velocity
  yaw := update.aim.yaw
  pitch := update.aim.pitch
  stance := update.body.stance
  ads := update.aim.ads
  stride := update.body.stride
  previousStance := update.body.previousStance
  stanceProgress := update.body.stanceProgress
  grounded := update.body.grounded

/-- The Stride `t` of the way from `source` to `target`, the shorter way round its cycle. -/
def lerpStride (source target : UInt8) (t : Binary32) : UInt8 :=
  let halfCycle := kStrideSteps / 2
  let on : ℤ := (target.toNat - source.toNat + halfCycle + kStrideSteps) % kStrideSteps - halfCycle
  let moved := ((Binary32.ofInt on).mul t).roundAway
  UInt8.ofInt ((source.toNat + moved + kStrideSteps) % kStrideSteps)

section
variable (floats : Floats)

def lerpAngle (source target t : Binary32) : Binary32 :=
  source.add ((floats.remainder (target.sub source) kTurn).mul t)

/-- `Between`. -/
def between (earlier later : Update) (t : Binary32) : RemoteBody :=
  let nearer := if t.lt kMidpointFraction then earlier.asRemote else later.asRemote
  { nearer with
    position := floats.mix earlier.body.position later.body.position t
    velocity := floats.mix earlier.body.velocity later.body.velocity t
    yaw := lerpAngle floats earlier.aim.yaw later.aim.yaw t
    pitch := floats.lerp earlier.aim.pitch later.aim.pitch t
    stride := lerpStride earlier.body.stride later.body.stride t
    stanceProgress :=
      if earlier.body.stance = later.body.stance ∧
          earlier.body.previousStance = later.body.previousStance then
        UInt8.ofInt (floats.lerp (.ofInt earlier.body.stanceProgress.toNat)
          (.ofInt later.body.stanceProgress.toNat) t).roundAway
      else nearer.stanceProgress }

/-- The body the way through two updates that a time between them is. -/
def betweenAt (earlier later : Update) (time : ℚ) : RemoteBody :=
  between floats earlier later
    (toFloat ((time - earlier.serverTime) / (later.serverTime - earlier.serverTime)))

/-! ### The updates kept -/

abbrev History := Ring Update kUpdatesKept

/-- One kept player, as it is shown at a time: between the updates that surround it, or held at the
    nearer end. -/
def sampleUpdates (updates : List Update) (sampleTime : ℚ) : Option RemoteBody :=
  let later := (updates.takeWhile fun update => update.serverTime ≤ sampleTime).length
  if later = 0 then updates.head?.map (·.asRemote)
  else
    match updates[later - 1]?, updates[later]? with
    | some earlier, some next => some (betweenAt floats earlier next sampleTime)
    | some newest, none => some newest.asRemote
    | none, _ => none

structure Buffered where
  entity : EntityId
  updates : History

/-- An update of a player already buffered is kept if it is newer than its newest. -/
def Buffered.takeUpdate (update : Update) (buffered : Buffered) : Buffered :=
  match buffered.updates.toList.getLast? with
  | none => buffered
  | some newest =>
      if newest.serverTime < update.serverTime then
        { buffered with updates := buffered.updates.push update }
      else buffered

structure RemotePlayer where
  entity : EntityId
  body : RemoteBody
  deriving DecidableEq

/-- The bodies buffered, in the order each was first recorded. -/
structure RemoteInterpolator where
  bodies : List Buffered := []

namespace RemoteInterpolator
variable (interpolator : RemoteInterpolator)

def record (entity : EntityId) (update : Update) : RemoteInterpolator :=
  if interpolator.bodies.any fun buffered => buffered.entity = entity then
    ⟨interpolator.bodies.map fun buffered =>
      if buffered.entity = entity then buffered.takeUpdate update else buffered⟩
  else
    ⟨interpolator.bodies ++ [⟨entity, .single update (by rw [kUpdatesKept_eq]; omega)⟩]⟩

/-- Forgets everyone not in `current`. -/
def sync (current : List EntityId) : RemoteInterpolator :=
  ⟨interpolator.bodies.filter fun buffered => buffered.entity ∈ current⟩

def sample (sampleTime : ℚ) : List RemotePlayer :=
  interpolator.bodies.filterMap fun buffered =>
    (sampleUpdates floats buffered.updates.toList sampleTime).map fun body => ⟨buffered.entity, body⟩

end RemoteInterpolator
end
end Augusta.Presentation
