import Augusta.Lib.Log
import Augusta.Presentation.Interpolation

/-! `augusta::presentation::World`: what of the other players a frame records, shows and says it
    showed.

      frame :  clock on ─▶ record the updates since the last ─▶ Sample at Now() − delay
                                                             └▶ the same time, in ticks: Seen time

    A run keeps, beside the World, every update recorded in the Match: what the ring drops too. -/

namespace Augusta.Presentation
open Lib (Binary32)

structure DynamicBody where
  entity : EntityId
  state : Physics.BodyState := {}
  yaw : Binary32 := .zero
  pitch : Binary32 := .zero
  ads : Bool := false
  deriving DecidableEq, Repr

/-- Every dynamic body as of one server tick. -/
structure WorldSnapshot where
  tick : Tick
  bodies : List DynamicBody
  deriving DecidableEq, Repr

/-- What a render frame is given. -/
structure Frame where
  elapsed : ℚ
  localEntity : Option EntityId := none
  /-- The Authoritative State updates of the match in progress, oldest first; none outside one. -/
  updates : List WorldSnapshot := []
  deaths : List EntityId := []

structure World where
  interpolator : RemoteInterpolator := {}
  clock : ServerClock := {}
  firstRecordedTick : Option Tick := none
  lastRecordedTick : Option Tick := none
  remotePlayers : List RemotePlayer := []
  seenTime : Option SeenTime := none
  dead : List EntityId := []

/-- A server's tick, in seconds. -/
def tickDurationOf (tickRateHz : UInt8) : ℚ := 1 / (tickRateHz.toNat : ℚ)

def serverTimeOf (tickDuration : ℚ) (tick : Tick) : ℚ := tick.toNat * tickDuration

/-- A snapshot's updates: every body's but the local player's. -/
def WorldSnapshot.recorded (tickDuration : ℚ) (localEntity : Option EntityId)
    (snapshot : WorldSnapshot) : List (EntityId × Update) :=
  (snapshot.bodies.filter fun body => some body.entity ≠ localEntity).map fun body =>
    (body.entity, ⟨serverTimeOf tickDuration snapshot.tick, body.state,
      ⟨body.yaw, body.pitch, body.ads⟩⟩)

namespace World
variable (tickDuration : ℚ)

def recordUpdate (localEntity : Option EntityId) (world : World) (snapshot : WorldSnapshot) :
    World :=
  let present := snapshot.recorded tickDuration localEntity
  { world with
    clock := world.clock.observe (serverTimeOf tickDuration snapshot.tick)
    interpolator := (present.foldl (fun interpolator (entity, update) =>
      interpolator.record entity update) world.interpolator).sync (present.map (·.1))
    firstRecordedTick := some (world.firstRecordedTick.getD snapshot.tick)
    lastRecordedTick := some snapshot.tick }

/-- Whether a snapshot is newer than the last recorded. -/
def isNew (world : World) (snapshot : WorldSnapshot) : Bool :=
  match world.lastRecordedTick with
  | none => true
  | some last => last < snapshot.tick

/-- The frame's clock, and outside a match nothing of one. -/
def begun (world : World) (frame : Frame) : World :=
  let clock := world.clock.advance frame.elapsed
  if frame.updates.isEmpty then
    { world with
      clock := {}, interpolator := world.interpolator.sync [], firstRecordedTick := none
      lastRecordedTick := none, dead := [] }
  else { world with clock }

/-- What the frame shows, of what it has recorded. -/
def shown (floats : Floats) (world : World) (frame : Frame) : World :=
  let dead := world.dead ++ frame.deaths
  match world.clock.now, world.firstRecordedTick, world.lastRecordedTick with
  | some now, some first, some last =>
      if frame.updates.isEmpty then { world with remotePlayers := [], seenTime := none, dead }
      else
        let sampleTime := now - kInterpolationDelay
        let players := (world.interpolator.sample floats sampleTime).filter fun player =>
          player.entity ∉ dead
        { world with
          remotePlayers := players
          seenTime := some (seenTimeAt sampleTime tickDuration first last)
          dead }
  | _, _, _ => { world with remotePlayers := [], seenTime := none, dead }

end World

/-! ### Runs of frames -/

/-- A World, and every update recorded in the Match, oldest first. -/
structure Watched where
  world : World := {}
  log : List (EntityId × Update) := []

/-- A player's update is one of the Match's if it is newer than all of its before. -/
def logUpdate (log : List (EntityId × Update)) (entry : EntityId × Update) :
    List (EntityId × Update) :=
  if (Lib.entriesOf entry.1 log).all fun earlier => earlier.serverTime < entry.2.serverTime then
    log ++ [entry]
  else log

namespace Watched
variable (floats : Floats) (tickDuration : ℚ)

def record (localEntity : Option EntityId) (watched : Watched) (snapshot : WorldSnapshot) :
    Watched :=
  if watched.world.isNew snapshot then
    { world := watched.world.recordUpdate tickDuration localEntity snapshot
      log := (snapshot.recorded tickDuration localEntity).foldl logUpdate watched.log }
  else watched

/-- All that comes before a frame is sampled. -/
def recordAll (watched : Watched) (frame : Frame) : Watched :=
  frame.updates.foldl (record tickDuration frame.localEntity)
    ⟨watched.world.begun frame, if frame.updates.isEmpty then [] else watched.log⟩

/-- `OnInterpolation`. -/
def frame (watched : Watched) (frame : Frame) : Watched :=
  let recorded := watched.recordAll tickDuration frame
  { recorded with world := recorded.world.shown tickDuration floats frame }

def run (watched : Watched) (frames : List Frame) : Watched :=
  frames.foldl (Watched.frame floats tickDuration) watched

end Watched
end Augusta.Presentation
