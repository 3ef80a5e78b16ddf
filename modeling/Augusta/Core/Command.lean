import Augusta.Lib.Binary32

/-! The Command: one tick's player intent, in the shared core, and the numbers the parties give
    ticks and Commands. -/

namespace Augusta
open Lib (Binary32)

/-- A server tick's number, from 1 for the life of the process; wide enough never to wrap. -/
abbrev Tick := UInt64

/-- The number a client gives each Command, from 1; as wide as `Tick`. -/
abbrev Sequence := UInt64

/-- The server's name for a connected player, or for a Match: the 16 bytes of a UUID read as one
    number, nil being 0. -/
abbrev SessionId := ℕ

/-- The server's name for one dynamic body. -/
abbrev EntityId := UInt32

/-- The Link's name for one connection. -/
abbrev PeerId := UInt32

namespace Math

structure Vec3 where
  x : Binary32 := .zero
  y : Binary32 := .zero
  z : Binary32 := .zero
  deriving DecidableEq, Repr, Inhabited

def Vec3.isFinite (v : Vec3) : Bool := v.x.isFinite && v.y.isFinite && v.z.isFinite

end Math

namespace Physics

inductive Stance
  | standing | crouching | prone
  deriving DecidableEq, Repr, Inhabited

structure MovementInput where
  direction : Math.Vec3 := {}
  sprint : Bool := false
  desiredStance : Stance := .standing
  deriving DecidableEq, Repr, Inhabited

end Physics

/-- One tick's worth of player intent. -/
structure Command where
  movement : Physics.MovementInput := {}
  yaw : Binary32 := .zero
  pitch : Binary32 := .zero
  ads : Bool := false
  fire : Bool := false
  reload : Bool := false
  /-- What the client says its player was being shown: a server tick, and how far to the next. -/
  seenTick : Tick := 0
  seenFraction : Binary32 := .zero
  deriving DecidableEq, Repr, Inhabited

/-- `kMaxHeldTime` (100 ms) in ticks, rounded up so that the hold is never shorter. -/
def heldTicks (tickRateHz : UInt8) : ℕ := (100 * tickRateHz.toNat + 999) / 1000

end Augusta
