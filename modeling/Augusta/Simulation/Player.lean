import Augusta.Prediction.Prediction

/-! `augusta::simulation`: what a player's Commands move of it in the server's World.

      CommandIngestion ─▶ Movement ─▶ WeaponHandling
      intent, facing      its body    its rifle, and the round it fired

    The same physics and the same rifle as the client's prediction steps. -/

namespace Augusta.Simulation
open Lib (Binary32)
open Prediction (Scene Rules)

structure Facing where
  yaw : Binary32 := .zero
  pitch : Binary32 := .zero
  ads : Bool := false
  deriving DecidableEq, Repr

/-- A player's body in physics, and its state as the World holds it. -/
structure Body where
  record : Physics.BodyRecord
  state : Physics.BodyState
  deriving DecidableEq, Repr

/-- What a player's Commands move of it. -/
structure Mover where
  body : Body
  intent : Physics.MovementInput := {}
  facing : Facing := {}
  rifle : Weapon.State
  deriving DecidableEq, Repr

/-- A player put in the World at `spawn`. -/
def Mover.spawned (rules : Rules) (spawn : Math.Vec3) : Mover where
  body := ⟨Physics.createBody spawn, { position := spawn }⟩
  rifle := Weapon.loaded rules.rifle

namespace Mover
variable (scene : Scene) (rules : Rules) (mover : Mover)

/-- A player with no Command this tick stops, and keeps all else. -/
def onCommandIngestion : Option Command → Mover
  | none => { mover with intent := { mover.intent with direction := {}, sprint := false } }
  | some command =>
      { mover with
        intent := command.movement
        facing := ⟨Math.snapAngle command.yaw, Math.snapAngle command.pitch, command.ads⟩ }

def onMovement : Mover :=
  let record := Physics.step scene.collision rules.stamina mover.body.record mover.intent
    scene.deltaTime (scene.clips.pacingOf mover.body.state mover.facing.yaw)
  { mover with body := ⟨record, record.state⟩ }

/-- The rifle of a player with no Command only waits. -/
def onWeaponHandling (command : Option Command) : Weapon.Result :=
  Weapon.step rules.rifle mover.rifle (command.getD {}) scene.deltaTime

def tick (command : Option Command) : Mover :=
  let moved := (mover.onCommandIngestion command).onMovement scene rules
  { moved with rifle := (moved.onWeaponHandling scene rules command).state }

/-- The player as its client would have predicted it. -/
def now : Prediction.Predicted := ⟨mover.body.record, mover.rifle⟩

end Mover
end Augusta.Simulation
