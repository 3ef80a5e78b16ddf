import Augusta.Prediction.Reconciliation

/-! `augusta::prediction::World`: what a client shows of its own player before the server answers.

      tick :  Reconciliation ─▶ Movement ─▶ WeaponHandling ─▶ Commit
              server's state,    this tick's Command           kept for the
              Commands since                                   server's answer

    The fall does not travel: a body put at the server's state falls on as the client remembers. -/

namespace Augusta.Prediction
open Lib (Binary32)

/-- 1 mm. -/
def kPositionTolerance : Binary32 := ⟨0x3A83126F⟩

def kStaminaTolerance : Binary32 := ⟨0x3A83126F⟩

def kStrideTolerance : ℕ := 1

/-- How far apart two Strides are, the short way round the cycle. -/
def strideDistance (a b : UInt8) : ℕ :=
  let ahead := (a.toNat + Physics.kStrideSteps - b.toNat) % Physics.kStrideSteps
  min ahead (Physics.kStrideSteps - ahead)

def bodyNeedsCorrection (authoritative predicted : Physics.BodyState) : Bool :=
  kPositionTolerance.le (authoritative.position.sub predicted.position).length ||
    authoritative.stance ≠ predicted.stance || authoritative.exhausted ≠ predicted.exhausted ||
    authoritative.grounded ≠ predicted.grounded ||
    kStaminaTolerance.le (authoritative.stamina.sub predicted.stamina).abs ||
    kStrideTolerance < strideDistance authoritative.stride predicted.stride ||
    authoritative.previousStance ≠ predicted.previousStance ||
    authoritative.stanceProgress ≠ predicted.stanceProgress

/-- What the server has told the client of its own player, after the Command with this sequence. -/
structure Acknowledgement where
  sequence : Sequence := 0
  body : Physics.BodyState := {}
  rifle : Weapon.State := {}
  deriving DecidableEq, Repr

/-- The Prediction State. -/
structure State where
  localBody : Physics.BodyState := {}
  totalCorrection : Math.Vec3 := {}
  rifle : Weapon.State := {}
  rifleCorrections : UInt32 := 0
  totalRoundsFired : UInt32 := 0
  roundsFired : UInt8 := 0
  deriving DecidableEq, Repr

/-- A Character's Clips, as far as they pace its movement: a Stride's length at a stance, a velocity
    and a yaw, and how long each change of stance takes. -/
structure Clips where
  strideLength : Physics.Stance → Math.Vec3 → Binary32 → Binary32
  transitions : Physics.StanceTransitions

/-- `PacingOf`. -/
def Clips.pacingOf (clips : Clips) (body : Physics.BodyState) (yaw : Binary32) : Physics.Pacing where
  strideLength := clips.strideLength body.stance body.velocity yaw
  transitions := clips.transitions

/-- What does not change while a World lives: the Map, the player's Clips and a tick's length. -/
structure Scene where
  collision : Physics.Collision
  clips : Clips
  deltaTime : Binary32

/-- The values a server plays its Match by. -/
structure Rules where
  stamina : Physics.StaminaConfig := {}
  rifle : Weapon.Rifle := {}

structure World where
  rules : Rules := {}
  /-- The body and the rifle as they are now. -/
  localPlayer : Predicted := { body := Physics.createBody {} }
  tickState : State := {}
  history : History := {}

section
variable (scene : Scene) (rules : Rules)

/-- `Move`: the local body, which `body` is the state of, by `command`. -/
def move (record : Physics.BodyRecord) (body : Physics.BodyState) (command : Command) :
    Physics.BodyRecord :=
  Physics.step scene.collision rules.stamina record command.movement scene.deltaTime
    (scene.clips.pacingOf body (Math.snapAngle command.yaw))

/-- One Command's Movement and WeaponHandling. -/
def predict (now : Predicted) (command : Command) : Predicted where
  body := move scene rules now.body now.body.state command
  rifle := (Weapon.step rules.rifle now.rifle command scene.deltaTime).state

end

namespace World
variable (scene : Scene) (world : World)

/-- Whether the server's state is not the one predicted after the same Command. -/
def needsCorrection (acknowledgement : Acknowledgement) (predicted : Predicted) : Bool :=
  bodyNeedsCorrection acknowledgement.body predicted.body.state ||
    !acknowledgement.rifle.eq predicted.rifle

/-- The player put at the server's state, falling as it was predicted to. -/
def restored (acknowledgement : Acknowledgement) (predicted : Predicted) : Predicted where
  body := Physics.restore acknowledgement.body predicted.body.verticalSpeed
  rifle := acknowledgement.rifle

/-- Puts the player at the server's state and steps it through the Commands sent since. -/
def correct (acknowledgement : Acknowledgement) (predicted : Predicted) : World :=
  let replayed := world.history.replay (predict scene world.rules)
    (restored acknowledgement predicted)
  let body := replayed.2.body.state
  { world with
    history := replayed.1
    localPlayer := replayed.2
    tickState := { world.tickState with
      totalCorrection := world.tickState.totalCorrection.add
        (body.position.sub world.tickState.localBody.position)
      localBody := body
      rifleCorrections := world.tickState.rifleCorrections +
        if acknowledgement.rifle.eq predicted.rifle then 0 else 1 } }

def onReconciliation : Option Acknowledgement → World
  | none => world
  | some acknowledgement =>
      match world.history.acknowledge acknowledgement.sequence with
      | (none, history) => { world with history }
      | (some predicted, history) =>
          if needsCorrection acknowledgement predicted then
            { world with history }.correct scene acknowledgement predicted
          else { world with history }

def onMovement (command : Command) : World :=
  let body := move scene world.rules world.localPlayer.body world.tickState.localBody command
  { world with
    localPlayer := { world.localPlayer with body }
    tickState := { world.tickState with localBody := body.state } }

def onWeaponHandling (command : Command) : World :=
  let result := Weapon.step world.rules.rifle world.localPlayer.rifle command scene.deltaTime
  let roundsFired := if result.fired then 1 else 0
  { world with
    localPlayer := { world.localPlayer with rifle := result.state }
    tickState := { world.tickState with
      rifle := result.state
      roundsFired
      totalRoundsFired := world.tickState.totalRoundsFired + roundsFired.toUInt32 } }

/-- A Command that is not sent is numbered 0, and no answer to it is awaited. -/
def onCommit (sequence : Sequence) (command : Command) : World :=
  if sequence ≠ 0 then
    { world with history := world.history.record sequence command world.localPlayer }
  else world

/-- The player starts over at `spawn`; the running totals are kept. -/
def start (spawn : Math.Vec3) (parameters : Parameters) : World :=
  let body : Physics.BodyState := { position := spawn }
  let rifle := Weapon.loaded parameters.rifle
  { world with
    rules := ⟨parameters.stamina, parameters.rifle⟩
    localPlayer := ⟨Physics.setState body, rifle⟩
    history := {}
    tickState := { world.tickState with localBody := body, rifle, roundsFired := 0 } }

/-- One fixed tick. -/
def tick (command : Command) (sequence : Sequence) (acknowledgement : Option Acknowledgement) :
    World :=
  (((world.onReconciliation scene acknowledgement).onMovement scene command).onWeaponHandling scene
    command).onCommit sequence command

end World
end Augusta.Prediction
