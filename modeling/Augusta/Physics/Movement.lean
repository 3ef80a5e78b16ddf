import Augusta.Link.Messages
import Augusta.Math.Grid
import Augusta.Math.Vec3

/-! `augusta::physics::World`: one body, stepped by what its player commands.

      Step :  stance ─▶ stamina ─▶ fall ─▶ move against the Map ─▶ onto the wire's grids

    What a body is sent as is all of it but its fall: the speed it comes down at. Where the Map lets
    a capsule go is PhysX's to say. -/

namespace Augusta.Physics
open Lib (Binary32)

/-- -9.81 -/
def kGravity : Binary32 := ⟨0xC11CF5C3⟩

/-- 1.5 -/
def kStandingHeight : Binary32 := ⟨0x3FC00000⟩

/-- 0.7 -/
def kCrouchingHeight : Binary32 := ⟨0x3F333333⟩

/-- 0.1 -/
def kProneHeight : Binary32 := ⟨0x3DCCCCCD⟩

/-- 3 m/s -/
def kWalkSpeed : Binary32 := ⟨0x40400000⟩

/-- 1.6 -/
def kSprintMultiplier : Binary32 := ⟨0x3FCCCCCD⟩

/-- 0.6 -/
def kCrouchSpeedMultiplier : Binary32 := ⟨0x3F19999A⟩

/-- 0.3 -/
def kProneSpeedMultiplier : Binary32 := ⟨0x3E99999A⟩

def kStrideSteps : ℕ := 256

def kStanceProgressSteps : UInt8 := 255

def heightForStance : Stance → Binary32
  | .standing => kStandingHeight
  | .crouching => kCrouchingHeight
  | .prone => kProneHeight

def speedMultiplierForStance : Stance → Binary32
  | .standing => .one
  | .crouching => kCrouchSpeedMultiplier
  | .prone => kProneSpeedMultiplier

structure StaminaResult where
  sprinting : Bool
  stamina : Binary32
  exhausted : Bool

def resolveStamina (sprintRequested standingAndMoving : Bool) (currentStamina : Binary32)
    (currentlyExhausted : Bool) (config : StaminaConfig) (deltaTime : Binary32) : StaminaResult :=
  let sprinting := sprintRequested && standingAndMoving && !currentlyExhausted
  let stamina :=
    if sprinting then
      Binary32.zero.max (currentStamina.sub (config.depletePerSecond.mul deltaTime))
    else Binary32.one.min (currentStamina.add (config.regenPerSecond.mul deltaTime))
  { sprinting
    stamina
    exhausted := if currentlyExhausted then stamina.le config.forcedWalkBelow
      else stamina.le .zero }

def resolveSpeed (stance : Stance) (sprinting : Bool) : Binary32 :=
  let speed := kWalkSpeed.mul (speedMultiplierForStance stance)
  if sprinting && stance = .standing then speed.mul kSprintMultiplier else speed

def advanceStride (stride : UInt8) (moved : Math.Vec3) (strideLength : Binary32) : UInt8 :=
  if ¬ Binary32.zero.lt strideLength then stride
  else
    let ground := Math.Vec3.length ⟨moved.x, .zero, moved.z⟩
    let steps := ((ground.div strideLength).mul (.ofInt kStrideSteps)).roundAway
    UInt8.ofInt ((stride.toNat + steps) % kStrideSteps)

def advanceStanceProgress (progress : UInt8) (deltaTime duration : Binary32) : UInt8 :=
  if ¬ Binary32.zero.lt duration then kStanceProgressSteps
  else
    let steps := ((deltaTime.div duration).mul (.ofInt kStanceProgressSteps.toNat)).roundAway
    UInt8.ofInt (min (progress.toNat + steps) kStanceProgressSteps.toNat)

/-- How long each change between two stances takes, in seconds. -/
structure StanceTransitions where
  standingCrouching : Binary32 := .zero
  standingProne : Binary32 := .zero
  crouchingProne : Binary32 := .zero
  deriving DecidableEq, Repr

def transitionDuration (transitions : StanceTransitions) (source target : Stance) : Binary32 :=
  if source = target then .zero
  else if source ≠ .prone ∧ target ≠ .prone then transitions.standingCrouching
  else if source ≠ .crouching ∧ target ≠ .crouching then transitions.standingProne
  else transitions.crouchingProne

/-- What a body's Clips pace its movement by. -/
structure Pacing where
  strideLength : Binary32 := .zero
  transitions : StanceTransitions := {}
  deriving DecidableEq, Repr

/-- The Map as a capsule meets it: where one of a height, standing at a position, gets to by a
    displacement in a time and whether it came down on something, and whether one fits there. -/
structure Collision where
  move : Math.Vec3 → Binary32 → Math.Vec3 → Binary32 → Math.Vec3 × Bool
  fits : Math.Vec3 → Binary32 → Bool

/-- A body and its fall. Its controller stands at its position, at its stance's height. -/
structure BodyRecord where
  state : BodyState := {}
  verticalSpeed : Binary32 := .zero
  deriving DecidableEq, Repr

def onWireGrid (state : BodyState) : BodyState :=
  { state with
    position := Math.snapPosition state.position
    velocity := Math.snapVelocity state.velocity
    stamina := Math.snapStamina state.stamina }

/-- `CreateBody`. -/
def createBody (position : Math.Vec3) : BodyRecord where
  state := { position := Math.snapPosition position }

/-- `CanChangeStance`: a smaller capsule always fits. -/
def canChangeStance (collision : Collision) (state : BodyState) (target : Stance) : Bool :=
  (heightForStance target).le (heightForStance state.stance) ||
    collision.fits state.position (heightForStance target)

/-- A change of stance starts, or turns round where it has got to. -/
def changeStance (collision : Collision) (state : BodyState) (desired : Stance) : BodyState :=
  if desired ≠ state.stance ∧ canChangeStance collision state desired = true then
    { state with
      stanceProgress :=
        if desired = state.previousStance then kStanceProgressSteps - state.stanceProgress else 0
      previousStance := state.stance
      stance := desired }
  else state

/-- `Step`: one fixed tick of `deltaTime` seconds. -/
def step (collision : Collision) (config : StaminaConfig) (record : BodyRecord)
    (input : MovementInput) (deltaTime : Binary32) (pacing : Pacing) : BodyRecord :=
  let state := changeStance collision record.state input.desiredStance
  let stanceProgress := advanceStanceProgress state.stanceProgress deltaTime
    (transitionDuration pacing.transitions state.previousStance state.stance)
  let direction := input.direction.normalize
  let standingAndMoving := state.stance = .standing && Binary32.zero.lt direction.length
  let stamina := resolveStamina input.sprint standingAndMoving state.stamina state.exhausted config
    deltaTime
  let speed := resolveSpeed state.stance stamina.sprinting
  -- the fall starts over from the ground
  let verticalSpeed := (if state.grounded then .zero else record.verticalSpeed).add
    (kGravity.mul deltaTime)
  let displacement := { (direction.scale speed).scale deltaTime with y := verticalSpeed.mul deltaTime }
  let moved := collision.move state.position (heightForStance state.stance) displacement deltaTime
  let position := Math.snapPosition moved.1
  { state := onWireGrid
      { state with
        stanceProgress
        stamina := stamina.stamina
        exhausted := stamina.exhausted
        grounded := moved.2
        velocity := if Binary32.zero.lt deltaTime then (position.sub state.position).div deltaTime
          else {}
        stride := advanceStride state.stride (position.sub state.position) pacing.strideLength
        position }
    verticalSpeed }

/-- `SetState`: a teleport is not a fall. -/
def setState (state : BodyState) : BodyRecord where
  state := onWireGrid state

/-- `Restore`: unlike `setState`, the fall carries on. -/
def restore (state : BodyState) (verticalSpeed : Binary32) : BodyRecord where
  state := onWireGrid state
  verticalSpeed

/-- On its grids, a body stays where it is put. -/
@[simp] theorem onWireGrid_onWireGrid (state : BodyState) :
    onWireGrid (onWireGrid state) = onWireGrid state := by
  simp [onWireGrid, Math.snapPosition, Math.snapVelocity, Math.snapStamina]

/-- Every step ends on the grids. -/
@[simp] theorem onWireGrid_step (collision : Collision) (config : StaminaConfig)
    (record : BodyRecord) (input : MovementInput) (deltaTime : Binary32) (pacing : Pacing) :
    onWireGrid (step collision config record input deltaTime pacing).state =
      (step collision config record input deltaTime pacing).state :=
  onWireGrid_onWireGrid _

/-- From the ground, what a body fell at before does not matter. -/
theorem step_grounded (collision : Collision) (config : StaminaConfig) {record : BodyRecord}
    (input : MovementInput) (deltaTime : Binary32) (pacing : Pacing)
    (h : record.state.grounded = true) (verticalSpeed : Binary32) :
    step collision config { record with verticalSpeed } input deltaTime pacing =
      step collision config record input deltaTime pacing := by
  have hgrounded : (changeStance collision record.state input.desiredStance).grounded = true := by
    rw [changeStance]; split <;> exact h
  simp only [step, hgrounded, if_true]

end Augusta.Physics
