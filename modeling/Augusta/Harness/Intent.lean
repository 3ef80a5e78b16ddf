import Augusta.Harness.CommandStream
import Augusta.Physics.Movement

/-! `augusta::harness::IntentExecutor`: what an Agent is doing on each of its channels, and the
    Command they come to each tick.

      SetMovement ──▶ movement ┐                                    ┌─▶ Command
      SetAim      ──▶ aim      ├── or, all three at once, raw ── NextCommand
      SetTrigger  ──▶ trigger  ┘                                    └─▶ endings, told after

    Every call takes the lock, so each is one step; the endings it makes are told once the lock is
    let go. -/

namespace Augusta.Harness
open Lib (Binary32)
open Link

/-- How an Intent ended. -/
inductive IntentEnding
  | replaced | done | arrived | blocked | targetGone
  deriving DecidableEq, Repr

/-! ### Heading for a point -/

/-- 0.5 m -/
def kArrivedM : Binary32 := ⟨0x3F000000⟩

/-- 0.1 m -/
def kProgressM : Binary32 := ⟨0x3DCCCCCD⟩

/-- `std::numeric_limits<float>::max()` -/
def kFarthest : Binary32 := ⟨0x7F7FFFFF⟩

/-- Points along a floor and the numbers their distances are measured in: the code's own, or
    exact. -/
class Floor (V : Type) (α : outParam Type) where
  alongTheFloor : V → V → V
  length : V → α
  div : V → α → V
  sub : α → α → α
  le : α → α → Bool
  lt : α → α → Bool
  ofFloat : Binary32 → α

instance : Floor Math.Vec3 Binary32 where
  alongTheFloor source target := ⟨target.x.sub source.x, .zero, target.z.sub source.z⟩
  length := Math.Vec3.length
  div := Math.Vec3.div
  sub := Binary32.sub
  le := Binary32.le
  lt := Binary32.lt
  ofFloat := id

/-- Head in a straight line along the floor to a point. -/
structure MoveTo (V : Type) where
  point : V
  sprint : Bool := false
  stance : Physics.Stance := .standing

/-- The nearest a body has come to its point, and the ticks since it last came nearer. -/
structure Progress (α : Type) where
  nearest : α
  ticksWithoutProgress : ℕ

section
variable {V α : Type} [Floor V α]

/-- Not come near yet. -/
def Progress.start (V : Type) {α : Type} [Floor V α] : Progress α :=
  ⟨Floor.ofFloat V kFarthest, 0⟩

variable (V) in
/-- What a tick at `distance` from the point comes to, at so many ticks a second. -/
def Progress.carry (progress : Progress α) (tickRateHz : ℕ) (distance : α) :
    Option IntentEnding × Progress α :=
  if Floor.le V distance (Floor.ofFloat V kArrivedM) then (some .arrived, progress)
  else if Floor.lt V distance (Floor.sub V progress.nearest (Floor.ofFloat V kProgressM)) then
    (none, ⟨distance, 0⟩)
  else
    let ticks := progress.ticksWithoutProgress + 1
    (if tickRateHz ≤ ticks then some .blocked else none,
      { progress with ticksWithoutProgress := ticks })

/-- How far a body is from the point. -/
def MoveTo.distance (moveTo : MoveTo V) (position : V) : α :=
  Floor.length (Floor.alongTheFloor position moveTo.point)

/-- The direction that leads to the point. -/
def MoveTo.direction (moveTo : MoveTo V) (position : V) : V :=
  Floor.div (Floor.alongTheFloor position moveTo.point) (moveTo.distance position)

end

/-! ### The other Intents -/

/-- Hold a direction, with sprint and stance. -/
structure Move where
  direction : Math.Vec3 := {}
  sprint : Bool := false
  stance : Physics.Stance := .standing

structure Look where
  yaw : Binary32 := .zero
  pitch : Binary32 := .zero

/-- Look at the torso of a body, down sights. -/
structure AimAt where
  target : EntityId

inductive MovementIntent
  | move (move : Move)
  | moveTo (moveTo : MoveTo Math.Vec3)

inductive AimIntent
  | look (look : Look)
  | aimAt (aimAt : AimAt)

inductive TriggerIntent
  | holdFire | reload | fireBursts
  deriving DecidableEq

/-! ### Aiming -/

/-- 0.9 -/
def kEyeHeightFraction : Binary32 := ⟨0x3F666666⟩

/-- 0.6 -/
def kTorsoHeightFraction : Binary32 := ⟨0x3F19999A⟩

/-- 1.55 -/
def kMaxLookPitch : Binary32 := ⟨0x3FC66666⟩

/-- Twice 0.3: the capsule's caps together add its diameter to its height. -/
def kCapsuleDiameter : Binary32 := ⟨0x3F19999A⟩

def kBurstTicks : ℕ := 6

def kReleaseTicks : ℕ := 18

def stanceHeight (stance : Physics.Stance) : Binary32 :=
  (Physics.heightForStance stance).add kCapsuleDiameter

/-- The point at a fraction of the height of `body`, above its feet. -/
def pointUp (body : Physics.BodyState) (heightFraction : Binary32) : Math.Vec3 :=
  body.position.add ⟨.zero, (stanceHeight body.stance).mul heightFraction, .zero⟩

/-- What the C library computes. -/
structure Libm where
  hypot : Binary32 → Binary32 → Binary32
  atan2 : Binary32 → Binary32 → Binary32

/-- The view that looks from one point toward another, its pitch short of straight up or down. -/
def lookAt (libm : Libm) (source target : Math.Vec3) : Look :=
  let toward := target.sub source
  let pitch := libm.atan2 toward.y (libm.hypot toward.x toward.z)
  { yaw := libm.atan2 toward.x.neg toward.z.neg
    pitch := (pitch.max kMaxLookPitch.neg).min kMaxLookPitch }

/-- The body of `entity` in the newest state, if it is there. -/
def bodyOf (view : ServerView) (entity : EntityId) : Option Physics.BodyState :=
  view.authoritative.bind fun state =>
    (state.bodies.find? fun body => body.entity == entity).map (·.body)

/-! ### What is held -/

namespace IntentExecutor

/-- What an Intent that tracks something has counted so far. -/
structure Tracking where
  progress : Progress Binary32 := .start Math.Vec3
  /-- The Match it was first carried out in. -/
  inMatch : Option UInt32 := none
  /-- The ticks since its Burst-and-release cycle began. -/
  triggerTicks : ℕ := 0

/-- An Intent, and what is told how it ends. -/
structure Held (Intent κ : Type) where
  intent : Intent
  onEnded : κ
  tracking : Tracking := {}

/-- An Intent that has ended, to be told once the lock is let go. -/
structure Ended (κ : Type) where
  onEnded : κ
  ending : IntentEnding

end IntentExecutor

structure IntentExecutor (κ : Type) where
  movement : Option (IntentExecutor.Held MovementIntent κ) := none
  aim : Option (IntentExecutor.Held AimIntent κ) := none
  trigger : Option (IntentExecutor.Held TriggerIntent κ) := none
  raw : Option (IntentExecutor.Held Command κ) := none
  /-- What the last Command sent held, for the ticks no Intent says otherwise. -/
  lastView : Look := {}
  lastStance : Physics.Stance := .standing

namespace IntentExecutor
variable {κ Intent : Type}

/-- What holding nothing more on a channel ends. -/
def endInto (held : Option (Held Intent κ)) (ending : IntentEnding) (ended : List (Ended κ)) :
    List (Ended κ) :=
  match held with
  | some held => ended ++ [⟨held.onEnded, ending⟩]
  | none => ended

section
variable (executor : IntentExecutor κ)

/-- `Replace`: what putting something else on `channel` ends. -/
def replace (channel : Option (Held Intent κ)) : List (Ended κ) :=
  endInto channel .replaced (endInto executor.raw .replaced [])

def setMovement (intent : MovementIntent) (onEnded : κ) : IntentExecutor κ × List (Ended κ) :=
  ({ executor with raw := none, movement := some { intent, onEnded } },
    executor.replace executor.movement)

def setAim (intent : AimIntent) (onEnded : κ) : IntentExecutor κ × List (Ended κ) :=
  ({ executor with raw := none, aim := some { intent, onEnded } }, executor.replace executor.aim)

def setTrigger (intent : TriggerIntent) (onEnded : κ) : IntentExecutor κ × List (Ended κ) :=
  ({ executor with raw := none, trigger := some { intent, onEnded } },
    executor.replace executor.trigger)

def clearMovement : IntentExecutor κ × List (Ended κ) :=
  ({ executor with raw := none, movement := none }, executor.replace executor.movement)

def clearAim : IntentExecutor κ × List (Ended κ) :=
  ({ executor with raw := none, aim := none }, executor.replace executor.aim)

def clearTrigger : IntentExecutor κ × List (Ended κ) :=
  ({ executor with raw := none, trigger := none }, executor.replace executor.trigger)

def setRaw (command : Command) (onEnded : κ) : IntentExecutor κ × List (Ended κ) :=
  ({ executor with
      raw := some { intent := command, onEnded }, movement := none, aim := none, trigger := none },
    endInto executor.trigger .replaced (endInto executor.aim .replaced
      (endInto executor.movement .replaced (endInto executor.raw .replaced []))))

end

/-! ### One tick of each channel -/

/-- What an Intent makes of a tick: how it ends there, if it does, what it has counted, and the
    Command with its channel written. -/
structure Carried where
  ending : Option IntentEnding := none
  tracking : Tracking
  command : Command

/-- An Intent is carried out only once the server has admitted its player. -/
def tickRateOf (view : ServerView) : ℕ :=
  match view.accepted with
  | some accepted => accepted.tickRateHz.toNat
  | none => 0

/-- `Carry`, of a movement. -/
def carryMovement (held : Held MovementIntent κ) (view : ServerView) (own : Physics.BodyState)
    (command : Command) : Carried :=
  match held.intent with
  | .move move =>
      { tracking := held.tracking
        command := { command with movement := ⟨move.direction, move.sprint, move.stance⟩ } }
  | .moveTo moveTo =>
      let carried := held.tracking.progress.carry Math.Vec3 (tickRateOf view)
        (moveTo.distance own.position)
      { ending := carried.1
        tracking := { held.tracking with progress := carried.2 }
        command := { command with movement :=
          match carried.1 with
          | some _ => { command.movement with desiredStance := moveTo.stance }
          | none => ⟨moveTo.direction own.position, moveTo.sprint, moveTo.stance⟩ } }

/-- Whether the target is gone: dead, out of the newest state, or in a Match since over. Never
    before it has been aimed at once. -/
def targetGone (aimAt : AimAt) (tracking : Tracking) (view : ServerView) : Bool :=
  match tracking.inMatch with
  | none => false
  | some inMatch =>
      if inMatch ≠ view.matchesStarted ∨ ¬ view.inMatch ∨ view.dead.contains aimAt.target then true
      else view.authoritative.isSome && (bodyOf view aimAt.target).isNone

/-- `Carry`, of an aim. -/
def carryAim (libm : Libm) (held : Held AimIntent κ) (view : ServerView) (own : Physics.BodyState)
    (command : Command) : Carried :=
  match held.intent with
  | .look look =>
      { tracking := held.tracking
        command := { command with yaw := look.yaw, pitch := look.pitch } }
  | .aimAt aimAt =>
      let tracking := { held.tracking with
        inMatch := some (held.tracking.inMatch.getD view.matchesStarted) }
      if targetGone aimAt tracking view then { ending := some .targetGone, tracking, command }
      else
        match bodyOf view aimAt.target with
        | none => { tracking, command := { command with ads := true } }
        | some target =>
            let look := lookAt libm (pointUp own kEyeHeightFraction)
              (pointUp target kTorsoHeightFraction)
            { tracking
              command := { command with ads := true, yaw := look.yaw, pitch := look.pitch } }

/-- The newest state, if it has the magazine empty. -/
def magazineEmpty (view : ServerView) : Option AuthoritativeState :=
  view.authoritative.filter fun state => state.rifle.rounds = 0

/-- `Carry`, of a trigger. -/
def carryTrigger (held : Held TriggerIntent κ) (view : ServerView) (command : Command) : Carried :=
  match held.intent with
  | .holdFire => { tracking := held.tracking, command := { command with fire := true } }
  | .reload =>
      { ending := some .done
        tracking := held.tracking
        command := { command with reload := true } }
  | .fireBursts =>
      match magazineEmpty view with
      | some state =>
          { tracking := { held.tracking with triggerTicks := 0 }
            command := { command with reload := state.rifle.reloadRemaining.le .zero } }
      | none =>
          let ticks := held.tracking.triggerTicks
          { tracking := { held.tracking with triggerTicks := ticks + 1 }
            command := { command with
              fire := ticks % (kBurstTicks + kReleaseTicks) < kBurstTicks } }

/-- `CarryChannel`: carries out what a channel holds, and empties it if that ends. -/
def carryChannel (carry : Held Intent κ → Command → Carried) (channel : Option (Held Intent κ))
    (command : Command) (ended : List (Ended κ)) :
    Option (Held Intent κ) × Command × List (Ended κ) :=
  match channel with
  | none => (none, command, ended)
  | some held =>
      let carried := carry held command
      match carried.ending with
      | some ending => (none, carried.command, endInto channel ending ended)
      | none => (some { held with tracking := carried.tracking }, carried.command, ended)

/-- Ends the aim if it is at a target that is gone. -/
def endAimIfTargetGone (executor : IntentExecutor κ) (view : ServerView) :
    IntentExecutor κ × List (Ended κ) :=
  match executor.aim with
  | some ⟨.aimAt aimAt, _, tracking⟩ =>
      if targetGone aimAt tracking view then
        ({ executor with aim := none }, endInto executor.aim .targetGone [])
      else (executor, [])
  | _ => (executor, [])

/-! ### The Command -/

/-- The view and the stance are the last ones sent, until an Intent says otherwise. -/
def startingCommand (executor : IntentExecutor κ) : Command where
  movement := { desiredStance := executor.lastStance }
  yaw := executor.lastView.yaw
  pitch := executor.lastView.pitch

/-- Remembers what a Command sent held. -/
def remember (executor : IntentExecutor κ) (command : Command) : IntentExecutor κ :=
  { executor with
    lastView := ⟨command.yaw, command.pitch⟩
    lastStance := command.movement.desiredStance }

/-- Carries out the three channels. -/
def carryAll (libm : Libm) (executor : IntentExecutor κ) (view : ServerView)
    (own : Physics.BodyState) : Command × IntentExecutor κ × List (Ended κ) :=
  let moved := carryChannel (carryMovement · view own) executor.movement executor.startingCommand []
  let aimed := carryChannel (carryAim libm · view own) executor.aim moved.2.1 moved.2.2
  let fired := carryChannel (carryTrigger · view) executor.trigger aimed.2.1 aimed.2.2
  (fired.2.1, { executor with movement := moved.1, aim := aimed.1, trigger := fired.1 }, fired.2.2)

/-- The Raw's Command, its reload sent once. -/
def sendRaw (executor : IntentExecutor κ) (held : Held Command κ) : Command × IntentExecutor κ :=
  (held.intent,
    { executor with raw := some { held with intent := { held.intent with reload := false } } })

/-- What of the Command the Intents decide, what they are left as, and which ended. -/
def carryOut (libm : Libm) (executor : IntentExecutor κ) (view : ServerView)
    (own : Physics.BodyState) : Command × IntentExecutor κ × List (Ended κ) :=
  if view.ownAlive then
    match executor.raw with
    | some held =>
        let sent := executor.sendRaw held
        (sent.1, sent.2.remember sent.1, [])
    | none =>
        let carried := executor.carryAll libm view own
        (carried.1, carried.2.1.remember carried.1, carried.2.2)
  else
    -- its Intents wait, but a target that dies or leaves meanwhile is gone now
    let ended := executor.endAimIfTargetGone view
    (executor.startingCommand, ended.1, ended.2)

/-- The Seen time is always the newest state's. -/
def nextCommand (libm : Libm) (executor : IntentExecutor κ) (view : ServerView)
    (own : Physics.BodyState) : Command × IntentExecutor κ × List (Ended κ) :=
  let carried := executor.carryOut libm view own
  ({ carried.1 with
      seenTick := match view.authoritative with
        | some state => state.tick
        | none => 0
      seenFraction := .zero },
    carried.2.1, carried.2.2)

end IntentExecutor
end Augusta.Harness
