import Augusta.Core.Parameters

/-! What the server tells its clients, in the engine's terms: the Link's server messages. -/

namespace Augusta
open Lib (Binary32)

/-- A body's full movement state at a point in time. -/
structure Physics.BodyState where
  position : Math.Vec3 := {}
  velocity : Math.Vec3 := {}
  stance : Stance := .standing
  stamina : Binary32 := .one
  exhausted : Bool := false
  stride : UInt8 := 0
  previousStance : Stance := .standing
  stanceProgress : UInt8 := 255
  grounded : Bool := false
  deriving DecidableEq, Repr, Inhabited

structure Weapon.RecoilOffset where
  pitch : Binary32 := .zero
  yaw : Binary32 := .zero
  deriving DecidableEq, Repr, Inhabited

structure Weapon.State where
  cooldown : Binary32 := .zero
  reloadRemaining : Binary32 := .zero
  recoil : RecoilOffset := {}
  rounds : UInt8 := 0
  burstIndex : UInt8 := 0
  deriving DecidableEq, Repr, Inhabited

namespace Link

structure EntityBody where
  entity : EntityId
  body : Physics.BodyState := {}
  yaw : Binary32 := .zero
  pitch : Binary32 := .zero
  ads : Bool := false
  deriving DecidableEq, Repr

structure AuthoritativeState where
  tick : Tick := 0
  acknowledgedSequence : Sequence := 0
  bodies : List EntityBody := []
  rifle : Weapon.State := {}
  health : Binary32 := .zero
  queuedCommands : UInt8 := 0
  deriving DecidableEq, Repr

structure Shot where
  shooter : EntityId
  tick : Tick := 0
  origin : Math.Vec3 := {}
  yaw : Binary32 := .zero
  pitch : Binary32 := .zero
  deriving DecidableEq, Repr

structure HitConfirmation where
  target : EntityId
  damage : Binary32 := .zero
  part : BodyPart := .torso
  deriving DecidableEq, Repr

structure Death where
  victim : EntityId
  killer : EntityId
  yaw : Binary32 := .zero
  pitch : Binary32 := .zero
  part : BodyPart := .torso
  deriving DecidableEq, Repr

structure RosterEntry where
  session : SessionId
  character : String
  deriving DecidableEq, Repr

structure Lobby where
  version : UInt32 := 0
  roster : List RosterEntry := []
  deriving DecidableEq, Repr

structure MatchPlayer where
  session : SessionId
  entity : EntityId
  character : String
  spawn : Math.Vec3 := {}
  deriving DecidableEq, Repr

structure MatchStart where
  players : List MatchPlayer := []
  firstTick : Tick := 0
  /-- The Match ID. -/
  name : SessionId := 0
  deriving DecidableEq, Repr

structure MatchEnd where
  winner : Option SessionId := none
  deriving DecidableEq, Repr

inductive JoinRefusal
  | versionMismatch | lobbyFull | unknownCharacter | matchInProgress | packMismatch
  | replayServer | unknownCapture | notAReplayServer | reenactmentsNotAccepted
  deriving DecidableEq, Repr

structure Admission where
  session : SessionId
  tickRateHz : UInt8
  parameters : Parameters := {}
  character : String
  deriving DecidableEq, Repr

structure ReplayListing where
  name : String
  /-- Milliseconds since 1970. -/
  started : ℤ
  ticks : UInt32
  tickRateHz : UInt8
  characters : List String
  deriving DecidableEq, Repr

inductive Struck
  | nothing | map | prop | hitbox
  deriving DecidableEq, Repr, Inhabited

structure JudgedPlayer where
  entity : EntityId
  position : Math.Vec3 := {}
  stance : Physics.Stance := .standing
  yaw : Binary32 := .zero
  deriving DecidableEq, Repr

structure ShotJudgementEntry where
  ticksAfterShot : UInt16 := 0
  players : List JudgedPlayer := []
  deriving DecidableEq, Repr

structure ShotJudgement where
  shotTick : Tick := 0
  shootersDelay : Binary32 := .zero
  struck : Struck := .nothing
  part : BodyPart := .torso
  point : Math.Vec3 := {}
  target : Option EntityId := none
  entries : List ShotJudgementEntry := []
  entriesLeftOut : Bool := false
  deriving DecidableEq, Repr

inductive ServerMessage
  | admission (accepted : Admission)
  | joinRefusal (reason : JoinRefusal)
  | lobby (lobby : Lobby)
  | matchStart (start : MatchStart)
  | matchEnd (ended : MatchEnd)
  | authoritativeState (state : AuthoritativeState)
  | shot (shot : Shot)
  | hitConfirmation (hit : HitConfirmation)
  | death (death : Death)
  | replayList (listings : List ReplayListing)
  | shotJudgement (judgement : ShotJudgement)
  deriving DecidableEq, Repr

/-- Whether a server message travels reliably: all but a tick's state, which a newer one
    supersedes. -/
def ServerMessage.reliable : ServerMessage → Bool
  | .authoritativeState _ => false
  | _ => true

structure SequencedCommand where
  sequence : Sequence
  command : Command
  deriving DecidableEq, Repr

end Link
end Augusta
