import Augusta.Core.Command

/-! The Networking Protocol's messages as the sender fills them and the receiver reads them: the
    `*Wire` values. A `std::string` is its bytes, which need not be UTF-8; an enumeration is its
    number, which need not be one of its names; floats are compared by their bits. -/

namespace Augusta.Protocol
open Lib (Binary32)

abbrev Text := List UInt8

abbrev PackHashWire := Vector UInt8 32

/-- A UUID's 16 bytes. -/
abbrev UuidWire := Vector UInt8 16

def nilUuid : UuidWire := Vector.replicate 16 0

def kMaxPayloadSize : ℕ := 512 * 1024

def kMaxEngineVersionLength : ℕ := 32

def kMaxCharacterNameLength : ℕ := 64

def kMaxCaptureNameLength : ℕ := 64

def kMaxReplayListings : ℕ := 255

def kMaxCommandsPerMessage : ℕ := 8

structure StanceWire where
  value : UInt8
  deriving DecidableEq, Repr

namespace StanceWire
def standing : StanceWire := ⟨0⟩
def crouching : StanceWire := ⟨1⟩
def prone : StanceWire := ⟨2⟩
end StanceWire

structure BodyPartWire where
  value : UInt8
  deriving DecidableEq, Repr

namespace BodyPartWire
def head : BodyPartWire := ⟨1⟩
def torso : BodyPartWire := ⟨2⟩
def limb : BodyPartWire := ⟨3⟩
end BodyPartWire

structure JoinRefusalWire where
  value : UInt8
  deriving DecidableEq, Repr

namespace JoinRefusalWire
def versionMismatch : JoinRefusalWire := ⟨1⟩
def lobbyFull : JoinRefusalWire := ⟨2⟩
def unknownCharacter : JoinRefusalWire := ⟨3⟩
def matchInProgress : JoinRefusalWire := ⟨4⟩
def packMismatch : JoinRefusalWire := ⟨5⟩
def replayServer : JoinRefusalWire := ⟨6⟩
def unknownCapture : JoinRefusalWire := ⟨7⟩
def notAReplayServer : JoinRefusalWire := ⟨8⟩
def reenactmentsNotAccepted : JoinRefusalWire := ⟨9⟩
end JoinRefusalWire

structure StruckWire where
  value : UInt8
  deriving DecidableEq, Repr

namespace StruckWire
def nothing : StruckWire := ⟨0⟩
def map : StruckWire := ⟨1⟩
def prop : StruckWire := ⟨2⟩
def hitbox : StruckWire := ⟨3⟩
end StruckWire

def kStanceProgressOver : UInt8 := 255

structure BodyStateWire where
  position : Math.Vec3 := {}
  velocity : Math.Vec3 := {}
  stamina : Binary32 := .one
  /-- Exhausted bit 0, aiming down sights bit 1, grounded bit 2. -/
  flags : UInt8 := 0
  stance : StanceWire := .standing
  stride : UInt8 := 0
  previousStance : StanceWire := .standing
  stanceProgress : UInt8 := kStanceProgressOver
  deriving DecidableEq, Repr

structure CommandWire where
  direction : Math.Vec3 := {}
  yaw : Binary32 := .zero
  pitch : Binary32 := .zero
  seenFraction : Binary32 := .zero
  /-- Sprint bit 0, aiming down sights bit 1, fire bit 2, reload bit 3. -/
  flags : UInt8 := 0
  desiredStance : StanceWire := .standing
  /-- How far the Command's Seen tick lies behind its message's, 255 at most. -/
  seenAge : UInt8 := 0
  deriving DecidableEq, Repr

namespace CommandWire
def kSprint : UInt8 := 1
def kAds : UInt8 := 2
def kFire : UInt8 := 4
def kReload : UInt8 := 8
end CommandWire

structure StaminaWire where
  depletePerSecond : Binary32 := .zero
  regenPerSecond : Binary32 := .zero
  forcedWalkBelow : Binary32 := .zero
  deriving DecidableEq, Repr

structure RecoilKickWire where
  pitch : Binary32 := .zero
  yaw : Binary32 := .zero
  deriving DecidableEq, Repr

structure RifleWire where
  roundsPerMinute : Binary32 := .zero
  muzzleVelocity : Binary32 := .zero
  reloadSeconds : Binary32 := .zero
  recoilRecoveryPerSecond : Binary32 := .zero
  adsRecoilScale : Binary32 := .zero
  adsFieldOfView : Binary32 := .zero
  recoilPattern : List RecoilKickWire := []
  magazineCapacity : UInt8 := 0
  deriving DecidableEq, Repr

structure AmmoWire where
  gravity : Binary32 := .zero
  maxRange : Binary32 := .zero
  headDamage : Binary32 := .zero
  torsoDamage : Binary32 := .zero
  limbDamage : Binary32 := .zero
  deriving DecidableEq, Repr

structure ParametersWire where
  stamina : StaminaWire := {}
  rifle : RifleWire := {}
  ammo : AmmoWire := {}
  startingHealth : Binary32 := .zero
  playerCount : UInt8 := 1
  deriving DecidableEq, Repr

structure JoinRequestWire where
  engineVersion : Text := []
  clientPack : PackHashWire := Vector.replicate 32 0
  character : Text := []
  run : UuidWire := nilUuid
  deriving DecidableEq

structure ReenactRequestWire where
  engineVersion : Text := []
  clientPack : PackHashWire := Vector.replicate 32 0
  character : Text := []
  spawn : Math.Vec3 := {}
  run : UuidWire := nilUuid
  deriving DecidableEq

structure EntityStateWire where
  entity : UInt32 := 0
  body : BodyStateWire := {}
  yaw : Binary32 := .zero
  pitch : Binary32 := .zero
  deriving DecidableEq, Repr

structure JoinAcceptedWire where
  session : UuidWire := nilUuid
  tickRateHz : UInt8 := 0
  parameters : ParametersWire := {}
  character : Text := []
  deriving DecidableEq

structure JoinRefusedWire where
  reason : JoinRefusalWire := ⟨0⟩
  deriving DecidableEq, Repr

structure WeaponStateWire where
  cooldown : Binary32 := .zero
  reloadRemaining : Binary32 := .zero
  recoilPitch : Binary32 := .zero
  recoilYaw : Binary32 := .zero
  rounds : UInt8 := 0
  burstIndex : UInt8 := 0
  deriving DecidableEq, Repr

structure SequencedCommandWire where
  sequence : Sequence := 0
  command : CommandWire := {}
  deriving DecidableEq, Repr

structure CommandsWire where
  commands : List SequencedCommandWire := []
  seenTick : Tick := 0
  deriving DecidableEq, Repr

structure AuthoritativeStateWire where
  tick : Tick := 0
  bodies : List EntityStateWire := []
  rifle : WeaponStateWire := {}
  health : Binary32 := .zero
  acknowledgedSequence : Sequence := 0
  queuedCommands : UInt8 := 0
  deriving DecidableEq, Repr

structure RosterEntryWire where
  session : UuidWire := nilUuid
  character : Text := []
  deriving DecidableEq

structure LobbyWire where
  version : UInt32 := 0
  roster : List RosterEntryWire := []
  deriving DecidableEq

structure ReadyWire where
  version : UInt32 := 0
  deriving DecidableEq, Repr

structure MatchPlayerWire where
  spawn : Math.Vec3 := {}
  session : UuidWire := nilUuid
  entity : UInt32 := 0
  character : Text := []
  deriving DecidableEq

structure MatchStartWire where
  players : List MatchPlayerWire := []
  firstTick : Tick := 0
  /-- The Match ID. -/
  name : UuidWire := nilUuid
  deriving DecidableEq

structure MatchEndWire where
  /-- Nil for a draw. -/
  winner : UuidWire := nilUuid
  deriving DecidableEq

structure ShotWire where
  tick : Tick := 0
  origin : Math.Vec3 := {}
  shooter : UInt32 := 0
  yaw : Binary32 := .zero
  pitch : Binary32 := .zero
  deriving DecidableEq, Repr

structure HitConfirmationWire where
  target : UInt32 := 0
  damage : Binary32 := .zero
  part : BodyPartWire := .torso
  deriving DecidableEq, Repr

structure DeathWire where
  victim : UInt32 := 0
  killer : UInt32 := 0
  yaw : Binary32 := .zero
  pitch : Binary32 := .zero
  part : BodyPartWire := .torso
  deriving DecidableEq, Repr

structure ReplayListingWire where
  startedUnixMs : Int64 := 0
  characters : List Text := []
  name : Text := []
  ticks : UInt32 := 0
  tickRateHz : UInt8 := 0
  deriving DecidableEq

structure ReplayListWire where
  replays : List ReplayListingWire := []
  deriving DecidableEq

structure ReplayRequestWire where
  engineVersion : Text := []
  clientPack : PackHashWire := Vector.replicate 32 0
  capture : Text := []
  run : UuidWire := nilUuid
  deriving DecidableEq

structure DebugSubscribeWire where
  flags : UInt8 := 0
  deriving DecidableEq, Repr

structure JudgedPlayerWire where
  position : Math.Vec3 := {}
  entity : UInt32 := 0
  yaw : Binary32 := .zero
  stance : StanceWire := .standing
  deriving DecidableEq, Repr

structure ShotJudgementEntryWire where
  players : List JudgedPlayerWire := []
  ticksAfterShot : UInt16 := 0
  deriving DecidableEq, Repr

structure ShotJudgementWire where
  shotTick : Tick := 0
  entries : List ShotJudgementEntryWire := []
  point : Math.Vec3 := {}
  target : UInt32 := 0
  delayFraction : Binary32 := .zero
  delayTicks : UInt8 := 0
  struck : StruckWire := .nothing
  part : BodyPartWire := .torso
  /-- Entries left out bit 0. -/
  flags : UInt8 := 0
  deriving DecidableEq, Repr

/-- One message, of a Development build's protocol. -/
inductive MessageWire
  | joinRequest (wire : JoinRequestWire)
  | joinAccepted (wire : JoinAcceptedWire)
  | joinRefused (wire : JoinRefusedWire)
  | commands (wire : CommandsWire)
  | authoritativeState (wire : AuthoritativeStateWire)
  | lobby (wire : LobbyWire)
  | ready (wire : ReadyWire)
  | matchStart (wire : MatchStartWire)
  | matchEnd (wire : MatchEndWire)
  | shot (wire : ShotWire)
  | hitConfirmation (wire : HitConfirmationWire)
  | death (wire : DeathWire)
  | replayListRequest
  | replayList (wire : ReplayListWire)
  | replayRequest (wire : ReplayRequestWire)
  | reenactRequest (wire : ReenactRequestWire)
  | debugSubscribe (wire : DebugSubscribeWire)
  | shotJudgement (wire : ShotJudgementWire)
  deriving DecidableEq

/-- A message's type: the number of the envelope member it travels under. -/
abbrev MessageTypeWire := UInt8

/-- The type of a message: the envelope member `encode` puts it under. -/
def typeOf : MessageWire → MessageTypeWire
  | .joinRequest _ => 1
  | .joinAccepted _ => 2
  | .joinRefused _ => 3
  | .commands _ => 4
  | .authoritativeState _ => 5
  | .lobby _ => 6
  | .ready _ => 7
  | .matchStart _ => 8
  | .matchEnd _ => 9
  | .shot _ => 10
  | .hitConfirmation _ => 11
  | .death _ => 12
  | .replayListRequest => 13
  | .replayList _ => 14
  | .replayRequest _ => 15
  | .reenactRequest _ => 17
  | .debugSubscribe _ => 18
  | .shotJudgement _ => 19

inductive EncodeError
  | fieldTooLong | reservedBits | invalidEnum | notAnAuthoritativeState | notUtf8
  deriving DecidableEq, Repr

inductive DecodeError
  | malformed | unknownType | invalidEnum | reservedBits | outOfRange | fieldTooLong
  deriving DecidableEq, Repr

end Augusta.Protocol
