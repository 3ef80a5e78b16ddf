import Augusta.Lib.Protobuf
import Augusta.Core.Parameters

/-! The classes protobuf generates from `augusta.proto`, their fields under proto3's defaults, and the
    bytes each serializes to: its fields in the order of their numbers. -/

namespace Augusta.Protocol.Pb
open Lib (Binary32)
open Lib.Protobuf

structure JoinRequest where
  engineVersion : Bytes := []
  clientPack : Bytes := []
  character : Bytes := []
  run : Bytes := []

def JoinRequest.bytes (m : JoinRequest) : Bytes :=
  bytesField 1 m.engineVersion ++ bytesField 2 m.clientPack ++ bytesField 3 m.character ++
    bytesField 4 m.run

structure ReenactRequest where
  engineVersion : Bytes := []
  clientPack : Bytes := []
  character : Bytes := []
  spawnX : ℤ := 0
  spawnY : ℤ := 0
  spawnZ : ℤ := 0
  run : Bytes := []

def ReenactRequest.bytes (m : ReenactRequest) : Bytes :=
  bytesField 1 m.engineVersion ++ bytesField 2 m.clientPack ++ bytesField 3 m.character ++
    sintField 4 m.spawnX ++ sintField 5 m.spawnY ++ sintField 6 m.spawnZ ++ bytesField 7 m.run

structure Stamina where
  depletePerSecond : Binary32 := .zero
  regenPerSecond : Binary32 := .zero
  forcedWalkBelow : Binary32 := .zero

def Stamina.bytes (m : Stamina) : Bytes :=
  floatField 1 m.depletePerSecond ++ floatField 2 m.regenPerSecond ++ floatField 3 m.forcedWalkBelow

structure RecoilKick where
  pitch : Binary32 := .zero
  yaw : Binary32 := .zero

def RecoilKick.bytes (m : RecoilKick) : Bytes := floatField 1 m.pitch ++ floatField 2 m.yaw

structure Rifle where
  roundsPerMinute : Binary32 := .zero
  muzzleVelocity : Binary32 := .zero
  reloadSeconds : Binary32 := .zero
  recoilRecoveryPerSecond : Binary32 := .zero
  adsRecoilScale : Binary32 := .zero
  adsFieldOfView : Binary32 := .zero
  recoilPattern : List RecoilKick := []
  magazineCapacity : UInt32 := 0

def Rifle.bytes (m : Rifle) : Bytes :=
  floatField 1 m.roundsPerMinute ++ floatField 2 m.muzzleVelocity ++ floatField 3 m.reloadSeconds ++
    floatField 4 m.recoilRecoveryPerSecond ++ floatField 5 m.adsRecoilScale ++
    floatField 6 m.adsFieldOfView ++ repeatedField 7 RecoilKick.bytes m.recoilPattern ++
    uintField 8 m.magazineCapacity.toNat

structure Ammo where
  gravity : Binary32 := .zero
  maxRange : Binary32 := .zero
  headDamage : Binary32 := .zero
  torsoDamage : Binary32 := .zero
  limbDamage : Binary32 := .zero

def Ammo.bytes (m : Ammo) : Bytes :=
  floatField 1 m.gravity ++ floatField 2 m.maxRange ++ floatField 3 m.headDamage ++
    floatField 4 m.torsoDamage ++ floatField 5 m.limbDamage

/-- A member never set reads as its own defaults, so the three members are held as values, with
    whether each was set. -/
structure Parameters where
  stamina : Option Stamina := none
  rifle : Option Rifle := none
  ammo : Option Ammo := none
  startingHealth : Binary32 := .zero
  playerCount : UInt32 := 0

def Parameters.bytes (m : Parameters) : Bytes :=
  (m.stamina.map fun set => lenField 1 set.bytes).getD [] ++
    (m.rifle.map fun set => lenField 2 set.bytes).getD [] ++
    (m.ammo.map fun set => lenField 3 set.bytes).getD [] ++
    floatField 4 m.startingHealth ++ uintField 5 m.playerCount.toNat

structure JoinAccepted where
  tickRateHz : UInt32 := 0
  parameters : Option Parameters := none
  character : Bytes := []
  session : Bytes := []

def JoinAccepted.bytes (m : JoinAccepted) : Bytes :=
  uintField 2 m.tickRateHz.toNat ++ (m.parameters.map fun set => lenField 3 set.bytes).getD [] ++
    bytesField 4 m.character ++ bytesField 5 m.session

/-- An enumeration travels as its number, which may be none of its names. -/
structure JoinRefused where
  reason : Int64 := 0

def JoinRefused.bytes (m : JoinRefused) : Bytes := intField 1 m.reason

structure Command where
  sequence : UInt64 := 0
  directionX : ℤ := 0
  directionY : ℤ := 0
  directionZ : ℤ := 0
  yaw : ℤ := 0
  pitch : ℤ := 0
  bits : UInt32 := 0
  seenAge : UInt32 := 0
  seenFraction : UInt32 := 0

def Command.bytes (m : Command) : Bytes :=
  uintField 1 m.sequence.toNat ++ sintField 2 m.directionX ++ sintField 3 m.directionY ++
    sintField 4 m.directionZ ++ sintField 5 m.yaw ++ sintField 6 m.pitch ++
    uintField 7 m.bits.toNat ++ uintField 8 m.seenAge.toNat ++ uintField 9 m.seenFraction.toNat

structure Commands where
  commands : List Command := []
  seenTick : UInt64 := 0

def Commands.bytes (m : Commands) : Bytes :=
  repeatedField 1 Command.bytes m.commands ++ uintField 2 m.seenTick.toNat

structure Body where
  entity : UInt32 := 0
  positionX : ℤ := 0
  positionY : ℤ := 0
  positionZ : ℤ := 0
  velocityX : ℤ := 0
  velocityY : ℤ := 0
  velocityZ : ℤ := 0
  bits : UInt32 := 0
  stamina : UInt32 := 0
  yaw : ℤ := 0
  pitch : ℤ := 0
  stride : UInt32 := 0
  stanceToGo : UInt32 := 0

def Body.bytes (m : Body) : Bytes :=
  uintField 1 m.entity.toNat ++ sintField 2 m.positionX ++ sintField 3 m.positionY ++
    sintField 4 m.positionZ ++ sintField 5 m.velocityX ++ sintField 6 m.velocityY ++
    sintField 7 m.velocityZ ++ uintField 8 m.bits.toNat ++ uintField 9 m.stamina.toNat ++
    sintField 10 m.yaw ++ sintField 11 m.pitch ++ uintField 12 m.stride.toNat ++
    uintField 13 m.stanceToGo.toNat

structure AuthoritativeState where
  tick : UInt64 := 0
  bodies : List Body := []
  acknowledgedSequence : UInt64 := 0
  queuedCommands : UInt32 := 0
  rifleRounds : UInt32 := 0
  rifleCooldown : Binary32 := .zero
  rifleReloadRemaining : Binary32 := .zero
  rifleBurstIndex : UInt32 := 0
  rifleRecoilPitch : ℤ := 0
  rifleRecoilYaw : ℤ := 0
  health : Binary32 := .zero

def AuthoritativeState.bytes (m : AuthoritativeState) : Bytes :=
  uintField 1 m.tick.toNat ++ repeatedField 2 Body.bytes m.bodies ++
    uintField 3 m.acknowledgedSequence.toNat ++ uintField 4 m.queuedCommands.toNat ++
    uintField 5 m.rifleRounds.toNat ++ floatField 6 m.rifleCooldown ++
    floatField 7 m.rifleReloadRemaining ++ uintField 8 m.rifleBurstIndex.toNat ++
    sintField 9 m.rifleRecoilPitch ++ sintField 10 m.rifleRecoilYaw ++ floatField 11 m.health

structure RosterEntry where
  character : Bytes := []
  session : Bytes := []

def RosterEntry.bytes (m : RosterEntry) : Bytes := bytesField 2 m.character ++ bytesField 3 m.session

structure Lobby where
  version : UInt32 := 0
  roster : List RosterEntry := []

def Lobby.bytes (m : Lobby) : Bytes :=
  uintField 1 m.version.toNat ++ repeatedField 2 RosterEntry.bytes m.roster

structure Ready where
  version : UInt32 := 0

def Ready.bytes (m : Ready) : Bytes := uintField 1 m.version.toNat

structure MatchPlayer where
  entity : UInt32 := 0
  character : Bytes := []
  spawnX : ℤ := 0
  spawnY : ℤ := 0
  spawnZ : ℤ := 0
  session : Bytes := []

def MatchPlayer.bytes (m : MatchPlayer) : Bytes :=
  uintField 2 m.entity.toNat ++ bytesField 3 m.character ++ sintField 4 m.spawnX ++
    sintField 5 m.spawnY ++ sintField 6 m.spawnZ ++ bytesField 7 m.session

structure MatchStart where
  players : List MatchPlayer := []
  firstTick : UInt64 := 0
  name : Bytes := []

def MatchStart.bytes (m : MatchStart) : Bytes :=
  repeatedField 1 MatchPlayer.bytes m.players ++ uintField 2 m.firstTick.toNat ++ bytesField 3 m.name

structure MatchEnd where
  winner : Bytes := []

def MatchEnd.bytes (m : MatchEnd) : Bytes := bytesField 2 m.winner

structure Shot where
  tick : UInt64 := 0
  shooter : UInt32 := 0
  originX : ℤ := 0
  originY : ℤ := 0
  originZ : ℤ := 0
  yaw : ℤ := 0
  pitch : ℤ := 0

def Shot.bytes (m : Shot) : Bytes :=
  uintField 1 m.tick.toNat ++ uintField 2 m.shooter.toNat ++ sintField 3 m.originX ++
    sintField 4 m.originY ++ sintField 5 m.originZ ++ sintField 6 m.yaw ++ sintField 7 m.pitch

structure HitConfirmation where
  target : UInt32 := 0
  part : Int64 := 0
  damage : Binary32 := .zero

def HitConfirmation.bytes (m : HitConfirmation) : Bytes :=
  uintField 1 m.target.toNat ++ intField 2 m.part ++ floatField 3 m.damage

structure Death where
  victim : UInt32 := 0
  killer : UInt32 := 0
  part : Int64 := 0
  yaw : ℤ := 0
  pitch : ℤ := 0

def Death.bytes (m : Death) : Bytes :=
  uintField 1 m.victim.toNat ++ uintField 2 m.killer.toNat ++ intField 3 m.part ++
    sintField 4 m.yaw ++ sintField 5 m.pitch

structure DebugSubscribe where
  flags : UInt32 := 0

def DebugSubscribe.bytes (m : DebugSubscribe) : Bytes := uintField 1 m.flags.toNat

structure JudgedPlayer where
  entity : UInt32 := 0
  positionX : ℤ := 0
  positionY : ℤ := 0
  positionZ : ℤ := 0
  bits : UInt32 := 0
  yaw : ℤ := 0

def JudgedPlayer.bytes (m : JudgedPlayer) : Bytes :=
  uintField 1 m.entity.toNat ++ sintField 2 m.positionX ++ sintField 3 m.positionY ++
    sintField 4 m.positionZ ++ uintField 5 m.bits.toNat ++ sintField 6 m.yaw

structure ShotJudgementEntry where
  ticksAfterShot : UInt32 := 0
  players : List JudgedPlayer := []

def ShotJudgementEntry.bytes (m : ShotJudgementEntry) : Bytes :=
  uintField 1 m.ticksAfterShot.toNat ++ repeatedField 2 JudgedPlayer.bytes m.players

structure ShotJudgement where
  shotTick : UInt64 := 0
  delayTicks : UInt32 := 0
  delayFraction : UInt32 := 0
  bits : UInt32 := 0
  pointX : ℤ := 0
  pointY : ℤ := 0
  pointZ : ℤ := 0
  target : UInt32 := 0
  entries : List ShotJudgementEntry := []

def ShotJudgement.bytes (m : ShotJudgement) : Bytes :=
  uintField 1 m.shotTick.toNat ++ uintField 2 m.delayTicks.toNat ++
    uintField 3 m.delayFraction.toNat ++ uintField 4 m.bits.toNat ++ sintField 5 m.pointX ++
    sintField 6 m.pointY ++ sintField 7 m.pointZ ++ uintField 8 m.target.toNat ++
    repeatedField 9 ShotJudgementEntry.bytes m.entries

structure ReplayListing where
  name : Bytes := []
  startedUnixMs : Int64 := 0
  ticks : UInt32 := 0
  tickRateHz : UInt32 := 0
  characters : List Bytes := []

def ReplayListing.bytes (m : ReplayListing) : Bytes :=
  bytesField 1 m.name ++ intField 2 m.startedUnixMs ++ uintField 3 m.ticks.toNat ++
    uintField 4 m.tickRateHz.toNat ++ repeatedField 5 id m.characters

structure ReplayList where
  replays : List ReplayListing := []

def ReplayList.bytes (m : ReplayList) : Bytes := repeatedField 1 ReplayListing.bytes m.replays

structure ReplayRequest where
  engineVersion : Bytes := []
  clientPack : Bytes := []
  capture : Bytes := []
  run : Bytes := []

def ReplayRequest.bytes (m : ReplayRequest) : Bytes :=
  bytesField 1 m.engineVersion ++ bytesField 2 m.clientPack ++ bytesField 3 m.capture ++
    bytesField 4 m.run

/-- The envelope: the one member set, none if it is not set. -/
inductive Message
  | notSet
  | joinRequest (body : JoinRequest)
  | joinAccepted (body : JoinAccepted)
  | joinRefused (body : JoinRefused)
  | commands (body : Commands)
  | authoritativeState (body : AuthoritativeState)
  | lobby (body : Lobby)
  | ready (body : Ready)
  | matchStart (body : MatchStart)
  | matchEnd (body : MatchEnd)
  | shot (body : Shot)
  | hitConfirmation (body : HitConfirmation)
  | death (body : Death)
  | replayListRequest
  | replayList (body : ReplayList)
  | replayRequest (body : ReplayRequest)
  | reenactRequest (body : ReenactRequest)
  | debugSubscribe (body : DebugSubscribe)
  | shotJudgement (body : ShotJudgement)

/-- The bytes of a message. -/
def Message.bytes : Message → Bytes
  | .notSet => []
  | .joinRequest body => lenField 1 body.bytes
  | .joinAccepted body => lenField 2 body.bytes
  | .joinRefused body => lenField 3 body.bytes
  | .commands body => lenField 4 body.bytes
  | .authoritativeState body => lenField 5 body.bytes
  | .lobby body => lenField 6 body.bytes
  | .ready body => lenField 7 body.bytes
  | .matchStart body => lenField 8 body.bytes
  | .matchEnd body => lenField 9 body.bytes
  | .shot body => lenField 10 body.bytes
  | .hitConfirmation body => lenField 11 body.bytes
  | .death body => lenField 12 body.bytes
  | .replayListRequest => lenField 13 []
  | .replayList body => lenField 14 body.bytes
  | .replayRequest body => lenField 15 body.bytes
  | .reenactRequest body => lenField 17 body.bytes
  | .debugSubscribe body => lenField 18 body.bytes
  | .shotJudgement body => lenField 19 body.bytes

end Augusta.Protocol.Pb
