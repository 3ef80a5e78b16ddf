import Augusta.Protocol.Encoder

/-! How `Decode` maps a parsed message to its `*Wire`, refusing what no valid message of this build
    holds. The first value refused ends a mapping: the code goes on and remembers it, but reports
    nothing else. Protobuf's own `ParseFromArray` is `parse`. -/

namespace Augusta.Protocol
open Lib (Binary32)
open Lib.Protobuf
open Limits Math

/-! ### The checks -/

namespace Inbound

/-- The value a count of the grid's steps stands for. -/
def fromSteps (count : ℤ) (grid : Grid) : Except DecodeError Binary32 :=
  if count < grid.min ∨ grid.max < count then .error .outOfRange
  else .ok (Math.fromSteps count grid)

def vecFromSteps (x y z : ℤ) (grid : Grid) : Except DecodeError Vec3 := do
  let x ← fromSteps x grid
  let y ← fromSteps y grid
  let z ← fromSteps z grid
  return ⟨x, y, z⟩

/-- A value its varint carries wider than its one-byte field. -/
def narrow (value : UInt32) : Except DecodeError UInt8 :=
  if value > 255 then .error .outOfRange else .ok value.toUInt8

/-- The same, for a field of two bytes. -/
def narrow16 (value : UInt32) : Except DecodeError UInt16 :=
  if value > 65535 then .error .outOfRange else .ok value.toUInt16

/-- An enumerator between `first` and `last`. -/
def toEnum (value : ℤ) (first last : UInt8) : Except DecodeError UInt8 :=
  if value < first.toNat ∨ value > last.toNat then .error .invalidEnum
  else .ok (UInt8.ofInt value)

/-- Bits of which only those of `mask` may be set. -/
def toBits (bits mask : UInt32) : Except DecodeError UInt32 :=
  if bits &&& ~~~mask ≠ 0 then .error .reservedBits else .ok bits

def text (isUtf8 : Text → Bool) (text : Bytes) (maxLength : ℕ) : Except DecodeError Text :=
  if maxLength < text.length then .error .fieldTooLong
  else if !isUtf8 text then .error .malformed
  else .ok text

/-- `size` bytes; none are the zeros an absent field reads as. -/
def bytesOf (bytes : Bytes) (size : ℕ) : Except DecodeError (Vector UInt8 size) :=
  if bytes.isEmpty then .ok (Vector.replicate size 0)
  else if h : bytes.length = size then .ok ⟨bytes.toArray, by simpa using h⟩
  else .error .outOfRange

def packHash (bytes : Bytes) : Except DecodeError PackHashWire := bytesOf bytes 32

def uuid (bytes : Bytes) : Except DecodeError UuidWire := bytesOf bytes 16

def fits (size max : ℕ) : Except DecodeError Unit :=
  if size > max then .error .fieldTooLong else .ok ()

end Inbound

/-- A list of at most `max` elements, each as `read` maps it. -/
def readList {α β : Type} (items : List α) (max : ℕ) (read : α → Except DecodeError β) :
    Except DecodeError (List β) := do
  Inbound.fits items.length max
  items.mapM read

/-! ### One mapping a message -/

section
variable (isUtf8 : Text → Bool)

/-- All but the sequence. -/
def Pb.Command.read (command : Pb.Command) : Except DecodeError CommandWire := do
  let direction ← Inbound.vecFromSteps command.directionX command.directionY command.directionZ
    kDirectionGrid
  let yaw ← Inbound.fromSteps command.yaw kAngleGrid
  let pitch ← Inbound.fromSteps command.pitch kAngleGrid
  let bits ← Inbound.toBits command.bits kCommandBitsMask
  let stance ← Inbound.toEnum (bits >>> kCommandStanceShift).toNat StanceWire.standing.value
    StanceWire.prone.value
  let seenAge ← Inbound.narrow command.seenAge
  let seenFraction ← Inbound.fromSteps command.seenFraction.toNat kFractionGrid
  return {
    direction, yaw, pitch, seenFraction
    flags := (bits &&& kCommandFlagsMask.toUInt32).toUInt8
    desiredStance := ⟨stance⟩
    seenAge }

def Pb.Body.read (body : Pb.Body) : Except DecodeError EntityStateWire := do
  let position ← Inbound.vecFromSteps body.positionX body.positionY body.positionZ kPositionGrid
  let velocity ← Inbound.vecFromSteps body.velocityX body.velocityY body.velocityZ kVelocityGrid
  let bits ← Inbound.toBits body.bits kBodyBitsMask
  let stance ← Inbound.toEnum (bits &&& kStanceMask).toNat StanceWire.standing.value
    StanceWire.prone.value
  let previousStance ← Inbound.toEnum ((bits >>> kPreviousStanceShift) &&& kStanceMask).toNat
    StanceWire.standing.value StanceWire.prone.value
  let stamina ← Inbound.fromSteps body.stamina.toNat kStaminaGrid
  let yaw ← Inbound.fromSteps body.yaw kAngleGrid
  let pitch ← Inbound.fromSteps body.pitch kAngleGrid
  let stride ← Inbound.narrow body.stride
  let toGo ← Inbound.narrow body.stanceToGo
  return {
    entity := body.entity
    body := {
      position, velocity, stamina
      flags := ((bits >>> kBodyFlagsShift) &&& kBodyFlagsMask.toUInt32).toUInt8
      stance := ⟨stance⟩
      stride
      previousStance := ⟨previousStance⟩
      stanceProgress := kStanceProgressOver - toGo }
    yaw, pitch }

def Pb.JoinRequest.read (request : Pb.JoinRequest) : Except DecodeError JoinRequestWire := do
  let engineVersion ← Inbound.text isUtf8 request.engineVersion kMaxEngineVersionLength
  let clientPack ← Inbound.packHash request.clientPack
  let character ← Inbound.text isUtf8 request.character kMaxCharacterNameLength
  let run ← Inbound.uuid request.run
  return { engineVersion, clientPack, character, run }

def Pb.ReenactRequest.read (request : Pb.ReenactRequest) :
    Except DecodeError ReenactRequestWire := do
  let engineVersion ← Inbound.text isUtf8 request.engineVersion kMaxEngineVersionLength
  let clientPack ← Inbound.packHash request.clientPack
  let character ← Inbound.text isUtf8 request.character kMaxCharacterNameLength
  let spawn ← Inbound.vecFromSteps request.spawnX request.spawnY request.spawnZ kPositionGrid
  let run ← Inbound.uuid request.run
  return { engineVersion, clientPack, character, spawn, run }

def Pb.RecoilKick.read (kick : Pb.RecoilKick) : Except DecodeError RecoilKickWire :=
  return { pitch := kick.pitch, yaw := kick.yaw }

def Pb.Rifle.read (rifle : Pb.Rifle) : Except DecodeError RifleWire := do
  let recoilPattern ← readList rifle.recoilPattern kMaxRecoilKicks Pb.RecoilKick.read
  let magazineCapacity ← Inbound.narrow rifle.magazineCapacity
  return {
    roundsPerMinute := rifle.roundsPerMinute
    muzzleVelocity := rifle.muzzleVelocity
    reloadSeconds := rifle.reloadSeconds
    recoilRecoveryPerSecond := rifle.recoilRecoveryPerSecond
    adsRecoilScale := rifle.adsRecoilScale
    adsFieldOfView := rifle.adsFieldOfView
    recoilPattern, magazineCapacity }

/-- A member not set reads as its own defaults. -/
def Pb.Parameters.read (parameters : Pb.Parameters) : Except DecodeError ParametersWire := do
  let stamina := parameters.stamina.getD {}
  let ammo := parameters.ammo.getD {}
  let rifle ← (parameters.rifle.getD {}).read
  let playerCount ← Inbound.narrow parameters.playerCount
  return {
    stamina := {
      depletePerSecond := stamina.depletePerSecond
      regenPerSecond := stamina.regenPerSecond
      forcedWalkBelow := stamina.forcedWalkBelow }
    rifle
    ammo := {
      gravity := ammo.gravity
      maxRange := ammo.maxRange
      headDamage := ammo.headDamage
      torsoDamage := ammo.torsoDamage
      limbDamage := ammo.limbDamage }
    startingHealth := parameters.startingHealth
    playerCount }

def Pb.JoinAccepted.read (accepted : Pb.JoinAccepted) : Except DecodeError JoinAcceptedWire := do
  let session ← Inbound.uuid accepted.session
  let tickRateHz ← Inbound.narrow accepted.tickRateHz
  let parameters ← (accepted.parameters.getD {}).read
  let character ← Inbound.text isUtf8 accepted.character kMaxCharacterNameLength
  return { session, tickRateHz, parameters, character }

def Pb.JoinRefused.read (refused : Pb.JoinRefused) : Except DecodeError JoinRefusedWire := do
  let reason ← Inbound.toEnum refused.reason.toInt JoinRefusalWire.versionMismatch.value
    JoinRefusalWire.reenactmentsNotAccepted.value
  return { reason := ⟨reason⟩ }

def Pb.Command.readSequenced (command : Pb.Command) : Except DecodeError SequencedCommandWire := do
  let read ← command.read
  return { sequence := command.sequence, command := read }

def Pb.Commands.read (commands : Pb.Commands) : Except DecodeError CommandsWire := do
  let read ← readList commands.commands kMaxCommandsPerMessage Pb.Command.readSequenced
  return { commands := read, seenTick := commands.seenTick }

def Pb.AuthoritativeState.read (state : Pb.AuthoritativeState) :
    Except DecodeError AuthoritativeStateWire := do
  let bodies ← readList state.bodies kMaxPlayers Pb.Body.read
  let recoilPitch ← Inbound.fromSteps state.rifleRecoilPitch kAngleGrid
  let recoilYaw ← Inbound.fromSteps state.rifleRecoilYaw kAngleGrid
  let rounds ← Inbound.narrow state.rifleRounds
  let burstIndex ← Inbound.narrow state.rifleBurstIndex
  let queuedCommands ← Inbound.narrow state.queuedCommands
  return {
    tick := state.tick
    bodies
    rifle := {
      cooldown := state.rifleCooldown
      reloadRemaining := state.rifleReloadRemaining
      recoilPitch, recoilYaw, rounds, burstIndex }
    health := state.health
    acknowledgedSequence := state.acknowledgedSequence
    queuedCommands }

def Pb.RosterEntry.read (entry : Pb.RosterEntry) : Except DecodeError RosterEntryWire := do
  let session ← Inbound.uuid entry.session
  let character ← Inbound.text isUtf8 entry.character kMaxCharacterNameLength
  return { session, character }

def Pb.Lobby.read (lobby : Pb.Lobby) : Except DecodeError LobbyWire := do
  let roster ← readList lobby.roster kMaxPlayers (Pb.RosterEntry.read isUtf8)
  return { version := lobby.version, roster }

def Pb.Ready.read (ready : Pb.Ready) : Except DecodeError ReadyWire :=
  return { version := ready.version }

def Pb.MatchPlayer.read (player : Pb.MatchPlayer) : Except DecodeError MatchPlayerWire := do
  let spawn ← Inbound.vecFromSteps player.spawnX player.spawnY player.spawnZ kPositionGrid
  let session ← Inbound.uuid player.session
  let character ← Inbound.text isUtf8 player.character kMaxCharacterNameLength
  return { spawn, session, entity := player.entity, character }

def Pb.MatchStart.read (start : Pb.MatchStart) : Except DecodeError MatchStartWire := do
  let players ← readList start.players kMaxPlayers (Pb.MatchPlayer.read isUtf8)
  let name ← Inbound.uuid start.name
  return { players, firstTick := start.firstTick, name }

def Pb.MatchEnd.read (matchEnd : Pb.MatchEnd) : Except DecodeError MatchEndWire := do
  let winner ← Inbound.uuid matchEnd.winner
  return { winner }

def Pb.Shot.read (shot : Pb.Shot) : Except DecodeError ShotWire := do
  let origin ← Inbound.vecFromSteps shot.originX shot.originY shot.originZ kPositionGrid
  let yaw ← Inbound.fromSteps shot.yaw kAngleGrid
  let pitch ← Inbound.fromSteps shot.pitch kAngleGrid
  return { tick := shot.tick, origin, shooter := shot.shooter, yaw, pitch }

def Pb.HitConfirmation.read (hit : Pb.HitConfirmation) :
    Except DecodeError HitConfirmationWire := do
  let part ← Inbound.toEnum hit.part.toInt BodyPartWire.head.value BodyPartWire.limb.value
  return { target := hit.target, damage := hit.damage, part := ⟨part⟩ }

def Pb.Death.read (death : Pb.Death) : Except DecodeError DeathWire := do
  let yaw ← Inbound.fromSteps death.yaw kAngleGrid
  let pitch ← Inbound.fromSteps death.pitch kAngleGrid
  let part ← Inbound.toEnum death.part.toInt BodyPartWire.head.value BodyPartWire.limb.value
  return { victim := death.victim, killer := death.killer, yaw, pitch, part := ⟨part⟩ }

def Pb.ReplayListing.read (listing : Pb.ReplayListing) :
    Except DecodeError ReplayListingWire := do
  let characters ← readList listing.characters kMaxPlayers
    fun character => Inbound.text isUtf8 character kMaxCharacterNameLength
  let name ← Inbound.text isUtf8 listing.name kMaxCaptureNameLength
  let tickRateHz ← Inbound.narrow listing.tickRateHz
  return { startedUnixMs := listing.startedUnixMs, characters, name, ticks := listing.ticks,
           tickRateHz }

def Pb.ReplayList.read (list : Pb.ReplayList) : Except DecodeError ReplayListWire := do
  let replays ← readList list.replays kMaxReplayListings (Pb.ReplayListing.read isUtf8)
  return { replays }

def Pb.ReplayRequest.read (request : Pb.ReplayRequest) : Except DecodeError ReplayRequestWire := do
  let engineVersion ← Inbound.text isUtf8 request.engineVersion kMaxEngineVersionLength
  let clientPack ← Inbound.packHash request.clientPack
  let capture ← Inbound.text isUtf8 request.capture kMaxCaptureNameLength
  let run ← Inbound.uuid request.run
  return { engineVersion, clientPack, capture, run }

def Pb.DebugSubscribe.read (subscribe : Pb.DebugSubscribe) :
    Except DecodeError DebugSubscribeWire := do
  let flags ← Inbound.narrow subscribe.flags
  return { flags }

def Pb.JudgedPlayer.read (player : Pb.JudgedPlayer) : Except DecodeError JudgedPlayerWire := do
  let position ← Inbound.vecFromSteps player.positionX player.positionY player.positionZ
    kPositionGrid
  let yaw ← Inbound.fromSteps player.yaw kAngleGrid
  let bits ← Inbound.toBits player.bits kStanceMask
  let stance ← Inbound.toEnum bits.toNat StanceWire.standing.value StanceWire.prone.value
  return { position, entity := player.entity, yaw, stance := ⟨stance⟩ }

def Pb.ShotJudgementEntry.read (entry : Pb.ShotJudgementEntry) :
    Except DecodeError ShotJudgementEntryWire := do
  let players ← readList entry.players kMaxPlayers Pb.JudgedPlayer.read
  let ticksAfterShot ← Inbound.narrow16 entry.ticksAfterShot
  return { players, ticksAfterShot }

def Pb.ShotJudgement.read (judgement : Pb.ShotJudgement) :
    Except DecodeError ShotJudgementWire := do
  let bits ← Inbound.toBits judgement.bits kJudgementBitsMask
  let entries ← readList judgement.entries kMaxShotJudgementEntries Pb.ShotJudgementEntry.read
  let point ← Inbound.vecFromSteps judgement.pointX judgement.pointY judgement.pointZ kPositionGrid
  let delayFraction ← Inbound.fromSteps judgement.delayFraction.toNat kFractionGrid
  let delayTicks ← Inbound.narrow judgement.delayTicks
  let part ← Inbound.toEnum ((bits >>> kJudgementPartShift) &&& kPartMask).toNat
    BodyPartWire.head.value BodyPartWire.limb.value
  return {
    shotTick := judgement.shotTick
    entries, point
    target := judgement.target
    delayFraction, delayTicks
    struck := ⟨(bits &&& kStruckMask).toUInt8⟩
    part := ⟨part⟩
    flags := (bits >>> kJudgementFlagsShift).toUInt8 }

/-- The message an envelope holds; a type of none of this build's is refused. -/
def Pb.Message.read : Pb.Message → Except DecodeError MessageWire
  | .notSet => .error .unknownType
  | .joinRequest body => .joinRequest <$> body.read isUtf8
  | .joinAccepted body => .joinAccepted <$> body.read isUtf8
  | .joinRefused body => .joinRefused <$> body.read
  | .commands body => .commands <$> body.read
  | .authoritativeState body => .authoritativeState <$> body.read
  | .lobby body => .lobby <$> body.read isUtf8
  | .ready body => .ready <$> body.read
  | .matchStart body => .matchStart <$> body.read isUtf8
  | .matchEnd body => .matchEnd <$> body.read
  | .shot body => .shot <$> body.read
  | .hitConfirmation body => .hitConfirmation <$> body.read
  | .death body => .death <$> body.read
  | .replayListRequest => .ok .replayListRequest
  | .replayList body => .replayList <$> body.read isUtf8
  | .replayRequest body => .replayRequest <$> body.read isUtf8
  | .reenactRequest body => .reenactRequest <$> body.read isUtf8
  | .debugSubscribe body => .debugSubscribe <$> body.read
  | .shotJudgement body => .shotJudgement <$> body.read

/-- The largest payload protobuf parses: its sizes are C++ `int`s. -/
def kMaxParsedSize : ℕ := 2 ^ 31 - 1

/-- The message in a payload, or why it is none of this build's. -/
def decode (parse : Bytes → Option Pb.Message) (payload : Bytes) :
    Except DecodeError MessageWire :=
  if kMaxParsedSize < payload.length then .error .malformed
  else match parse payload with
    | none => .error .malformed
    | some message => message.read isUtf8

end

end Augusta.Protocol
