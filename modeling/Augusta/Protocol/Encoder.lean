import Augusta.Core.Parameters
import Augusta.Lib.Outcome
import Augusta.Math.Grid
import Augusta.Protocol.Messages
import Augusta.Protocol.Schema

/-! How `Encode` maps each message's `*Wire` to its generated member.

    The first field the protocol cannot carry ends a mapping: the code goes on and remembers it, but
    nothing it sets after that is ever serialized. Whether a text is UTF-8 is asked of `isUtf8`,
    which stands for the library the code asks. -/

namespace Augusta.Protocol
open Lib (Binary32)
open Lib.Protobuf
open Limits Math

/-! ### The bitfields -/

def kCommandFlagsMask : UInt8 := 0x0F

def kCommandStanceShift : UInt32 := 4

def kStanceMask : UInt32 := 0x03

def kCommandBitsMask : UInt32 := kCommandFlagsMask.toUInt32 ||| kStanceMask <<< kCommandStanceShift

def kBodyFlagsMask : UInt8 := 0x07

def kBodyFlagsShift : UInt32 := 2

def kPreviousStanceShift : UInt32 := 5

def kBodyBitsMask : UInt32 :=
  kStanceMask ||| kBodyFlagsMask.toUInt32 <<< kBodyFlagsShift |||
    kStanceMask <<< kPreviousStanceShift

def kStruckMask : UInt32 := 0x03

def kJudgementPartShift : UInt32 := 2

def kPartMask : UInt32 := 0x03

def kJudgementFlagsShift : UInt32 := 4

def kJudgementFlagsMask : UInt8 := 0x01

def kJudgementBitsMask : UInt32 :=
  kStruckMask ||| kPartMask <<< kJudgementPartShift |||
    kJudgementFlagsMask.toUInt32 <<< kJudgementFlagsShift

/-! ### The checks -/

namespace Outbound

def check (holds : Bool) (error : EncodeError) : Except EncodeError Unit :=
  if holds then .ok () else .error error

/-- An enumerator's number, which must lie between `first` and `last`. -/
def fromEnum (value first last : UInt8) : Except EncodeError UInt32 := do
  check (decide (first ≤ value) && decide (value ≤ last)) .invalidEnum
  return value.toUInt32

/-- Flags of which only the bits of `mask` may be set. -/
def fromFlags (flags mask : UInt8) : Except EncodeError UInt32 := do
  check (flags &&& ~~~mask == 0) .reservedBits
  return flags.toUInt32

def text (isUtf8 : Text → Bool) (text : Text) (maxLength : ℕ) : Except EncodeError Bytes := do
  check (decide (text.length ≤ maxLength)) .fieldTooLong
  check (isUtf8 text) .notUtf8
  return text

def fits (size max : ℕ) : Except EncodeError Unit := check (decide (size ≤ max)) .fieldTooLong

theorem check_eq_ok {holds : Bool} {error : EncodeError} {u : Unit} :
    check holds error = .ok u ↔ holds = true := by
  cases holds <;> simp [check]

theorem fromEnum_eq_ok {value first last : UInt8} {n : UInt32} :
    fromEnum value first last = .ok n ↔ (first ≤ value ∧ value ≤ last) ∧ value.toUInt32 = n := by
  simp [fromEnum, Except.map_eq_ok, check_eq_ok]

theorem fromFlags_eq_ok {flags mask : UInt8} {n : UInt32} :
    fromFlags flags mask = .ok n ↔ flags &&& ~~~mask = 0 ∧ flags.toUInt32 = n := by
  simp [fromFlags, Except.map_eq_ok, check_eq_ok]

theorem text_eq_ok {isUtf8 : Text → Bool} {t written : Text} {max : ℕ} :
    text isUtf8 t max = .ok written ↔ (t.length ≤ max ∧ isUtf8 t = true) ∧ t = written := by
  simp [text, Except.bind_eq_ok, Except.map_eq_ok, check_eq_ok, and_assoc]

theorem fits_eq_ok {size max : ℕ} {u : Unit} : fits size max = .ok u ↔ size ≤ max := by
  simp [fits, check_eq_ok]

end Outbound

def steps (value : Binary32) (grid : Grid) : ℤ := toSteps value grid

/-- On a grid with no negative count. -/
def unsignedSteps (value : Binary32) (grid : Grid) : UInt32 :=
  UInt32.ofInt (toSteps value grid)

/-- A list of at most `max` elements, each as `write` maps it. -/
def writeList {α β : Type} (items : List α) (max : ℕ) (write : α → Except EncodeError β) :
    Except EncodeError (List β) := do
  Outbound.fits items.length max
  items.mapM write

theorem writeList_eq_ok {α β : Type} {items : List α} {max : ℕ}
    {write : α → Except EncodeError β} {written : List β} :
    writeList items max write = .ok written ↔
      items.length ≤ max ∧ items.mapM write = .ok written := by
  simp [writeList, Except.bind_eq_ok, Outbound.fits_eq_ok]

/-! ### One mapping a message -/

section
variable (isUtf8 : Text → Bool)

def EntityStateWire.write (wire : EntityStateWire) : Except EncodeError Pb.Body := do
  let stance ← Outbound.fromEnum wire.body.stance.value StanceWire.standing.value
    StanceWire.prone.value
  let flags ← Outbound.fromFlags wire.body.flags kBodyFlagsMask
  let previousStance ← Outbound.fromEnum wire.body.previousStance.value
    StanceWire.standing.value StanceWire.prone.value
  return {
    entity := wire.entity
    positionX := steps wire.body.position.x kPositionGrid
    positionY := steps wire.body.position.y kPositionGrid
    positionZ := steps wire.body.position.z kPositionGrid
    velocityX := steps wire.body.velocity.x kVelocityGrid
    velocityY := steps wire.body.velocity.y kVelocityGrid
    velocityZ := steps wire.body.velocity.z kVelocityGrid
    bits := stance ||| flags <<< kBodyFlagsShift ||| previousStance <<< kPreviousStanceShift
    stamina := unsignedSteps wire.body.stamina kStaminaGrid
    yaw := steps wire.yaw kAngleGrid
    pitch := steps wire.pitch kAngleGrid
    stride := wire.body.stride.toUInt32
    stanceToGo := (kStanceProgressOver - wire.body.stanceProgress).toUInt32 }

def RecoilKickWire.write (wire : RecoilKickWire) : Except EncodeError Pb.RecoilKick :=
  return { pitch := wire.pitch, yaw := wire.yaw }

def RifleWire.write (wire : RifleWire) : Except EncodeError Pb.Rifle := do
  let recoilPattern ← writeList wire.recoilPattern kMaxRecoilKicks RecoilKickWire.write
  return {
    roundsPerMinute := wire.roundsPerMinute
    muzzleVelocity := wire.muzzleVelocity
    reloadSeconds := wire.reloadSeconds
    recoilRecoveryPerSecond := wire.recoilRecoveryPerSecond
    adsRecoilScale := wire.adsRecoilScale
    adsFieldOfView := wire.adsFieldOfView
    recoilPattern
    magazineCapacity := wire.magazineCapacity.toUInt32 }

def ParametersWire.write (wire : ParametersWire) : Except EncodeError Pb.Parameters := do
  let rifle ← wire.rifle.write
  return {
    stamina := some {
      depletePerSecond := wire.stamina.depletePerSecond
      regenPerSecond := wire.stamina.regenPerSecond
      forcedWalkBelow := wire.stamina.forcedWalkBelow }
    rifle := some rifle
    ammo := some {
      gravity := wire.ammo.gravity
      maxRange := wire.ammo.maxRange
      headDamage := wire.ammo.headDamage
      torsoDamage := wire.ammo.torsoDamage
      limbDamage := wire.ammo.limbDamage }
    startingHealth := wire.startingHealth
    playerCount := wire.playerCount.toUInt32 }

def MatchPlayerWire.write (wire : MatchPlayerWire) : Except EncodeError Pb.MatchPlayer := do
  let character ← Outbound.text isUtf8 wire.character kMaxCharacterNameLength
  return {
    session := wire.session.toList
    entity := wire.entity
    character
    spawnX := steps wire.spawn.x kPositionGrid
    spawnY := steps wire.spawn.y kPositionGrid
    spawnZ := steps wire.spawn.z kPositionGrid }

def ReplayListingWire.write (wire : ReplayListingWire) : Except EncodeError Pb.ReplayListing := do
  let name ← Outbound.text isUtf8 wire.name kMaxCaptureNameLength
  let characters ← writeList wire.characters kMaxPlayers
    fun character => Outbound.text isUtf8 character kMaxCharacterNameLength
  return {
    name
    startedUnixMs := wire.startedUnixMs
    ticks := wire.ticks
    tickRateHz := wire.tickRateHz.toUInt32
    characters }

/-- All but the sequence, which a Match capture's Command has none of. -/
def CommandWire.write (wire : CommandWire) : Except EncodeError Pb.Command := do
  let flags ← Outbound.fromFlags wire.flags kCommandFlagsMask
  let stance ← Outbound.fromEnum wire.desiredStance.value StanceWire.standing.value
    StanceWire.prone.value
  return {
    directionX := steps wire.direction.x kDirectionGrid
    directionY := steps wire.direction.y kDirectionGrid
    directionZ := steps wire.direction.z kDirectionGrid
    yaw := steps wire.yaw kAngleGrid
    pitch := steps wire.pitch kAngleGrid
    bits := flags ||| stance <<< kCommandStanceShift
    seenAge := wire.seenAge.toUInt32
    seenFraction := unsignedSteps wire.seenFraction kFractionGrid }

def JoinRequestWire.write (wire : JoinRequestWire) : Except EncodeError Pb.JoinRequest := do
  let engineVersion ← Outbound.text isUtf8 wire.engineVersion kMaxEngineVersionLength
  let character ← Outbound.text isUtf8 wire.character kMaxCharacterNameLength
  return { engineVersion, clientPack := wire.clientPack.toList, character, run := wire.run.toList }

def JoinAcceptedWire.write (wire : JoinAcceptedWire) : Except EncodeError Pb.JoinAccepted := do
  let parameters ← wire.parameters.write
  let character ← Outbound.text isUtf8 wire.character kMaxCharacterNameLength
  return {
    session := wire.session.toList
    tickRateHz := wire.tickRateHz.toUInt32
    parameters := some parameters
    character }

def JoinRefusedWire.write (wire : JoinRefusedWire) : Except EncodeError Pb.JoinRefused := do
  let reason ← Outbound.fromEnum wire.reason.value JoinRefusalWire.versionMismatch.value
    JoinRefusalWire.reenactmentsNotAccepted.value
  return { reason := reason.toUInt64.toInt64 }

def SequencedCommandWire.write (wire : SequencedCommandWire) : Except EncodeError Pb.Command := do
  let command ← wire.command.write
  return { command with sequence := wire.sequence }

def CommandsWire.write (wire : CommandsWire) : Except EncodeError Pb.Commands := do
  let commands ← writeList wire.commands kMaxCommandsPerMessage SequencedCommandWire.write
  return { commands, seenTick := wire.seenTick }

/-- The fields every recipient of a tick is told alike, then the recipient's own. -/
def AuthoritativeStateWire.write (wire : AuthoritativeStateWire) :
    Except EncodeError Pb.AuthoritativeState := do
  let bodies ← writeList wire.bodies kMaxPlayers EntityStateWire.write
  return {
    tick := wire.tick
    bodies
    acknowledgedSequence := wire.acknowledgedSequence
    queuedCommands := wire.queuedCommands.toUInt32
    rifleRounds := wire.rifle.rounds.toUInt32
    rifleCooldown := wire.rifle.cooldown
    rifleReloadRemaining := wire.rifle.reloadRemaining
    rifleBurstIndex := wire.rifle.burstIndex.toUInt32
    rifleRecoilPitch := steps wire.rifle.recoilPitch kAngleGrid
    rifleRecoilYaw := steps wire.rifle.recoilYaw kAngleGrid
    health := wire.health }

def RosterEntryWire.write (wire : RosterEntryWire) : Except EncodeError Pb.RosterEntry := do
  let character ← Outbound.text isUtf8 wire.character kMaxCharacterNameLength
  return { session := wire.session.toList, character }

def LobbyWire.write (wire : LobbyWire) : Except EncodeError Pb.Lobby := do
  let roster ← writeList wire.roster kMaxPlayers (RosterEntryWire.write isUtf8)
  return { version := wire.version, roster }

def ReadyWire.write (wire : ReadyWire) : Except EncodeError Pb.Ready :=
  return { version := wire.version }

def MatchStartWire.write (wire : MatchStartWire) : Except EncodeError Pb.MatchStart := do
  let players ← writeList wire.players kMaxPlayers (MatchPlayerWire.write isUtf8)
  return { players, firstTick := wire.firstTick, name := wire.name.toList }

def MatchEndWire.write (wire : MatchEndWire) : Except EncodeError Pb.MatchEnd :=
  return { winner := wire.winner.toList }

def ShotWire.write (wire : ShotWire) : Except EncodeError Pb.Shot :=
  return {
    tick := wire.tick
    shooter := wire.shooter
    originX := steps wire.origin.x kPositionGrid
    originY := steps wire.origin.y kPositionGrid
    originZ := steps wire.origin.z kPositionGrid
    yaw := steps wire.yaw kAngleGrid
    pitch := steps wire.pitch kAngleGrid }

def HitConfirmationWire.write (wire : HitConfirmationWire) :
    Except EncodeError Pb.HitConfirmation := do
  let part ← Outbound.fromEnum wire.part.value BodyPartWire.head.value BodyPartWire.limb.value
  return { target := wire.target, part := part.toUInt64.toInt64, damage := wire.damage }

def DeathWire.write (wire : DeathWire) : Except EncodeError Pb.Death := do
  let part ← Outbound.fromEnum wire.part.value BodyPartWire.head.value BodyPartWire.limb.value
  return {
    victim := wire.victim
    killer := wire.killer
    part := part.toUInt64.toInt64
    yaw := steps wire.yaw kAngleGrid
    pitch := steps wire.pitch kAngleGrid }

def ReplayListWire.write (wire : ReplayListWire) : Except EncodeError Pb.ReplayList := do
  let replays ← writeList wire.replays kMaxReplayListings (ReplayListingWire.write isUtf8)
  return { replays }

def ReplayRequestWire.write (wire : ReplayRequestWire) : Except EncodeError Pb.ReplayRequest := do
  let engineVersion ← Outbound.text isUtf8 wire.engineVersion kMaxEngineVersionLength
  let capture ← Outbound.text isUtf8 wire.capture kMaxCaptureNameLength
  return { engineVersion, clientPack := wire.clientPack.toList, capture, run := wire.run.toList }

def ReenactRequestWire.write (wire : ReenactRequestWire) :
    Except EncodeError Pb.ReenactRequest := do
  let engineVersion ← Outbound.text isUtf8 wire.engineVersion kMaxEngineVersionLength
  let character ← Outbound.text isUtf8 wire.character kMaxCharacterNameLength
  return {
    engineVersion
    clientPack := wire.clientPack.toList
    character
    spawnX := steps wire.spawn.x kPositionGrid
    spawnY := steps wire.spawn.y kPositionGrid
    spawnZ := steps wire.spawn.z kPositionGrid
    run := wire.run.toList }

def DebugSubscribeWire.write (wire : DebugSubscribeWire) : Except EncodeError Pb.DebugSubscribe :=
  return { flags := wire.flags.toUInt32 }

def JudgedPlayerWire.write (wire : JudgedPlayerWire) : Except EncodeError Pb.JudgedPlayer := do
  let stance ← Outbound.fromEnum wire.stance.value StanceWire.standing.value StanceWire.prone.value
  return {
    entity := wire.entity
    positionX := steps wire.position.x kPositionGrid
    positionY := steps wire.position.y kPositionGrid
    positionZ := steps wire.position.z kPositionGrid
    bits := stance
    yaw := steps wire.yaw kAngleGrid }

def ShotJudgementEntryWire.write (wire : ShotJudgementEntryWire) :
    Except EncodeError Pb.ShotJudgementEntry := do
  let players ← writeList wire.players kMaxPlayers JudgedPlayerWire.write
  return { ticksAfterShot := wire.ticksAfterShot.toUInt32, players }

def ShotJudgementWire.write (wire : ShotJudgementWire) : Except EncodeError Pb.ShotJudgement := do
  let struck ← Outbound.fromEnum wire.struck.value StruckWire.nothing.value
    StruckWire.hitbox.value
  let part ← Outbound.fromEnum wire.part.value BodyPartWire.head.value BodyPartWire.limb.value
  let flags ← Outbound.fromFlags wire.flags kJudgementFlagsMask
  let entries ← writeList wire.entries kMaxShotJudgementEntries ShotJudgementEntryWire.write
  return {
    shotTick := wire.shotTick
    delayTicks := wire.delayTicks.toUInt32
    delayFraction := unsignedSteps wire.delayFraction kFractionGrid
    bits := struck ||| part <<< kJudgementPartShift ||| flags <<< kJudgementFlagsShift
    pointX := steps wire.point.x kPositionGrid
    pointY := steps wire.point.y kPositionGrid
    pointZ := steps wire.point.z kPositionGrid
    target := wire.target
    entries }

/-- The envelope a message travels in. -/
def MessageWire.write : MessageWire → Except EncodeError Pb.Message
  | .joinRequest wire => .joinRequest <$> wire.write isUtf8
  | .joinAccepted wire => .joinAccepted <$> wire.write isUtf8
  | .joinRefused wire => .joinRefused <$> wire.write
  | .commands wire => .commands <$> wire.write
  | .authoritativeState wire => .authoritativeState <$> wire.write
  | .lobby wire => .lobby <$> wire.write isUtf8
  | .ready wire => .ready <$> wire.write
  | .matchStart wire => .matchStart <$> wire.write isUtf8
  | .matchEnd wire => .matchEnd <$> wire.write
  | .shot wire => .shot <$> wire.write
  | .hitConfirmation wire => .hitConfirmation <$> wire.write
  | .death wire => .death <$> wire.write
  | .replayListRequest => .ok .replayListRequest
  | .replayList wire => .replayList <$> wire.write isUtf8
  | .replayRequest wire => .replayRequest <$> wire.write isUtf8
  | .reenactRequest wire => .reenactRequest <$> wire.write isUtf8
  | .debugSubscribe wire => .debugSubscribe <$> wire.write
  | .shotJudgement wire => .shotJudgement <$> wire.write

/-- A message's payload, or why the protocol carries none such. -/
def encode (message : MessageWire) : Except EncodeError Bytes :=
  Pb.Message.bytes <$> message.write isUtf8

end

/-- The type an encoded message reports: the number of its first field. -/
def typeOfPayload (payload : Bytes) : MessageTypeWire := UInt8.ofNat (readTag payload / 8)

end Augusta.Protocol
