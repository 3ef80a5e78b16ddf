import Augusta.Protocol.RoundTrip

/-! A Match capture's records on the wire: one envelope of its own, its members numbered from 1000,
    mapped as the messages are. A captured Command's command is a Commands message's.

      CaptureRecordWire ──write──▶ Pb.CaptureRecord ──bytes──▶ payload -/

namespace Augusta.Protocol
open Lib (Binary32)
open Lib.Protobuf
open Limits Math

structure CaptureHeaderWire where
  serverPack : PackHashWire := Vector.replicate 32 0
  clientPack : PackHashWire := Vector.replicate 32 0
  engineVersion : Text := []
  startedUnixMs : Int64 := 0
  /-- The Match's ID. -/
  match_ : UuidWire := nilUuid
  tickRateHz : UInt8 := 0
  deriving DecidableEq

structure CapturedJoinWire where
  spawn : Vec3 := {}
  offset : UInt32 := 0
  session : UuidWire := nilUuid
  character : Text := []
  player : UInt8 := 0
  deriving DecidableEq

structure CapturedCommandWire where
  command : CommandWire := {}
  offset : UInt32 := 0
  /-- Its Seen time's tick, from the Match's first. -/
  seenOffset : Int32 := 0
  player : UInt8 := 0
  deriving DecidableEq

structure CapturedLeaveWire where
  offset : UInt32 := 0
  player : UInt8 := 0
  deriving DecidableEq

structure CapturedDeathWire where
  offset : UInt32 := 0
  victim : UInt8 := 0
  killer : UInt8 := 0
  deriving DecidableEq

structure CapturedMatchEndWire where
  offset : UInt32 := 0
  /-- 0 for a Draw. -/
  winner : UInt8 := 0
  deriving DecidableEq

inductive CaptureRecordWire
  | header (wire : CaptureHeaderWire)
  | join (wire : CapturedJoinWire)
  | command (wire : CapturedCommandWire)
  | leave (wire : CapturedLeaveWire)
  | death (wire : CapturedDeathWire)
  | matchEnd (wire : CapturedMatchEndWire)
  deriving DecidableEq

/-! ### The generated classes -/

namespace Pb

structure CaptureHeader where
  serverPack : Bytes := []
  clientPack : Bytes := []
  engineVersion : Bytes := []
  startedUnixMs : Int64 := 0
  tickRateHz : UInt32 := 0
  match_ : Bytes := []

def CaptureHeader.bytes (m : CaptureHeader) : Bytes :=
  bytesField 1 m.serverPack ++ bytesField 2 m.clientPack ++ bytesField 3 m.engineVersion ++
    intField 4 m.startedUnixMs ++ uintField 5 m.tickRateHz.toNat ++ bytesField 6 m.match_

structure CapturedJoin where
  offset : UInt32 := 0
  player : UInt32 := 0
  character : Bytes := []
  spawnX : ℤ := 0
  spawnY : ℤ := 0
  spawnZ : ℤ := 0
  session : Bytes := []

def CapturedJoin.bytes (m : CapturedJoin) : Bytes :=
  uintField 1 m.offset.toNat ++ uintField 2 m.player.toNat ++ bytesField 4 m.character ++
    sintField 5 m.spawnX ++ sintField 6 m.spawnY ++ sintField 7 m.spawnZ ++ bytesField 8 m.session

structure CapturedCommand where
  offset : UInt32 := 0
  player : UInt32 := 0
  seenOffset : ℤ := 0
  command : Option Command := none

def CapturedCommand.bytes (m : CapturedCommand) : Bytes :=
  uintField 1 m.offset.toNat ++ uintField 2 m.player.toNat ++ sintField 3 m.seenOffset ++
    (m.command.map fun set => lenField 4 set.bytes).getD []

structure CapturedLeave where
  offset : UInt32 := 0
  player : UInt32 := 0

def CapturedLeave.bytes (m : CapturedLeave) : Bytes :=
  uintField 1 m.offset.toNat ++ uintField 2 m.player.toNat

structure CapturedDeath where
  offset : UInt32 := 0
  victim : UInt32 := 0
  killer : UInt32 := 0

def CapturedDeath.bytes (m : CapturedDeath) : Bytes :=
  uintField 1 m.offset.toNat ++ uintField 2 m.victim.toNat ++ uintField 3 m.killer.toNat

structure CapturedMatchEnd where
  offset : UInt32 := 0
  winner : UInt32 := 0

def CapturedMatchEnd.bytes (m : CapturedMatchEnd) : Bytes :=
  uintField 1 m.offset.toNat ++ uintField 2 m.winner.toNat

/-- The envelope: the one member set, none if it is not set. -/
inductive CaptureRecord
  | notSet
  | header (body : CaptureHeader)
  | join (body : CapturedJoin)
  | command (body : CapturedCommand)
  | leave (body : CapturedLeave)
  | death (body : CapturedDeath)
  | matchEnd (body : CapturedMatchEnd)

def CaptureRecord.bytes : CaptureRecord → Bytes
  | .notSet => []
  | .header body => lenField 1001 body.bytes
  | .join body => lenField 1002 body.bytes
  | .command body => lenField 1003 body.bytes
  | .leave body => lenField 1004 body.bytes
  | .death body => lenField 1005 body.bytes
  | .matchEnd body => lenField 1006 body.bytes

end Pb

/-! ### The mappings -/

section
variable (isUtf8 : Text → Bool)

def CaptureHeaderWire.write (wire : CaptureHeaderWire) : Except EncodeError Pb.CaptureHeader := do
  let engineVersion ← Outbound.text isUtf8 wire.engineVersion kMaxEngineVersionLength
  return {
    serverPack := wire.serverPack.toList
    clientPack := wire.clientPack.toList
    engineVersion
    startedUnixMs := wire.startedUnixMs
    tickRateHz := wire.tickRateHz.toUInt32
    match_ := wire.match_.toList }

def CapturedJoinWire.write (wire : CapturedJoinWire) : Except EncodeError Pb.CapturedJoin := do
  let character ← Outbound.text isUtf8 wire.character kMaxCharacterNameLength
  return {
    offset := wire.offset
    player := wire.player.toUInt32
    session := wire.session.toList
    character
    spawnX := steps wire.spawn.x kPositionGrid
    spawnY := steps wire.spawn.y kPositionGrid
    spawnZ := steps wire.spawn.z kPositionGrid }

def CapturedCommandWire.write (wire : CapturedCommandWire) :
    Except EncodeError Pb.CapturedCommand := do
  let command ← wire.command.write
  return {
    offset := wire.offset
    player := wire.player.toUInt32
    seenOffset := wire.seenOffset.toInt
    command := some command }

def CaptureRecordWire.write : CaptureRecordWire → Except EncodeError Pb.CaptureRecord
  | .header wire => .header <$> wire.write isUtf8
  | .join wire => .join <$> wire.write isUtf8
  | .command wire => .command <$> wire.write
  | .leave wire => .ok (.leave { offset := wire.offset, player := wire.player.toUInt32 })
  | .death wire =>
      .ok (.death
        { offset := wire.offset, victim := wire.victim.toUInt32, killer := wire.killer.toUInt32 })
  | .matchEnd wire =>
      .ok (.matchEnd { offset := wire.offset, winner := wire.winner.toUInt32 })

def encodeCaptureRecord (record : CaptureRecordWire) : Except EncodeError Bytes :=
  Pb.CaptureRecord.bytes <$> record.write isUtf8

def Pb.CaptureHeader.read (header : Pb.CaptureHeader) :
    Except DecodeError CaptureHeaderWire := do
  let serverPack ← Inbound.packHash header.serverPack
  let clientPack ← Inbound.packHash header.clientPack
  let engineVersion ← Inbound.text isUtf8 header.engineVersion kMaxEngineVersionLength
  let match_ ← Inbound.uuid header.match_
  let tickRateHz ← Inbound.narrow header.tickRateHz
  return { serverPack, clientPack, engineVersion, startedUnixMs := header.startedUnixMs, match_,
           tickRateHz }

def Pb.CapturedJoin.read (join : Pb.CapturedJoin) : Except DecodeError CapturedJoinWire := do
  let spawn ← Inbound.vecFromSteps join.spawnX join.spawnY join.spawnZ kPositionGrid
  let session ← Inbound.uuid join.session
  let character ← Inbound.text isUtf8 join.character kMaxCharacterNameLength
  let player ← Inbound.narrow join.player
  return { spawn, offset := join.offset, session, character, player }

/-- A command never set reads as its own defaults. -/
def Pb.CapturedCommand.read (command : Pb.CapturedCommand) :
    Except DecodeError CapturedCommandWire := do
  let read ← (command.command.getD {}).read
  let player ← Inbound.narrow command.player
  return { command := read, offset := command.offset,
           seenOffset := Int32.ofInt command.seenOffset, player }

def Pb.CaptureRecord.read : Pb.CaptureRecord → Except DecodeError CaptureRecordWire
  | .notSet => .error .unknownType
  | .header body => .header <$> body.read isUtf8
  | .join body => .join <$> body.read isUtf8
  | .command body => .command <$> body.read
  | .leave body => do
      let player ← Inbound.narrow body.player
      return .leave { offset := body.offset, player }
  | .death body => do
      let victim ← Inbound.narrow body.victim
      let killer ← Inbound.narrow body.killer
      return .death { offset := body.offset, victim, killer }
  | .matchEnd body => do
      let winner ← Inbound.narrow body.winner
      return .matchEnd { offset := body.offset, winner }

def decodeCaptureRecord (parse : Bytes → Option Pb.CaptureRecord) (payload : Bytes) :
    Except DecodeError CaptureRecordWire :=
  if kMaxParsedSize < payload.length then .error .malformed
  else match parse payload with
    | none => .error .malformed
    | some record => record.read isUtf8

end

end Augusta.Protocol
