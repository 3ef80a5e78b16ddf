import Augusta.Capture.Frame
import Augusta.Lib.BigEndian
import Augusta.Link.Commands

/-! A Match capture's records in the engine's types as the protocol's records carry them, and back.

      Header, Join, EventAt ──toWire──▶ CaptureRecordWire ──▶ payload
      CaptureRecord ◀──fromWire── CaptureRecordWire ◀── payload

    A UUID is the number its 16 bytes write, the highest first; a text is its UTF-8. -/

namespace Augusta.Link
open Lib.Protobuf
open Protocol Math Capture

/-! ### Identifiers and texts -/

def uuidToWire (id : SessionId) : UuidWire :=
  ⟨(Lib.bigEndian 16 id).toArray, by simp [Lib.length_bigEndian]⟩

def uuidFromWire (wire : UuidWire) : SessionId := Lib.ofBigEndian wire.toList

/-- `IsUtf8`. -/
def isUtf8 (text : Text) : Bool := (String.fromUTF8? ⟨text.toArray⟩).isSome

def textToWire (text : String) : Text := text.toUTF8.data.toList

/-- Of a text the decoder checked. -/
def textFromWire (text : Text) : String := (String.fromUTF8? ⟨text.toArray⟩).getD ""

theorem uuid_back {id : SessionId} (h : id < 2 ^ 128) : uuidFromWire (uuidToWire id) = id := by
  rw [uuidFromWire, uuidToWire]
  simp only [Vector.toList_mk]
  exact Lib.ofBigEndian_bigEndian h

theorem text_back (text : String) : textFromWire (textToWire text) = text := by
  have hdata : (⟨(textToWire text).toArray⟩ : ByteArray) = text.toUTF8 := by
    simp [textToWire]
  rw [textFromWire, hdata, String.fromUTF8?,
    dif_pos (show text.toUTF8.IsValidUTF8 from text.isValidUTF8), Option.getD_some]
  rfl

/-! ### The records -/

/-- A Join as its record says it. -/
structure CapturedJoin where
  offset : UInt32 := 0
  player : Player := 0
  join : Join
  deriving DecidableEq

inductive CaptureRecord
  | header (header : Header)
  | join (join : CapturedJoin)
  | event (event : EventAt)
  deriving DecidableEq

def headerToWire (header : Header) : CaptureHeaderWire where
  serverPack := header.serverPack
  clientPack := header.clientPack
  engineVersion := textToWire header.engineVersion
  startedUnixMs := Int64.ofInt header.started
  match_ := uuidToWire header.match_
  tickRateHz := header.tickRateHz

def headerFromWire (wire : CaptureHeaderWire) : Header where
  match_ := uuidFromWire wire.match_
  engineVersion := textFromWire wire.engineVersion
  serverPack := wire.serverPack
  clientPack := wire.clientPack
  tickRateHz := wire.tickRateHz
  started := wire.startedUnixMs.toInt

/-- The Join of a player, at offset 0. -/
def joinToWire (player : Player) (join : Join) : CapturedJoinWire where
  spawn := join.spawn
  offset := 0
  session := uuidToWire join.session
  character := textToWire join.character
  player := player

def joinFromWire (wire : CapturedJoinWire) : CapturedJoin where
  offset := wire.offset
  player := wire.player
  join :=
    { session := uuidFromWire wire.session
      character := textFromWire wire.character
      spawn := wire.spawn }

/-- A Command's Seen time is kept as its offset alone, so it goes as its age 0; no winner is 0. -/
def eventToWire (event : EventAt) : CaptureRecordWire :=
  match event.event with
  | .command player seenOffset command =>
      .command
        { command := commandToWire command command.seenTick
          offset := event.offset
          seenOffset := Int32.ofInt seenOffset
          player }
  | .leave player => .leave { offset := event.offset, player }
  | .death victim killer => .death { offset := event.offset, victim, killer }
  | .matchEnd winner => .matchEnd { offset := event.offset, winner := winner.getD 0 }

def recordFromWire : CaptureRecordWire → CaptureRecord
  | .header wire => .header (headerFromWire wire)
  | .join wire => .join (joinFromWire wire)
  | .command wire =>
      .event ⟨wire.offset,
        .command wire.player wire.seenOffset.toInt (commandFromWire wire.command 0)⟩
  | .leave wire => .event ⟨wire.offset, .leave wire.player⟩
  | .death wire => .event ⟨wire.offset, .death wire.victim wire.killer⟩
  | .matchEnd wire =>
      .event ⟨wire.offset, .matchEnd (if wire.winner = 0 then none else some wire.winner)⟩

/-- `EncodeCaptureHeader`, `EncodeCaptureJoin`, `EncodeCaptureEvent`. -/
def pieceToWire : Piece → CaptureRecordWire
  | .header header => .header (headerToWire header)
  | .join player join => .join (joinToWire player join)
  | .event event => eventToWire event

def encodeCapture (piece : Piece) : Except Protocol.EncodeError Bytes :=
  encodeCaptureRecord isUtf8 (pieceToWire piece)

/-- The record a payload holds, none if it does not decode. -/
def decodeCapture (parse : Bytes → Option Pb.CaptureRecord) (payload : Bytes) :
    Option CaptureRecord :=
  match decodeCaptureRecord isUtf8 parse payload with
  | .ok record => some (recordFromWire record)
  | .error _ => none

end Augusta.Link
