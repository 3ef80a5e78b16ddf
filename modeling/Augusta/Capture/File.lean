import Augusta.Link.CaptureRecords

/-! A Match capture's file: written whole, read record by record.

      magic  version  │ length payload │ length payload │ …
                        header            Joins, then events

    The last record may be cut short, where its writer stopped: it is dropped, and the capture says
    it is torn. A stream that fails is no end of the file. -/

namespace Augusta.Capture
open Lib.Protobuf
open Protocol Link

def kCaptureMagic : Bytes := [65, 85, 71, 67, 65, 80, 13, 10]

def kCaptureFormatVersion : UInt8 := 4

/-- `Capture`: what a capture's file holds. -/
structure MatchCapture where
  header : Header
  joins : List Join := []
  events : List EventAt := []
  torn : Bool := false
  deriving DecidableEq

/-! ### Writing -/

/-- `EncodeHeader`, `EncodeJoin` and `EncodeEvent`: the magic and the version go before the
    header. -/
def encodePiece (piece : Piece) : Except EncodeError Encoded := do
  let frame ← framed (encodeCapture piece)
  match piece with
  | .header _ => return kCaptureMagic ++ (kCaptureFormatVersion :: frame)
  | _ => return frame

/-- Each Join under its player's number, from 1. -/
def joinPieces (joins : List Join) : List Piece :=
  joins.mapIdx fun i join => .join (UInt8.ofNat (i + 1)) join

/-- The pieces of a capture, in the order they are written. -/
def MatchCapture.pieces (capture : MatchCapture) : List Piece :=
  .header capture.header :: joinPieces capture.joins ++ capture.events.map .event

/-- `WriteCapture`: nothing is written unless every piece encodes. -/
def writeCapture (capture : MatchCapture) : Except EncodeError Bytes :=
  List.flatten <$> capture.pieces.mapM encodePiece

/-! ### Reading -/

inductive ReadErrorCode
  | unreadable | notACapture | unsupported | malformed
  deriving DecidableEq, Repr

structure ReadError where
  code : ReadErrorCode
  /-- The version a file of another names. -/
  formatVersion : Option UInt8 := none
  deriving DecidableEq, Repr

/-- A stream: what it yet holds, and whether it fails there rather than ends. -/
structure Stream where
  rest : Bytes
  broken : Bool := false
  /-- Whether it could not be read from the start. -/
  failed : Bool := false

/-- `read`: the bytes there were of `count`, whether the stream failed, and the stream after. -/
def Stream.read (s : Stream) (count : ℕ) : Bytes × Bool × Stream :=
  (s.rest.take count, s.broken && decide (s.rest.length < count), { s with rest := s.rest.drop count })

inductive Frame
  | read (payload : Bytes) (after : Stream)
  | end_
  | torn
  | unreadable

/-- `ReadFrame`. -/
def readFrame (s : Stream) : Frame :=
  let (length, bad, s) := s.read 1
  if bad then .unreadable
  else match length with
    | [] => .end_
    | length :: _ =>
        let (payload, bad, s) := s.read length.toNat
        if bad then .unreadable
        else if payload.length = length.toNat then .read payload s else .torn

def readMagic (s : Stream) : Except ReadError Stream :=
  let (magic, bad, s) := s.read kCaptureMagic.length
  if bad then .error { code := .unreadable }
  else if magic = kCaptureMagic then .ok s else .error { code := .notACapture }

def readFormatVersion (s : Stream) : Except ReadError Stream :=
  let (version, bad, s) := s.read 1
  if bad then .error { code := .unreadable }
  else match version with
    | [] => .error { code := .unsupported }
    | version :: _ =>
        if version = kCaptureFormatVersion then .ok s
        else .error { code := .unsupported, formatVersion := some version }

/-- Whether each record may follow those before it. -/
structure RecordOrder where
  joins : ℕ := 0
  /-- Whether an event has come, after which no Join may. -/
  events : Bool := false
  lastOffset : UInt32 := 0
  /-- Whether the Match end has come, after which nothing may. -/
  ended : Bool := false
  deriving DecidableEq

namespace RecordOrder

def known (order : RecordOrder) (player : Player) : Bool :=
  decide (1 ≤ player) && decide (player.toNat ≤ order.joins)

/-- An event at `offset` that names `players`, if it may come next. -/
def follows (order : RecordOrder) (offset : UInt32) (players : List Player) : Option RecordOrder :=
  if order.ended ∨ offset < order.lastOffset ∨ ¬ players.all order.known then none
  else some { order with events := true, lastOffset := offset }

/-- The order after `record`, none if it may not come: nothing is read after that. -/
def admits (order : RecordOrder) : CaptureRecord → Option RecordOrder
  | .header _ => none
  | .join join =>
      if order.events ∨ join.offset ≠ 0 ∨ join.player.toNat ≠ order.joins + 1 then none
      else some { order with joins := order.joins + 1 }
  | .event ⟨offset, .command player _ _⟩ => order.follows offset [player]
  | .event ⟨offset, .leave player⟩ => order.follows offset [player]
  | .event ⟨offset, .death victim killer⟩ => order.follows offset [victim, killer]
  | .event ⟨offset, .matchEnd winner⟩ =>
      if winner.any fun player => !order.known player then none
      else (order.follows offset []).map fun order => { order with ended := true }

end RecordOrder

section
variable (parse : Bytes → Option Pb.CaptureRecord)

def readHeader (s : Stream) : Except ReadError (Header × Stream) :=
  match readFrame s with
  | .unreadable => .error { code := .unreadable }
  | .read payload s =>
      match decodeCapture parse payload with
      | some (.header header) => .ok (header, s)
      | _ => .error { code := .unsupported }
  | _ => .error { code := .unsupported }

/-- The loop over the records, and whether the last was cut short. `fuel` is more than the frames
    left, each of a byte at least. -/
def readRecords : ℕ → RecordOrder → Stream → Except ReadError (List CaptureRecord × Bool)
  | 0, _, _ => .error { code := .unreadable }
  | fuel + 1, order, s =>
      match readFrame s with
      | .end_ => .ok ([], false)
      | .unreadable => .error { code := .unreadable }
      | .torn => .ok ([], true)
      | .read payload s =>
          match decodeCapture parse payload with
          | none => .error { code := .malformed }
          | some record =>
              match order.admits record with
              | none => .error { code := .malformed }
              | some order => do
                  let (records, torn) ← readRecords fuel order s
                  return (record :: records, torn)

structure CaptureFile where
  header : Header
  records : List CaptureRecord
  torn : Bool

def readCaptureFile (s : Stream) : Except ReadError CaptureFile :=
  if s.failed then .error { code := .unreadable }
  else do
    let s ← readMagic s
    let s ← readFormatVersion s
    let (header, s) ← readHeader parse s
    let (records, torn) ← readRecords parse (s.rest.length + 1) {} s
    return { header, records, torn }

def joinOf : CaptureRecord → Option Join
  | .join join => some join.join
  | _ => none

def eventOf : CaptureRecord → Option EventAt
  | .event event => some event
  | _ => none

def readCapture (s : Stream) : Except ReadError MatchCapture := do
  let file ← readCaptureFile parse s
  return { header := file.header, joins := file.records.filterMap joinOf,
           events := file.records.filterMap eventOf, torn := file.torn }

end

end Augusta.Capture
