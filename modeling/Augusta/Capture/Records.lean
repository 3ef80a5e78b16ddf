import Augusta.Core.Command

/-! A Match capture's records: its header, its Joins and its events.

      header │ Join 1 │ … │ Join n │ event at offset │ event at offset │ …

    Each is encoded by itself; what the codec makes of one is asked of an encoder. -/

namespace Augusta.Capture

/-- A Match's ID, a UUID as a Session's is. -/
abbrev MatchId := SessionId

abbrev PackHash := Vector UInt8 32

/-- Which Match was captured, and what it ran on. -/
structure Header where
  match_ : MatchId := 0
  engineVersion : String := ""
  serverPack : PackHash := Vector.replicate 32 0
  clientPack : PackHash := Vector.replicate 32 0
  tickRateHz : UInt8 := 0
  /-- In milliseconds. -/
  started : ℤ := 0
  deriving DecidableEq

/-- A player's number in a capture, from 1. -/
abbrev Player := UInt8

structure Join where
  session : SessionId
  character : String
  spawn : Math.Vec3
  deriving DecidableEq

inductive Event
  /-- `seenOffset` is the tick of its Seen time, from the Match's first (an `int32`). -/
  | command (player : Player) (seenOffset : ℤ) (command : Augusta.Command)
  | leave (player : Player)
  | death (victim killer : Player)
  | matchEnd (winner : Option Player)
  deriving DecidableEq

/-- An event at its offset in ticks from the Match's first. -/
structure EventAt where
  offset : UInt32
  event : Event
  deriving DecidableEq

/-- A piece of a capture, as it is encoded and written. -/
inductive Piece
  | header (header : Header)
  | join (player : Player) (join : Join)
  | event (event : EventAt)
  deriving DecidableEq

/-- A piece as it is on disk. -/
abbrev Encoded := List UInt8

/-- Why a piece does not encode: a field the codec cannot carry, or more than a frame holds. -/
inductive EncodeError
  | failure | recordTooLong
  deriving DecidableEq

/-- `EncodeHeader`, `EncodeJoin` and `EncodeEvent`. -/
abbrev Encode := Piece → Except EncodeError Encoded

end Augusta.Capture
