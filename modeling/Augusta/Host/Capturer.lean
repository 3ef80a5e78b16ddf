import Augusta.Capture.Records
import Augusta.Lib.Table
import Augusta.Math.Grid

/-! `augusta::host::Capturer`, the Simulation thread's side: which Match is open, the numbers its
    players have in its capture, and the record each event of a tick makes.

      StartMatch ──▶ header, Join 1 … Join n
      Command, Leave, Death, EndMatch ──▶ an event at its offset, or nothing

    What becomes of a record is the writer's. -/

namespace Augusta.Host
open Lib (Table)
open Capture

/-- One player of a Match start, as a Capturer is handed it. -/
structure CaptureEntrant where
  session : SessionId
  entity : EntityId
  character : String
  spawn : Math.Vec3
  deriving DecidableEq

/-- What `StartMatch` is told. -/
structure CaptureStart where
  match_ : MatchId
  players : List CaptureEntrant
  firstTick : Tick
  /-- In nanoseconds. -/
  started : ℤ
  deriving DecidableEq

structure Capturer where
  header : Header
  match_ : MatchId := 0
  isOpen : Bool := false
  firstTick : Tick := 0
  players : Table EntityId Player := ∅
  sessions : Table SessionId Player := ∅
  /-- Whether a record was one the codec cannot carry; the runtime is then to stop. -/
  failure : Bool := false

/-- How many ticks `tick` is after `start`, as two 64-bit signed numbers differ. -/
def offset (start tick : Tick) : ℤ := Int.bmod (tick.toNat - start.toNat) (2 ^ 64)

/-- The numbers a 32-bit signed integer holds. -/
def kMinInt32 : ℤ := -2 ^ 31

def kMaxInt32 : ℤ := 2 ^ 31 - 1

def kMaxUint32 : ℤ := 2 ^ 32 - 1

namespace Capturer

/-- The player number of `entity` in the Match open, 0 if it has none. -/
def playerOf (c : Capturer) (entity : EntityId) : Player := (c.players.lookup entity).getD 0

def offsetOf (c : Capturer) (tick : Tick) : UInt32 :=
  UInt32.ofNat (max 0 (min (offset c.firstTick tick) kMaxUint32)).toNat

def seenOffset (c : Capturer) (seenTick : Tick) : ℤ :=
  max kMinInt32 (min (offset c.firstTick seenTick) kMaxInt32)

/-- `StartMatch` once the captures are found not stopped, up to its header. -/
def opened (c : Capturer) (start : CaptureStart) : Capturer :=
  { c with
    match_ := start.match_, isOpen := true, firstTick := start.firstTick, players := ∅,
    sessions := ∅ }

/-- The header of the Match open. -/
def headerOf (c : Capturer) (start : CaptureStart) : Header :=
  { c.header with match_ := start.match_, started := start.started / 1000000 }

/-- One entrant of `StartMatch`: its number, and its Join. -/
def enter (c : Capturer) (entrant : CaptureEntrant) : Capturer × Piece :=
  let player : Player := UInt8.ofNat (c.players.size + 1)
  ({ c with
      players := c.players.emplace entrant.entity player
      sessions := c.sessions.emplace entrant.session player },
    .join player ⟨entrant.session, entrant.character, Math.snapPosition entrant.spawn⟩)

/-- `Command`: the record of a Command handed to the World on `tick`. -/
def command (c : Capturer) (tick : Tick) (entity : EntityId) (command : Augusta.Command) :
    Option EventAt :=
  let player := c.playerOf entity
  if ¬ c.isOpen ∨ player = 0 then none
  else some ⟨c.offsetOf tick,
    .command player (c.seenOffset command.seenTick) { command with seenTick := 0 }⟩

/-- `Leave`: the record of a body taken out before `tick`. -/
def leave (c : Capturer) (tick : Tick) (entity : EntityId) : Option EventAt :=
  let player := c.playerOf entity
  if ¬ c.isOpen ∨ player = 0 then none else some ⟨c.offsetOf tick, .leave player⟩

/-- `Death`: the record of a kill on `tick`. -/
def death (c : Capturer) (tick : Tick) (victim killer : EntityId) : Option EventAt :=
  let dead := c.playerOf victim
  if ¬ c.isOpen ∨ dead = 0 then none
  else some ⟨c.offsetOf tick, .death dead (c.playerOf killer)⟩

/-- `EndMatch`: the record of a Match that ended after `lastTick`. -/
def endMatch (c : Capturer) (lastTick : Tick) (winner : Option SessionId) : Option EventAt :=
  if ¬ c.isOpen then none
  else some ⟨c.offsetOf lastTick, .matchEnd (winner.bind fun session => c.sessions.lookup session)⟩

/-- `EndMatch` once the file's Close is queued. -/
def ended (c : Capturer) : Capturer := { c with isOpen := false, players := ∅, sessions := ∅ }

end Capturer
end Augusta.Host
