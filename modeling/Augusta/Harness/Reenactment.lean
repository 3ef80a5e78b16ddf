import Augusta.Harness.Inbox
import Augusta.Harness.Script
import Augusta.Lib.Pairing
import Augusta.Math.Vec3

/-! `augusta::harness::Reenactment`: a captured player played again against a live server.

      Pacer.next (first tick, due tick)
        slot   0 … due      the captured Command next in order, if it is due or late
                            else the last one's movement, held, then none
        Leave  due ≥ leave  only a Command late into it

      pairDeaths
        captured   each Death of the script, in its order
        observed   the first told of the same victim; those none took come last

    The tick a Command is due to be handed to the World on is not computed here. -/

namespace Augusta.Harness
open Capture (Player)
open Link (MatchPlayer)

/-- `OffsetOf`: a tick as an offset from the Match's first, never below 0. -/
def offsetOf (tick first : Tick) : UInt64 := if first < tick then tick - first else 0

structure Pacer where
  commands : List CommandAt
  maxHeldTicks : ℕ
  leave : Option UInt32
  /-- How many of the commands have gone out: the index of the next. -/
  sent : ℕ := 0
  /-- The offset of the first tick no Command has been sent for yet. -/
  slot : UInt64 := 0
  last : Option Command := none
  lastDelay : Tick := 0
  /-- How many fillers have held the last one's movement since. -/
  held : ℕ := 0

/-- The tick a Command due on `due` says it was seen on, `delay` before. -/
def seenBefore (delay due : Tick) : Tick := due - min delay due

/-- How far behind its own tick a captured Command's Seen time was. -/
def CommandAt.delay (captured : CommandAt) : Tick :=
  UInt64.ofNat (max (captured.offset.toNat - captured.seenOffset) 0).toNat

namespace Pacer

def ofScript (script : Script) : Pacer where
  commands := script.commands
  maxHeldTicks := heldTicks script.tickRateHz
  leave := script.leave

variable (pacer : Pacer)

/-- Whether a captured Command from before the Leave has yet to go. -/
def commandBeforeLeave : Bool :=
  match pacer.leave, pacer.commands[pacer.sent]? with
  | some leave, some captured => captured.offset < leave
  | _, _ => false

/-- The filler for a tick with nothing due. -/
def filler (due : Tick) : Command × Pacer :=
  let last := pacer.last.getD {}
  let quiet : Command :=
    { last with fire := false, reload := false, seenTick := seenBefore pacer.lastDelay due }
  if pacer.held < pacer.maxHeldTicks ∧ pacer.last.isSome then
    (quiet, { pacer with held := pacer.held + 1 })
  else
    ({ quiet with movement := { quiet.movement with direction := {}, sprint := false } }, pacer)

/-- The captured Command a tick at `dueOffset` sends. -/
def dueCommand (dueOffset : UInt64) : Option CommandAt :=
  (pacer.commands[pacer.sent]?).filter fun captured => captured.offset.toUInt64 ≤ dueOffset

/-- The Command to send now, if the server is due to hand it to the World on `due`. -/
def next (first due : Tick) : Option Command × Pacer :=
  let dueOffset := offsetOf due first
  let atLeave := pacer.leave.any fun leave => leave.toUInt64 ≤ dueOffset
  if dueOffset < pacer.slot ∨ (atLeave ∧ ¬ pacer.commandBeforeLeave) then (none, pacer)
  else
    let taken := { pacer with slot := dueOffset + 1 }
    match pacer.dueCommand dueOffset with
    | none =>
        let (filler, taken) := taken.filler due
        (some filler, taken)
    | some captured =>
        let command := { captured.command with seenTick := seenBefore captured.delay due }
        (some command,
          { taken with
            sent := pacer.sent + 1, lastDelay := captured.delay, last := some command, held := 0 })

end Pacer

/-! ### Who is who -/

/-- `NumberAt`: the capture's number of the player that spawned at `spawn`, 0 if none did. -/
def numberAt (script : Script) (spawn : Math.Vec3) : Player :=
  match script.spawns.findIdx? fun other => other.equals spawn with
  | none => 0
  | some i => UInt8.ofNat (i + 1)

/-- `FindPlayer`. -/
def findPlayer (view : ServerView) (matching : MatchPlayer → Bool) : Option MatchPlayer :=
  view.matchStart.bind fun start => start.players.find? matching

/-- `NumberOf` a player of the Match found, 0 where there is none. -/
def numberOf (script : Script) (view : ServerView) (matching : MatchPlayer → Bool) : Player :=
  match findPlayer view matching with
  | none => 0
  | some player => numberAt script player.spawn

/-- `NumberOf` the player whose body is `entity`. -/
def numberOfEntity (script : Script) (view : ServerView) (entity : EntityId) : Player :=
  numberOf script view fun player => player.entity == entity

/-- `NumberOf` the player of `session`. -/
def numberOfSession (script : Script) (view : ServerView) (session : SessionId) : Player :=
  numberOf script view fun player => player.session == session

/-! ### Deaths -/

/-- A Death the server told, at the tick of the newest State when it was taken. -/
structure ObservedDeath where
  tick : Tick
  victim : EntityId
  killer : EntityId
  deriving DecidableEq, Repr

/-- A captured Death beside the one told of the same victim, the latter in the capture's terms. -/
structure PairedDeath where
  captured : Option DeathAt
  observed : Option DeathAt
  deriving DecidableEq

/-- A Death told, in the capture's terms. -/
def toldAs (script : Script) (view : ServerView) (death : ObservedDeath) : DeathAt where
  offset := (offsetOf death.tick ((view.matchStart.map (·.firstTick)).getD 0)).toUInt32
  victim := numberOfEntity script view death.victim
  killer := numberOfEntity script view death.killer

/-- `PairDeaths`. -/
def pairDeaths (script : Script) (view : ServerView) (observed : List ObservedDeath) :
    List PairedDeath :=
  (Lib.Pairing.pairing DeathAt.victim DeathAt.victim script.deaths
    (observed.map (toldAs script view))).map fun pair => ⟨pair.1, pair.2⟩

end Augusta.Harness
