import Augusta.Capture.File
import Augusta.Host.CommandQueue
import Augusta.Host.Match
import Augusta.Lib.Arithmetic
import Augusta.Simulation.World

/-! `augusta::host::Replay`: one capture re-run on a fresh World, one tick a `step`.

      events at the tick's offset ─▶ handBefore ─▶ players out of the World, Commands queued
                     takeCommands ─▶ World.ticked ─▶ ReplayCheck ─▶ the end, if it is

    Each body is named by its player's number, and the first tick is 1. -/

namespace Augusta.Host
open Lib (Table)
open Capture (MatchCapture EventAt)

/-! ### The check -/

structure CapturedDeath where
  victim : Capture.Player
  killer : Capture.Player
  deriving DecidableEq, Repr

/-- By victim, then killer. -/
def CapturedDeath.Before (a b : CapturedDeath) : Prop :=
  if a.victim ≠ b.victim then a.victim < b.victim else a.killer ≤ b.killer

instance : DecidableRel CapturedDeath.Before := fun a b => by
  unfold CapturedDeath.Before
  infer_instance

/-- `Ordered`. -/
def orderedDeaths (deaths : List CapturedDeath) : List CapturedDeath :=
  deaths.insertionSort CapturedDeath.Before

/-- A Match end, as a capture has it: the winner's number, none for a draw. -/
abbrev CapturedEnd := Option Capture.Player

/-- The first marker resolved otherwise than captured. -/
inductive Divergence
  | death (offset : UInt32) (captured resolved : List CapturedDeath)
  | matchEnd (offset : UInt32) (captured resolved : Option CapturedEnd)
  deriving DecidableEq

structure ReplayCheck where
  deaths : Table UInt32 (List CapturedDeath) := ∅
  endOffset : Option UInt32 := none
  end_ : CapturedEnd := none
  reported : Bool := false

namespace ReplayCheck

/-- What an event says the tick at its offset resolved. -/
def note (check : ReplayCheck) (event : EventAt) : ReplayCheck :=
  match event.event with
  | .death victim killer =>
      let deaths := (check.deaths.lookup event.offset).getD []
      { check with deaths := check.deaths.insert event.offset (deaths ++ [⟨victim, killer⟩]) }
  | .matchEnd winner => { check with endOffset := some event.offset, end_ := winner }
  | .command .. | .leave _ => check

def ofCapture (capture : MatchCapture) : ReplayCheck := capture.events.foldl note {}

/-- `Check`. -/
def check (c : ReplayCheck) (offset : UInt32) (deaths : List CapturedDeath)
    (end_ : Option CapturedEnd) : Option Divergence × ReplayCheck :=
  if c.reported then (none, c)
  else
    let capturedDeaths := orderedDeaths ((c.deaths.lookup offset).getD [])
    let resolvedDeaths := orderedDeaths deaths
    if capturedDeaths ≠ resolvedDeaths then
      (some (.death offset capturedDeaths resolvedDeaths), { c with reported := true })
    else
      match c.endOffset with
      -- a capture that ends partway has no Match end to hold the World's to
      | none => (none, c)
      | some endOffset =>
          let capturedEnd := if endOffset = offset then some c.end_ else none
          if capturedEnd = end_ then (none, c)
          else (some (.matchEnd offset capturedEnd end_), { c with reported := true })

end ReplayCheck

/-! ### The Replay -/

/-- `Replay::Player`. -/
structure ReplayPlayer where
  number : Capture.Player
  commands : CommandQueue
  sequence : Sequence := 0
  left : Bool := false

/-- How a Replay ended: the winner's session, none for a draw. -/
abbrev ReplayEnd := Option SessionId

structure ReplayTick where
  result : Simulation.TickResult
  end_ : Option ReplayEnd
  divergence : Option Divergence

structure Replay where
  capture : MatchCapture
  world : Simulation.World
  check : ReplayCheck
  start : List MatchPlayer := []
  spawns : List Math.Vec3 := []
  players : List ReplayPlayer := []
  /-- Those from `next_event_` on. -/
  events : List EventAt
  offset : UInt32 := 0
  lastOffset : UInt32
  ended : Bool := false

/-- The body of a Replay's player. -/
def bodyOf (player : Capture.Player) : EntityId := player.toUInt32

/-- The capture's last tick: its Match end's, or its last event's when it ends partway. -/
def lastOffsetOf (capture : MatchCapture) : UInt32 :=
  (capture.events.getLast?.map (·.offset)).getD 0

/-- Whether nothing but Leaves stands between an event and a Match end, on one offset. -/
def leadsToMatchEnd (offset : UInt32) : List EventAt → Bool
  | [] => false
  | event :: rest =>
      if event.offset ≠ offset then false
      else
        match event.event with
        | .matchEnd _ => true
        | .leave _ => leadsToMatchEnd offset rest
        | .command .. | .death .. => false

/-- Whether the Leave that `events` begin with was taken after its tick rather than before it. -/
def leavesAfterItsTick (events : List EventAt) (offset : UInt32) (tickRun : Bool) : Bool :=
  tickRun || leadsToMatchEnd offset events

namespace Replay

/-- The tick of the Replay's World a Seen time is moved onto; one before its first names none. -/
def seenTick (seenOffset : ℤ) : Tick :=
  let seen := 1 + seenOffset
  if 0 < seen then UInt64.ofNat seen.toNat else 0

/-- A Join of the capture: its player, numbered on, and its body where it was. -/
def enter (characters : Table String Prediction.Clips) (replay : Replay) (join : Capture.Join) :
    Option Replay := do
  let clips ← characters.lookup join.character
  let number : Capture.Player := UInt8.ofNat (replay.players.length + 1)
  some { replay with
    start := replay.start ++ [⟨join.session, bodyOf number, join.character, none⟩]
    spawns := replay.spawns ++ [join.spawn]
    players := replay.players ++ [⟨number, .new replay.capture.header.tickRateHz, 0, false⟩]
    world := replay.world.addPlayer (bodyOf number) join.spawn clips
      ⟨join.session, join.character⟩ }

def new (capture : MatchCapture) (world : Simulation.World)
    (characters : Table String Prediction.Clips) : Option Replay :=
  capture.joins.foldlM (enter characters)
    { capture, world
      check := .ofCapture capture
      events := capture.events
      lastOffset := lastOffsetOf capture }

/-- `players_.at(player - 1)`, changed. -/
def modifyPlayer (replay : Replay) (player : Capture.Player)
    (change : ReplayPlayer → ReplayPlayer) : Option Replay :=
  if 1 ≤ player.toNat ∧ player.toNat ≤ replay.players.length then
    some { replay with players := replay.players.modify (player.toNat - 1) change }
  else none

/-- A captured Command, queued; only a doctored one is turned away. -/
def enqueue (vecLength : Math.Vec3 → Lib.Binary32) (seenOffset : ℤ) (command : Command)
    (player : ReplayPlayer) : ReplayPlayer :=
  let queued := { command with seenTick := seenTick seenOffset }
  let sequence := player.sequence + 1
  match player.commands.tryEnqueue vecLength ⟨sequence, queued⟩ with
  | .ok (_, commands) => { player with sequence, commands }
  | .error _ => { player with sequence }

/-- The loop of `HandBefore` over the events not yet handed to the World. -/
def handEvents (vecLength : Math.Vec3 → Lib.Binary32) (offset : UInt32) :
    Bool → List EventAt → Replay → Option Replay
  | _, [], replay => some { replay with events := [] }
  | tickRun, event :: rest, replay =>
      if event.offset ≠ offset then some { replay with events := event :: rest }
      else
        match event.event with
        | .command player seenOffset command =>
            (replay.modifyPlayer player (enqueue vecLength seenOffset command)).bind
              (handEvents vecLength offset true rest)
        | .leave player =>
            if leavesAfterItsTick (event :: rest) offset tickRun then
              handEvents vecLength offset tickRun rest replay
            else
              (replay.modifyPlayer player fun player => { player with left := true }).bind
                fun replay => handEvents vecLength offset tickRun rest
                  { replay with world := replay.world.removePlayer (bodyOf player) }
        -- what the tick resolved, for the check alone
        | .death .. | .matchEnd _ => handEvents vecLength offset true rest replay

/-- `HandBefore`. -/
def handBefore (replay : Replay) (vecLength : Math.Vec3 → Lib.Binary32) (offset : UInt32) :
    Option Replay :=
  handEvents vecLength offset false replay.events replay

/-- A player's Command for the tick, none if it left. -/
def ReplayPlayer.take (player : ReplayPlayer) : Option (EntityId × Command) × ReplayPlayer :=
  if player.left then (none, player)
  else (some (bodyOf player.number, player.commands.next.1.command),
    { player with commands := player.commands.next.2 })

/-- `TakeCommands`. -/
def takeCommands (replay : Replay) : List (EntityId × Command) × Replay :=
  let taken := replay.players.map ReplayPlayer.take
  (taken.filterMap (·.1), { replay with players := taken.map (·.2) })

/-- `EndOf`: none too where a lookup finds nothing. -/
def endOf (replay : Replay) (offset : UInt32) (result : Simulation.TickResult) :
    Option (Option ReplayEnd) :=
  match result.actions with
  | .matchEnd winner :: _ => some (some winner)
  | [] =>
      if offset < replay.lastOffset then some none
      else
        -- as the capture says, the World not having ended it
        match replay.capture.events.getLast?.map EventAt.event with
        | some (.matchEnd (some winner)) =>
            if winner = 0 then none
            else (replay.start[winner.toNat - 1]?).map fun player => some (some player.session)
        | _ => some (some none)

/-- Who a Match end of Game policy's names, in the capture's numbers. -/
def capturedEnd (replay : Replay) (actions : List Policy.Action) : Option CapturedEnd :=
  match actions.getLast? with
  | none => none
  | some (.matchEnd winner) => some (winner.bind fun session =>
      (replay.start.find? fun player => player.session == session).map (·.entity.toUInt8))

/-- The Deaths of a tick, in the capture's numbers. -/
def capturedDeaths (deaths : List Simulation.Death) : List CapturedDeath :=
  deaths.map fun death => ⟨death.victim.toUInt8, death.killer.toUInt8⟩

/-- `1.0F / static_cast<float>(tick_rate_hz)`. -/
def deltaTime (replay : Replay) : Lib.Binary32 :=
  Lib.Binary32.one.div (.ofInt replay.capture.header.tickRateHz.toNat)

/-- `Step`. -/
def step (replay : Replay) (vecLength : Math.Vec3 → Lib.Binary32) (outside : Simulation.Outside) :
    Option (ReplayTick × Replay) := do
  let offset := replay.offset
  let replay ← replay.handBefore vecLength offset
  let (commands, replay) := replay.takeCommands
  let (result, world) := replay.world.ticked commands replay.deltaTime outside
  let (divergence, check) := replay.check.check offset (capturedDeaths result.state.deaths)
    (replay.capturedEnd result.actions)
  let end_ ← replay.endOf offset result
  some (⟨result, end_, divergence⟩,
    { replay with world, check, ended := end_.isSome, offset := offset + 1 })

end Replay
end Augusta.Host
