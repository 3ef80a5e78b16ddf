import Augusta.Host.CaptureRun
import Augusta.Host.CommandQueue
import Augusta.Host.Match
import Augusta.Host.PeerGate
import Augusta.Host.TickMessages

/-! `augusta::host::Host::Impl`: a live server's tables, and what its two threads do to them, each
    with the lock held.

      Network I/O   Join, Ready, Commands, departures, expulsions ─▶ match, players, gate
      Simulation    PrepareTick ─▶ bodies, simulation, captures;   Act ─▶ match

    A lookup the code makes with `.at()` and finds nothing by comes to nothing here, as an exception
    does. What the code then sends is left encoded to the Link. -/

namespace Augusta.Host
open Lib (Table)
open Link (SequencedCommand)
open Replication (Recipient)

/-- `DebugSubscriptions::Peer`. -/
structure DebugSubscription where
  flags : UInt8 := 0
  /-- Every bit it has set that the server does not serve. -/
  unservedSeen : UInt8 := 0
  deriving DecidableEq, Repr

structure DebugSubscriptions where
  served : UInt8 := 0
  peers : Table PeerId DebugSubscription := ∅

namespace DebugSubscriptions
variable (subscriptions : DebugSubscriptions)

/-- `Subscribe`: the bits not served that `peer` had never set before. -/
def subscribe (peer : PeerId) (flags : UInt8) : UInt8 × DebugSubscriptions :=
  let subscribed := (subscriptions.peers.lookup peer).getD {}
  let unserved := flags &&& ~~~subscriptions.served
  let firstSeen := unserved &&& ~~~subscribed.unservedSeen
  (firstSeen, { subscriptions with
    peers := subscriptions.peers.insert peer ⟨flags, subscribed.unservedSeen ||| unserved⟩ })

def forget (peer : PeerId) : DebugSubscriptions :=
  { subscriptions with peers := subscriptions.peers.erase peer }

end DebugSubscriptions

/-- `Host::Impl::Player`: what the server keeps per joined client. -/
structure HostPlayer where
  peer : PeerId
  commands : CommandQueue

/-- What a peer says, as the Link decodes it. -/
inductive PeerSaid
  | undecodable
  | notAClientMessage
  /-- A Join request, or a Reenact request. -/
  | joinRequest (request : JoinRequest)
  | commands (commands : List SequencedCommand)
  | ready (version : UInt32)
  | debugSubscribe (flags : UInt8)
  | replayListRequest
  | replayRequest

/-- What a peer is told. -/
inductive Told
  | joinRefused (reason : JoinRefusal)
  | joinAccepted (admission : Admission)
  | lobby (roster : Roster)
  | matchStart (start : MatchStart) (spawns : List Math.Vec3) (firstTick : Tick)
  | matchEnd (ended : MatchEnd)
  deriving DecidableEq

structure Impl where
  tickRateHz : UInt8
  /-- The scenario's characters, by path. -/
  characters : Table String Prediction.Clips
  spawnPoints : List Math.Vec3
  simulation : Simulation.World
  /-- Whether Matches are captured, and what the Capturer has been told. -/
  capturing : Bool := false
  captured : List CaptureEvent := []
  bodies : Table SessionId EntityId := ∅
  simulatingMatch : Bool := false
  /-- The last tick run. -/
  tick : Tick := 0
  match_ : Match
  players : Table SessionId HostPlayer := ∅
  matchStartTick : Tick := 0
  matchId : SessionId := 0
  matchWinner : Option SessionId := none
  gate : PeerGate := {}
  debugSubscriptions : DebugSubscriptions := {}
  /-- What has been sent, and the connections this side has closed. -/
  told : List (PeerId × Told) := []
  closed : List PeerId := []

/-- A rejection of a Command, as the peer's misbehaviour is counted. -/
def toPeerRejection : Rejection → PeerRejection
  | .stale => .staleCommand
  | .nonFinite => .nonFiniteCommand
  | .outOfRange => .outOfRangeCommand

namespace Impl
variable (host : Impl)

/-! ### Sending to players -/

def reply (peer : PeerId) (message : Told) : Impl := { host with told := host.told ++ [(peer, message)] }

/-- `SendTo`: to the player of each of `sessions`. -/
def sendTo (sessions : List SessionId) (message : Told) : Option Impl := do
  let players ← sessions.mapM fun session => host.players.lookup session
  some { host with told := host.told ++ players.map fun player => (player.peer, message) }

/-- `SendRoster`: to everyone in the Lobby. -/
def sendRoster : Option Impl :=
  let roster := host.match_.getRoster
  host.sendTo (roster.players.map (·.session)) (.lobby roster)

/-! ### The Network I/O thread's side -/

/-- `HandleDisconnect`. -/
def handleDisconnect (peer : PeerId) : Option Impl :=
  let host := { host with
    gate := host.gate.left peer, debugSubscriptions := host.debugSubscriptions.forget peer }
  match host.match_.sessionOf peer with
  | none => some host
  | some session =>
      let (departure, left) := host.match_.leave peer
      let host := { host with match_ := left, players := host.players.erase session }
      match departure with
      | .none | .fromMatch => some host
      | .fromLobby => host.sendRoster
      -- nobody won a match its last player left
      | .endedMatch => some { host with matchWinner := none }

/-- `Expel`. -/
def expel (peer : PeerId) : Option Impl :=
  { host with gate := host.gate.expel peer, closed := host.closed ++ [peer] }.handleDisconnect peer

/-- `Judge`. -/
def judge (peer : PeerId) (rejection : PeerRejection) (now : ℤ) : Option (Verdict × Impl) :=
  let (verdict, gate) := host.gate.judge peer rejection now
  let host := { host with gate }
  match verdict with
  | .keep => some (.keep, host)
  | .disconnect => (host.expel peer).map fun host => (.disconnect, host)

/-- `Judge`, its answer not asked for. -/
def judged (peer : PeerId) (rejection : PeerRejection) (now : ℤ) : Option Impl :=
  (host.judge peer rejection now).map (·.2)

/-- `HandleJoinRequest`. -/
def handleJoinRequest (ids : ℕ → SessionId) (peer : PeerId) (request : JoinRequest) (now : ℤ) :
    Option Impl :=
  match host.match_.join ids peer request with
  | (.error refusal, _) => (host.reply peer (.joinRefused refusal)).judged peer .joinRefused now
  | (.ok admission, joined) =>
      let host := { host with match_ := joined, gate := host.gate.admitted peer }.reply peer
        (.joinAccepted admission)
      if admission.session ∈ host.players then some host
      else
        let player : HostPlayer := ⟨peer, .new host.tickRateHz⟩
        { host with players := host.players.insert admission.session player }.sendRoster

/-- `HandleReady`. -/
def handleReady (peer : PeerId) (version : UInt32) (now : ℤ) : Option Impl :=
  match host.match_.ready peer version with
  | (true, ready) => some { host with match_ := ready }
  | (false, _) => host.judged peer .staleReady now

/-- The loop of `HandleCommands`: those after one that disconnects the peer are never taken in. -/
def takeIn (vecLength : Math.Vec3 → Lib.Binary32) (peer : PeerId) (session : SessionId) (now : ℤ) :
    List SequencedCommand → Impl → Option Impl
  | [], host => some host
  | command :: rest, host =>
      (host.players.lookup session).bind fun player =>
        match player.commands.tryEnqueue vecLength command with
        | .ok (_, commands) =>
            takeIn vecLength peer session now rest
              { host with players := host.players.insert session { player with commands } }
        | .error rejection =>
            (host.judge peer (toPeerRejection rejection) now).bind fun judged =>
              match judged.1 with
              | .keep => takeIn vecLength peer session now rest judged.2
              | .disconnect => some judged.2

/-- `HandleCommands`. -/
def handleCommands (vecLength : Math.Vec3 → Lib.Binary32) (peer : PeerId)
    (commands : List SequencedCommand) (now : ℤ) : Option Impl :=
  match host.match_.sessionOf peer with
  | none => host.judged peer .commandsBeforeJoining now
  | some session =>
      if !host.match_.isPlaying session then host.judged peer .commandsOutsideMatch now
      else (host.players.lookup session).bind fun _ =>
        takeIn vecLength peer session now commands host

/-- `RefuseAsNoReplayServer`. -/
def refuseAsNoReplayServer (peer : PeerId) (now : ℤ) : Option Impl :=
  (host.reply peer (.joinRefused .notAReplayServer)).judged peer .joinRefused now

/-- `HandleMessage`. -/
def handleMessage (ids : ℕ → SessionId) (vecLength : Math.Vec3 → Lib.Binary32) (from_ : PeerId)
    (said : PeerSaid) (now : ℤ) : Option Impl :=
  match said with
  | .undecodable => host.judged from_ .undecodable now
  | .notAClientMessage => host.judged from_ .notAClientMessage now
  | .joinRequest request => host.handleJoinRequest ids from_ request now
  | .commands commands => host.handleCommands vecLength from_ commands now
  | .ready version => host.handleReady from_ version now
  | .debugSubscribe flags =>
      some { host with debugSubscriptions := (host.debugSubscriptions.subscribe from_ flags).2 }
  | .replayListRequest | .replayRequest => host.refuseAsNoReplayServer from_ now

/-- A message of a round: what a peer expelled in it sent is ignored. -/
def onMessage (ids : ℕ → SessionId) (vecLength : Math.Vec3 → Lib.Binary32) (from_ : PeerId)
    (said : PeerSaid) (now : ℤ) : Option Impl :=
  if host.gate.wasExpelled from_ then some host
  else host.handleMessage ids vecLength from_ said now

/-- The end of a round: the peers past their deadline, then no one is expelled. -/
def finishRound (now : ℤ) : Option Impl :=
  let (overdue, gate) := host.gate.takeOverdue now
  (overdue.foldlM (fun (host : Impl) peer => host.expel peer) { host with gate }).map fun host =>
    { host with gate := host.gate.endRound }

/-! ### The Simulation thread's side -/

/-- `Host::Impl::EndMatch`, and `Host::EndMatch` without a winner. -/
def endMatch (winner : Option SessionId) : Option Impl :=
  match host.match_.endMatch winner with
  | (none, _) => some host
  | (some ended, lobby) =>
      ({ host with match_ := lobby }.sendTo ended.players (.matchEnd ended)).bind fun host =>
        sendRoster { host with matchWinner := ended.winner }

/-- What the Capturer is told, if Matches are captured. -/
def capture (events : List CaptureEvent) : Impl :=
  if host.capturing then { host with captured := host.captured ++ events } else host

/-- The World's player of a Match about to start. -/
def entrantOf (player : MatchPlayer) : Option Simulation.World.Entrant := do
  let clips ← host.characters.lookup player.character
  some ⟨player.entity, ⟨player.session, player.character⟩, clips, player.spawn⟩

/-- `players.at(session).commands = CommandQueue{…}`. -/
def startAfresh (session : SessionId) : Option Impl := do
  let player ← host.players.lookup session
  let afresh : HostPlayer := { player with commands := .new host.tickRateHz }
  some { host with players := host.players.insert session afresh }

/-- `StartMatchIfReady`; `assigns` is Game policy's, `started` the clock's. -/
def startMatchIfReady (ids : ℕ → SessionId)
    (assigns : Policy.MatchView → ℕ → Option (List ℕ)) (started : ℤ) : Option Impl :=
  match host.match_.tryStart ids with
  | (none, _) => some host
  | (some start, inMatch) => do
      let sessions := start.players.map (·.session)
      let entrants ← start.players.mapM host.entrantOf
      let host ← sessions.foldlM (fun host session => host.startAfresh session)
        { host with match_ := inMatch }
      let bodies := start.players.foldl (fun bodies player =>
        bodies.emplace player.session player.entity) host.bodies
      let (simulation, spawns) := host.simulation.startMatch assigns entrants host.spawnPoints
      let matchStartTick := host.tick + 1
      let entrants := List.zipWith (fun (player : MatchPlayer) spawn =>
        (⟨player.session, player.entity, player.character, spawn⟩ : CaptureEntrant))
        start.players spawns
      let host := { host with
        bodies, simulation, matchStartTick
        simulatingMatch := true
        matchId := start.name }
      (host.capture [.startMatch ⟨start.name, entrants, matchStartTick, started⟩]).sendTo sessions
        (.matchStart start spawns matchStartTick)

/-- An order the bodies may be stored in. -/
structure BodyOrder where
  order : List (SessionId × EntityId) → List (SessionId × EntityId)
  perm : ∀ bodies, (order bodies).Perm bodies

/-- The bodies' entries. -/
def bodyList : List (SessionId × EntityId) := host.bodies.entries.map fun entry => (entry.1, entry.2)

/-- `TakeOutEndedMatch`. -/
def takeOutEndedMatch (stored : BodyOrder) : Impl :=
  let leaves := (stored.order host.bodyList).filterMap fun (session, entity) =>
    if session ∈ host.players then none else some (CaptureEvent.leave host.tick entity)
  let host := host.capture (leaves ++ [.endMatch host.tick host.matchWinner])
  { host with simulation := host.simulation.endMatch, bodies := ∅, simulatingMatch := false }

/-- The bodies of players who left, taken out of the simulation. -/
def eraseBodies (stored : BodyOrder) : Impl :=
  let leaving := (stored.order host.bodyList).filter fun body => !host.match_.isPlaying body.1
  let simulation := leaving.foldl (fun world body => world.removePlayer body.2) host.simulation
  let bodies := host.bodies.filter fun session _ => host.match_.isPlaying session
  let host := host.capture (leaving.map fun body => .leave (host.tick + 1) body.2)
  { host with simulation, bodies }

/-- `TickInput`. -/
structure TickInput where
  commands : List (EntityId × Command) := []
  to_ : TickRecipients := ⟨[], ∅, []⟩

/-- One player's Command for the tick. -/
def takeCommand (input : TickInput) (session : SessionId) : Option (TickInput × Impl) := do
  let player ← host.players.lookup session
  let entity ← host.bodies.lookup session
  let (next, commands) := player.commands.next
  let host := { host with players := host.players.insert session { player with commands } }
  let host := if next.sent then host.capture [.command (host.tick + 1) entity next.command] else host
  some (⟨input.commands ++ [(entity, next.command)],
    { input.to_ with
      recipients := input.to_.recipients ++
        [⟨entity, next.acknowledgedSequence, UInt8.ofNat commands.queued.length⟩]
      peers := input.to_.peers.emplace entity player.peer }⟩, host)

/-- `PrepareTick`. -/
def prepareTick (ids : ℕ → SessionId) (stored : BodyOrder)
    (assigns : Policy.MatchView → ℕ → Option (List ℕ)) (started : ℤ) :
    Option (TickInput × Impl) := do
  let host := if host.simulatingMatch ∧ ¬ host.match_.inMatch then host.takeOutEndedMatch stored
    else host
  let host := host.eraseBodies stored
  let host ← { host with match_ := host.match_.tick }.startMatchIfReady ids assigns started
  host.match_.playing.foldlM (fun (input, host) session => host.takeCommand input session) ({}, host)

/-- `Host::Tick` from the World's tick up to Game policy's actions, and `CaptureDeaths`. -/
def simulate (input : TickInput) (deltaTime : Lib.Binary32) (outside : Simulation.Outside) :
    List Policy.Action × Impl :=
  let (result, simulation) := host.simulation.ticked input.commands deltaTime outside
  let host := host.capture
    (result.state.deaths.map fun death => .death result.state.tick death.victim death.killer)
  (result.actions, { host with simulation, tick := result.state.tick })

end Impl
end Augusta.Host
