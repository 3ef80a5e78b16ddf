import Augusta.Host.Rounds
import Augusta.Host.ReplayCatalog
import Augusta.Link.Answers

/-! `augusta::host::ReplayServer`: its two threads, each step one hold of the lock or one stretch
    without it.

      Network I/O   waiting ─▶ events ─▶ messages ─▶ waiting
                                            │ a request: looking ─▶ found ─▶ building ─▶ built
      Simulation    idle ── beginTick ─▶ stepping, each Replay in turn ── endTick ─▶ idle

    Between any two steps of one thread come any of the other's. What is sent is kept as it goes
    out, a viewer's with the number of its Replay among those made; what cannot be encoded goes to
    no one, and the first such failure is kept. -/

namespace Augusta.Host
open Lib (Table)
open Lib.Protobuf (Bytes)
open Link (Outgoing)
open Protocol (EncodeError ReplayListingWire Text)
open Capture (MatchCapture MatchId PackHash)

/-- `ViewerMessages`: of a tick, every message encoded or the first that cannot be. -/
def viewerMessages (tick : ReplayTick) : Except EncodeError (List Outgoing) :=
  let state := tick.result.state
  let states := [Link.encode
    (.authoritativeState (updatesToLink (Replication.planUpdates state state.tick [])))]
  let shots := (Replication.planShots state state.tick).map fun shot => Link.encode (.shot shot)
  let deaths := (Replication.planDeaths state).map fun death => Link.encode (.death death)
  let ends := tick.end_.toList.map fun winner => Link.encodeMatchEnd { winner }
  (states ++ shots ++ deaths ++ ends).mapM id

/-! ### What is said -/

structure ReplayRequest where
  engineVersion : String
  clientPack : PackHash
  capture : Text

/-- What a peer says, as the Link decodes it. -/
inductive ViewerSaid
  | undecodable
  | debugSubscribe
  /-- A type, and nothing a client says. -/
  | notAClientMessage
  | replayListRequest
  | replayRequest (request : ReplayRequest)
  /-- A Join request, or a Reenact request. -/
  | joinRequest
  /-- A Ready, or Commands. -/
  | other

/-- What is sent to a connection, and for which Replay of those made. -/
structure ToldViewer where
  to_ : PeerId
  replay : Option ℕ
  message : Outgoing
  deriving DecidableEq

/-! ### As the Link carries it -/

def joinRefusalToLink : JoinRefusal → Link.JoinRefusal
  | .versionMismatch => .versionMismatch
  | .lobbyFull => .lobbyFull
  | .unknownCharacter => .unknownCharacter
  | .matchInProgress => .matchInProgress
  | .packMismatch => .packMismatch
  | .replayServer => .replayServer
  | .unknownCapture => .unknownCapture
  | .notAReplayServer => .notAReplayServer
  | .reenactmentsNotAccepted => .reenactmentsNotAccepted

/-- A Match start, each of its players where it spawns. -/
def matchStartToLink (players : List MatchPlayer) (spawns : List Math.Vec3) (firstTick : Tick)
    (match_ : MatchId) : Link.MatchStart where
  players := (players.zip spawns).map fun player =>
    ⟨player.1.session, player.1.entity, player.1.character, player.2⟩
  firstTick
  name := match_

def listingToWire (listing : ReplayListing) : ReplayListingWire where
  startedUnixMs := Int64.ofInt listing.started
  characters := listing.characters.map Link.textToWire
  name := listing.name
  ticks := listing.ticks
  tickRateHz := listing.tickRateHz

def encodeReplayList (listings : List ReplayListing) : Except EncodeError Outgoing :=
  Link.make (.replayList ⟨listings.map listingToWire⟩)

/-- The session of a viewer, which plays no one: the nil UUID. -/
def kViewerSession : SessionId := 0

/-- `FirstTick`. -/
def Replay.firstTick : Tick := 1

/-! ### The server -/

/-- `ReplayServer::Impl::Viewer`, with the connection it was made for. -/
structure Viewer where
  peer : PeerId
  capture : Text
  replay : Replay

structure ReplayServerConfig where
  tickRateHz : UInt8
  parameters : Parameters
  engineVersion : String
  clientPack : PackHash
  serverPack : PackHash
  collision : Physics.Collision
  characters : List (String × Prediction.Clips)
  maxViewers : ℕ

/-- Where the Network I/O thread is with a request, the lock let go. -/
inductive Handling
  | listing (peer : PeerId)
  | finding (peer : PeerId) (capture : Text)
  | building (peer : PeerId) (name : Text) (capture : MatchCapture)

/-- Whose request it is. -/
def Handling.peer : Handling → PeerId
  | .listing peer | .finding peer _ | .building peer _ _ => peer

/-- Where the Simulation thread is in its tick: the Replays yet to step, and those that ended. -/
inductive Stepping
  | idle
  | stepping (watching ended : List (PeerId × ℕ))

structure ReplayServer where
  tickRateHz : UInt8
  parameters : Parameters
  maxViewers : ℕ
  terms : ClientTerms
  characters : Table String Prediction.Clips
  newWorld : Simulation.World
  catalog : ReplayCatalog
  gate : PeerGate := {}
  /-- Each viewer's Replay, of those made. -/
  viewers : Table PeerId ℕ := ∅
  made : List Viewer := []
  told : List ToldViewer := []
  /-- The first message that could not be encoded. -/
  invariantFailure : Option EncodeError := none
  /-- The connections this side has closed. -/
  closed : List PeerId := []
  pumping : Pumping := .waiting
  handling : Option Handling := none
  stepping : Stepping := .idle
  /-- The time of the round. -/
  now : ℤ
  /-- The connections that are not over. -/
  connections : List PeerId := []

inductive ReplayServerEvent
  | round (now : ℤ)
  | connected (peer : PeerId)
  | disconnected (peer : PeerId)
  | received (from_ : List PeerId)
  | receiveFailed
  | message (from_ : PeerId) (said : ViewerSaid)
  /-- The directory has been listed, or looked for a capture in. -/
  | looked (directory : Directory)
  | built
  | finishRound
  /-- The Simulation thread takes its viewers, in the order they are stored. -/
  | beginTick (watching : List (PeerId × ℕ))
  | stepViewer (outside : Simulation.Outside)
  | endTick

namespace ReplayServer

/-- A server nothing has happened to. -/
def start (config : ReplayServerConfig) (now : ℤ) : ReplayServer where
  now
  tickRateHz := config.tickRateHz
  parameters := config.parameters
  maxViewers := config.maxViewers
  terms := { engineVersion := config.engineVersion, clientPack := config.clientPack }
  characters := charactersToSimulation config.characters
  newWorld := { parameters := config.parameters, collision := config.collision }
  catalog :=
    { terms :=
        { serverPack := config.serverPack
          tickRateHz := config.tickRateHz
          characters := config.characters.map (·.1) } }

variable (server : ReplayServer)

/-! ### Its handlers -/

/-- `FailureLatch::Record`, of the invariant failures. -/
def record (error : EncodeError) : ReplayServer :=
  { server with invariantFailure := server.invariantFailure.or (some error) }

/-- `Send`. -/
def send (to_ : PeerId) (replay : Option ℕ) (message : Except EncodeError Outgoing) :
    ReplayServer :=
  match message with
  | .ok outgoing => { server with told := server.told ++ [⟨to_, replay, outgoing⟩] }
  | .error error => server.record error

/-- `Forget`. -/
def forget (peer : PeerId) : ReplayServer :=
  { server with
    gate := server.gate.left peer
    viewers := server.viewers.erase peer }

/-- `Close`. -/
def close (peer : PeerId) : ReplayServer :=
  { server with
    gate := server.gate.expel peer
    closed := server.closed ++ [peer]
    connections := server.connections.filter (· ≠ peer) }.forget peer

/-- `HandleDisconnect`. -/
def handleDisconnect (peer : PeerId) : ReplayServer :=
  { server with connections := server.connections.filter (· ≠ peer) }.forget peer

/-- `Judge`: a peer that has misbehaved too often is expelled. -/
def judge (peer : PeerId) (rejection : PeerRejection) (now : ℤ) : ReplayServer :=
  let (verdict, gate) := server.gate.judge peer rejection now
  let server := { server with gate }
  match verdict with
  | .keep => server
  | .disconnect => server.close peer

/-- `Refuse`. -/
def refuse (peer : PeerId) (reason : JoinRefusal) (now : ℤ) : ReplayServer :=
  (server.send peer none (Link.encodeJoinRefusal (joinRefusalToLink reason))).judge peer
    .joinRefused now

/-- `Drop`. -/
def drop (peer : PeerId) (now : ℤ) : ReplayServer := server.judge peer .notAClientMessage now

/-- `HandleReplayRequest` up to where it first lets the lock go. -/
def handleReplayRequest (peer : PeerId) (request : ReplayRequest) (now : ℤ) : ReplayServer :=
  match refusalOfClient request.engineVersion request.clientPack server.terms with
  | some refusal => server.refuse peer refusal now
  | none => { server with handling := some (.finding peer request.capture) }

/-- `HandleMessage`. -/
def handleMessage (from_ : PeerId) (said : ViewerSaid) (now : ℤ) : ReplayServer :=
  match said with
  | .undecodable => server.judge from_ .undecodable now
  | .debugSubscribe => server
  | .notAClientMessage => server.drop from_ now
  | .replayListRequest =>
      -- a viewer has asked for its Replay, and sends nothing more
      if from_ ∈ server.viewers then server.drop from_ now
      else { server with handling := some (.listing from_) }
  | .replayRequest request =>
      if from_ ∈ server.viewers then server.drop from_ now
      else server.handleReplayRequest from_ request now
  | .joinRequest =>
      if from_ ∈ server.viewers then server.drop from_ now
      else server.refuse from_ .replayServer now
  | .other => server.drop from_ now

/-- A message of a round: what a peer expelled in it sent is ignored. -/
def onMessage (from_ : PeerId) (said : ViewerSaid) (now : ℤ) : ReplayServer :=
  if server.gate.wasExpelled from_ then server else server.handleMessage from_ said now

/-- The handler goes on, its look at the directory done. -/
def onLooked (parse : Bytes → Option Protocol.Pb.CaptureRecord) (handling : Handling)
    (directory : Directory) : Option ReplayServer :=
  match handling with
  | .listing peer =>
      let (listings, catalog) := server.catalog.list parse directory
      some (({ server with catalog, handling := none }.send peer none
        (encodeReplayList (listedOf listings))).close peer)
  | .finding peer name =>
      let waiting := { server with handling := none }
      match server.catalog.find parse directory name with
      | none => some (waiting.refuse peer .unknownCapture server.now)
      | some capture =>
          if server.maxViewers ≤ server.viewers.size then
            some (waiting.refuse peer .lobbyFull server.now)
          else some { server with handling := some (.building peer name capture) }
  | .building .. => none

/-- What a viewer is told first: that it is admitted, and its Replay's Match start. -/
def greetings (replay : Replay) : List (Except EncodeError Outgoing) :=
  [Link.encodeAdmission
      { session := kViewerSession, tickRateHz := server.tickRateHz
        parameters := server.parameters, character := "" },
    Link.encodeMatchStart (matchStartToLink replay.start replay.spawns Replay.firstTick
      replay.capture.header.match_)]

/-- The handler goes on, the Replay built; none where a Character is not the scenario's. -/
def onBuilt (handling : Handling) : Option ReplayServer :=
  match handling with
  | .building peer name capture =>
      (Replay.new capture server.newWorld server.characters).map fun replay =>
        let viewer := server.made.length
        let greeted := (server.greetings replay).foldl
          (fun server => server.send peer (some viewer))
          { server with handling := none, gate := server.gate.admitted peer }
        { greeted with
          viewers := greeted.viewers.emplace peer viewer
          made := greeted.made ++ [⟨peer, name, replay⟩] }
  | _ => none

/-- The end of a round: the peers past their deadline, then no one is expelled. -/
def finishRound : ReplayServer :=
  let (overdue, gate) := server.gate.takeOverdue server.now
  let server := overdue.foldl close { server with gate }
  { server with gate := server.gate.endRound, pumping := .waiting }

/-! ### The Simulation thread's side -/

/-- `viewers`, as they are taken for a tick. -/
def viewerList : List (PeerId × ℕ) := server.viewers.entries.map fun entry => (entry.1, entry.2)

/-- What is sent of a tick: nothing, if one of its messages cannot be encoded. -/
def sentOf (tick : ReplayTick) : List Outgoing :=
  match viewerMessages tick with
  | .ok messages => messages
  | .error _ => []

/-- A tick's messages sent, or the first that cannot be encoded kept. -/
def sendTick (peer : PeerId) (number : ℕ) (tick : ReplayTick) : ReplayServer :=
  match viewerMessages tick with
  | .ok messages =>
      { server with
        told := server.told ++ messages.map fun message => ⟨peer, some number, message⟩ }
  | .error error => server.record error

/-- `TickViewer`. -/
def tickViewer (vecLength : Math.Vec3 → Lib.Binary32) (outside : Simulation.Outside)
    (peer : PeerId) (number : ℕ) : Option (Bool × ReplayServer) := do
  let viewer ← server.made[number]?
  let (tick, replay) ← viewer.replay.step vecLength outside
  let stepped := { server with made := server.made.set number { viewer with replay } }
  some (tick.end_.isSome, stepped.sendTick peer number tick)

/-- The connections of those that ended, unless they are another's by now. -/
def closeEnded (ended : List (PeerId × ℕ)) : ReplayServer :=
  ended.foldl (fun server viewer =>
    if server.viewers.lookup viewer.1 = some viewer.2 then server.close viewer.1 else server) server

/-! ### Its steps -/

variable (parse : Bytes → Option Protocol.Pb.CaptureRecord)
  (vecLength : Math.Vec3 → Lib.Binary32)

/-- What an event makes of the server; none where it cannot happen, or a lookup finds nothing. -/
def step : ReplayServerEvent → Option ReplayServer
  | .round now =>
      if server.pumping = .waiting ∧ server.now ≤ now then
        some { server with pumping := .events, now }
      else none
  | .connected peer =>
      if server.pumping = .events ∧ peer ∉ server.connections then
        some { server with
          gate := server.gate.connected peer server.now
          connections := peer :: server.connections }
      else none
  | .disconnected peer =>
      if server.pumping = .events then some (server.handleDisconnect peer) else none
  | .received from_ =>
      if server.pumping = .events ∧ from_.all fun peer => server.connections.contains peer then
        some { server with pumping := .messages from_ }
      else none
  | .receiveFailed =>
      if server.pumping = .events then some { server with pumping := .stopped } else none
  | .message from_ said =>
      match server.pumping, server.handling with
      | .messages batch, none =>
          if from_ ∈ batch then some (server.onMessage from_ said server.now) else none
      | _, _ => none
  | .looked directory => server.handling.bind fun handling => server.onLooked parse handling directory
  | .built => server.handling.bind server.onBuilt
  | .finishRound =>
      match server.pumping, server.handling with
      | .messages _, none => some server.finishRound
      | _, _ => none
  | .beginTick watching =>
      match server.stepping with
      | .idle =>
          if watching.Perm server.viewerList then
            some { server with stepping := .stepping watching [] }
          else none
      | _ => none
  | .stepViewer outside =>
      match server.stepping with
      | .stepping ((peer, number) :: watching) ended =>
          (server.tickViewer vecLength outside peer number).map fun ticked =>
            { ticked.2 with
              stepping := .stepping watching (if ticked.1 then ended ++ [(peer, number)] else ended) }
      | _ => none
  | .endTick =>
      match server.stepping with
      | .stepping [] ended => some { server.closeEnded ended with stepping := .idle }
      | _ => none

def run (events : List ReplayServerEvent) : Option ReplayServer :=
  Lib.run (fun server => step server parse vecLength) server events

end ReplayServer
end Augusta.Host
