import Augusta.Core.Command
import Augusta.Lib.Table
import Mathlib.Data.List.Sort

/-! `augusta::host::Match`: the server's book of who is playing, in the Lobby and in a Match.

      Lobby ── tryStart: full, all Ready, pause over ──▶ Match
        ▲                                                  │
        └─── endMatch, or the last player leaves ──────────┘

    It names each admitted peer with a new Session ID and each Match with a new Match ID, both from
    one generator, numbers every version of the Lobby's Roster and counts who is Ready for which. -/

namespace Augusta.Host
open Lib

/-- The hash of a pack: 32 bytes. -/
abbrev PackHash := Vector UInt8 32

structure JoinRequest where
  engineVersion : String
  clientPack : PackHash
  character : String
  /-- Where it asks to spawn, which only a Reenact request names. -/
  spawn : Option Math.Vec3 := none
  deriving DecidableEq

/-- What a peer is told when it is admitted to the Lobby. -/
structure Admission where
  session : SessionId
  character : String
  deriving DecidableEq, Repr

inductive JoinRefusal
  | versionMismatch | lobbyFull | unknownCharacter | matchInProgress | packMismatch
  | replayServer | unknownCapture | notAReplayServer | reenactmentsNotAccepted
  deriving DecidableEq, Repr

structure ClientTerms where
  engineVersion : String
  clientPack : PackHash
  deriving DecidableEq

/-- Why a client can never be admitted on `terms`: its version first, then its pack. -/
def refusalOfClient (engineVersion : String) (clientPack : PackHash) (terms : ClientTerms) :
    Option JoinRefusal :=
  if engineVersion ≠ terms.engineVersion then some .versionMismatch
  else if clientPack ≠ terms.clientPack then some .packMismatch
  else none

structure RosterEntry where
  session : SessionId
  character : String
  deriving DecidableEq, Repr

/-- Who is in the Lobby, under the version that names this membership. -/
structure Roster where
  version : UInt32
  players : List RosterEntry
  deriving DecidableEq, Repr

/-- One player in a match and the body it controls. -/
structure MatchPlayer where
  session : SessionId
  entity : EntityId
  character : String
  spawn : Option Math.Vec3 := none
  deriving DecidableEq, Repr

/-- Who a match starts with, ordered by session, and its name. -/
structure MatchStart where
  players : List MatchPlayer
  name : SessionId
  deriving DecidableEq, Repr

/-- How a match ended: who was in it, and the winner Game policy declared, if any. -/
structure MatchEnd where
  players : List SessionId
  winner : Option SessionId
  deriving DecidableEq, Repr

/-- What a peer's leaving did. -/
inductive Departure
  | none | fromLobby | fromMatch | endedMatch
  deriving DecidableEq, Repr

structure MatchConfig where
  engineVersion : String
  clientPack : PackHash
  characters : List String
  playerCount : ℕ := 1
  pauseTicks : UInt32 := 0
  /-- Whether a Reenact request is admitted; always false in a Shipping build. -/
  reenactments : Bool := false

structure Member where
  session : SessionId
  character : String
  spawn : Option Math.Vec3 := none
  /-- The Roster version this player's client last loaded for; 0 for none. -/
  readyVersion : UInt32 := 0
  deriving DecidableEq, Repr

structure Match where
  terms : ClientTerms
  characters : List String
  playerCount : ℕ
  pauseTicks : UInt32
  reenactments : Bool
  inMatch : Bool := false
  rosterVersion : UInt32 := 0
  ticksSinceEnd : UInt32
  nextEntity : EntityId := 1
  members : Table PeerId Member := ∅
  /-- How many IDs its generator has given. -/
  idsTaken : ℕ := 0

namespace Match
variable (ids : ℕ → SessionId)

def ofConfig (config : MatchConfig) : Match where
  terms := ⟨config.engineVersion, config.clientPack⟩
  characters := config.characters
  playerCount := config.playerCount
  pauseTicks := config.pauseTicks
  reenactments := config.reenactments
  ticksSinceEnd := config.pauseTicks

/-- The members ordered by session. -/
def membersBySession (m : Match) : List Member :=
  m.members.values.insertionSort fun a b => a.session ≤ b.session

def isPlaying (m : Match) (session : SessionId) : Bool :=
  m.inMatch && m.members.values.any fun member => member.session == session

/-- Who is in the match in progress, ordered by session; empty in the Lobby. -/
def playing (m : Match) : List SessionId :=
  if m.inMatch then m.membersBySession.map (·.session) else []

/-- Who is in the Lobby; empty, under the last version, while a match is in progress. -/
def getRoster (m : Match) : Roster where
  version := m.rosterVersion
  players :=
    if m.inMatch then []
    else m.membersBySession.map fun member => ⟨member.session, member.character⟩

def sessionOf (m : Match) (peer : PeerId) : Option SessionId :=
  (m.members.lookup peer).map (·.session)

/-- Why a peer that has not joined is refused: whether it may name its spawn at all, its version,
    its pack, its character, then whether it could join later. -/
def refusalOf (m : Match) (request : JoinRequest) : Option JoinRefusal :=
  if request.spawn.isSome ∧ ¬ m.reenactments then some .reenactmentsNotAccepted
  else match refusalOfClient request.engineVersion request.clientPack m.terms with
    | some refusal => some refusal
    | none =>
      if request.character ∉ m.characters then some .unknownCharacter
      else if m.inMatch then some .matchInProgress
      else if m.playerCount ≤ m.members.size then some .lobbyFull
      else none

/-- Admits `peer` to the Lobby, or says why not; a peer that has joined gets the admission it has. -/
def join (m : Match) (peer : PeerId) (request : JoinRequest) :
    Except JoinRefusal Admission × Match :=
  match m.members.lookup peer with
  | some existing => (.ok ⟨existing.session, existing.character⟩, m)
  | none =>
    match m.refusalOf request with
    | some refusal => (.error refusal, m)
    | none =>
      let member : Member := ⟨ids m.idsTaken, request.character, request.spawn, 0⟩
      (.ok ⟨member.session, member.character⟩,
        { m with
          members := m.members.insert peer member
          rosterVersion := m.rosterVersion + 1
          idsTaken := m.idsTaken + 1 })

/-- Ends the match in progress; a winner no longer in the match is none. -/
def endMatch (m : Match) (winner : Option SessionId) : Option MatchEnd × Match :=
  if ¬ m.inMatch then (none, m)
  else
    (some ⟨m.playing, winner.filter m.isPlaying⟩,
      { m with inMatch := false, rosterVersion := m.rosterVersion + 1, ticksSinceEnd := 0 })

/-- Whoever was Ready for version `previous` is Ready for `next`. -/
def carry (previous next : UInt32) (_ : PeerId) (member : Member) : Member :=
  if member.readyVersion = previous then { member with readyVersion := next } else member

/-- Removes `peer` from the Lobby or the match it is in, and says which. -/
def leave (m : Match) (peer : PeerId) : Departure × Match :=
  if peer ∉ m.members then (.none, m)
  else
    let left := { m with members := m.members.erase peer }
    if m.inMatch then
      if left.members.size = 0 then (.endedMatch, (left.endMatch none).2)
      else (.fromMatch, left)
    else
      -- whoever had loaded everyone before the departure still has everyone loaded after it
      (.fromLobby,
        { left with
          rosterVersion := m.rosterVersion + 1
          members := left.members.mapEntries (carry m.rosterVersion (m.rosterVersion + 1)) })

/-- Records that `peer` has loaded the Roster of `version`; only the current one counts. -/
def ready (m : Match) (peer : PeerId) (version : UInt32) : Bool × Match :=
  if m.inMatch ∨ peer ∉ m.members ∨ version ≠ m.rosterVersion then (false, m)
  else
    (true, { m with
      members := m.members.mapEntries fun other member =>
        if other = peer then { member with readyVersion := version } else member })

def isReady (m : Match) (peer : PeerId) : Bool :=
  !m.inMatch && (m.members.lookup peer).any fun member => member.readyVersion == m.rosterVersion

/-- Counts one server tick passing, towards the pause after a match. -/
def tick (m : Match) : Match :=
  if ¬ m.inMatch ∧ m.ticksSinceEnd < m.pauseTicks then
    { m with ticksSinceEnd := m.ticksSinceEnd + 1 }
  else m

/-- A body for each member, the entities counting up from `entity`. -/
def giveEntities : EntityId → List Member → List MatchPlayer
  | _, [] => []
  | entity, member :: rest =>
      ⟨member.session, entity, member.character, member.spawn⟩ :: giveEntities (entity + 1) rest

/-- Starts the match if the Lobby is full, everyone in it is Ready for the current Roster and the
    pause has passed; changes nothing otherwise. -/
def tryStart (m : Match) : Option MatchStart × Match :=
  if m.inMatch ∨ m.members.size ≠ m.playerCount ∨ m.ticksSinceEnd < m.pauseTicks then (none, m)
  else if m.members.values.all fun member => member.readyVersion == m.rosterVersion then
    (some ⟨giveEntities m.nextEntity m.membersBySession, ids m.idsTaken⟩,
      { m with
        inMatch := true
        nextEntity := m.nextEntity + UInt32.ofNat m.members.size
        idsTaken := m.idsTaken + 1 })
  else (none, m)

end Match
end Augusta.Host
