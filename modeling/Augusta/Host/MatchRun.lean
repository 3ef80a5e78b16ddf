import Augusta.Host.Match
import Mathlib.Tactic

/-! Runs of `Match`: any operations, any peers, any order, any length.

      log (newest first):  readied s r :: … :: joined s :: …
                           └── what a member counted Ready must have behind it: its own report for
                               a Roster holding everyone now in, and no Match end since

    `Match.apply` says what one operation does and logs; `MatchStep` inverts it, one constructor a
    way it can go; the invariants below are each carried over a step and then over a run. -/

namespace Augusta.Host
open Lib

inductive MatchOp
  | join (peer : PeerId) (request : JoinRequest)
  | leave (peer : PeerId)
  | ready (peer : PeerId) (version : UInt32)
  | tick
  | tryStart
  | endMatch (winner : Option SessionId)

inductive MatchEvent
  | joined (session : SessionId)
  | leftLobby
  | leftMatch
  /-- A report that counted, and the Roster it was for. -/
  | readied (session : SessionId) (roster : Roster)
  | ticked
  | started (start : MatchStart)
  | ended
  deriving DecidableEq

/-! ### What a log says -/

/-- How often the Roster's version was bumped. -/
def bumps : List MatchEvent → ℕ
  | [] => 0
  | .joined _ :: older | .leftLobby :: older | .ended :: older => bumps older + 1
  | _ :: older => bumps older

/-- The Session IDs and Match IDs given, oldest first. -/
def idsGiven : List MatchEvent → List SessionId
  | [] => []
  | .joined session :: older => idsGiven older ++ [session]
  | .started start :: older => idsGiven older ++ [start.name]
  | _ :: older => idsGiven older

/-- The Entity IDs given, oldest first. -/
def entitiesGiven : List MatchEvent → List EntityId
  | [] => []
  | .started start :: older => entitiesGiven older ++ start.players.map (·.entity)
  | _ :: older => entitiesGiven older

/-- The ticks since the last Match ended, none if none has. -/
def ticksSince : List MatchEvent → Option ℕ
  | [] => none
  | .ended :: _ => some 0
  | .ticked :: older => (ticksSince older).map (· + 1)
  | _ :: older => ticksSince older

/-- `session` reported Ready for a Roster holding each of `members`, and no Match ended since. -/
def SawEveryone (members : Table PeerId Member) (session : SessionId) (log : List MatchEvent) :
    Prop :=
  ∃ newer roster older, log = newer ++ .readied session roster :: older ∧ .ended ∉ newer ∧
    ∀ peer other, members.lookup peer = some other →
      ⟨other.session, other.character⟩ ∈ roster.players

namespace Match
variable (ids : ℕ → SessionId)

/-- One operation, and what it logs, newest first. -/
def apply (m : Match) : MatchOp → Match × List MatchEvent
  | .join peer request =>
      match m.join ids peer request with
      | (.ok admission, m') => (m', if peer ∈ m.members then [] else [.joined admission.session])
      | (.error _, m') => (m', [])
  | .leave peer =>
      match m.leave peer with
      | (.none, m') => (m', [])
      | (.fromLobby, m') => (m', [.leftLobby])
      | (.fromMatch, m') => (m', [.leftMatch])
      | (.endedMatch, m') => (m', [.ended, .leftMatch])
  | .ready peer version =>
      match m.ready peer version with
      | (true, m') => (m', ((m.sessionOf peer).map (.readied · m.getRoster)).toList)
      | (false, m') => (m', [])
  | .tick => (m.tick, [.ticked])
  | .tryStart =>
      match m.tryStart ids with
      | (start, m') => (m', (start.map .started).toList)
  | .endMatch winner =>
      match m.endMatch winner with
      | (ended, m') => (m', if ended.isSome then [.ended] else [])

def playOp (s : Match × List MatchEvent) (op : MatchOp) : Match × List MatchEvent :=
  ((s.1.apply ids op).1, (s.1.apply ids op).2 ++ s.2)

/-- A run from a fresh `Match`, with its log. -/
def play (config : MatchConfig) (ops : List MatchOp) : Match × List MatchEvent :=
  ops.foldl (playOp ids) (ofConfig config, [])

end Match

namespace Match
variable {ids : ℕ → SessionId}

theorem refusalOf_eq_none {m : Match} {request : JoinRequest} (h : m.refusalOf request = none) :
    m.inMatch = false ∧ m.members.size < m.playerCount := by
  unfold refusalOf at h
  split at h
  · cases h
  · split at h
    · cases h
    · split_ifs at h with hc hm hs
      exact ⟨by simpa using hm, by omega⟩

end Match

/-! ### Counters -/

/-- The pause the ticks since the last Match end leave counted. -/
def elapsed (pause : ℕ) (log : List MatchEvent) : ℕ :=
  match ticksSince log with
  | none => pause
  | some n => min pause n

/-- What the counters of a `Match` hold, whatever its members: no wrap is excluded here. -/
structure Counted (ids : ℕ → SessionId) (config : MatchConfig) (m : Match)
    (log : List MatchEvent) : Prop where
  playerCount : m.playerCount = config.playerCount
  pauseTicks : m.pauseTicks = config.pauseTicks
  room : m.members.size ≤ m.playerCount
  version : m.rosterVersion = UInt32.ofNat (bumps log)
  ids : idsGiven log = (List.range m.idsTaken).map ids
  entities : entitiesGiven log =
    (List.range (entitiesGiven log).length).map fun i => UInt32.ofNat (i + 1)
  nextEntity : m.nextEntity = UInt32.ofNat ((entitiesGiven log).length + 1)
  pause : m.ticksSinceEnd.toNat = elapsed m.pauseTicks.toNat log
  rested : m.inMatch = true → m.ticksSinceEnd = m.pauseTicks

theorem UInt32.ofNat_succ (n : ℕ) : UInt32.ofNat (n + 1) = UInt32.ofNat n + 1 := by
  rw [UInt32.ofNat_add]; rfl

/-- The entities a Match start gives count up from its next. -/
theorem Match.giveEntities_entity (members : List Member) : ∀ n,
    (Match.giveEntities (UInt32.ofNat (n + 1)) members).map (·.entity) =
      (List.range members.length).map fun i => UInt32.ofNat (n + i + 1) := by
  induction members with
  | nil => intro n; rfl
  | cons member rest ih =>
      intro n
      have hnext : UInt32.ofNat (n + 1) + 1 = UInt32.ofNat (n + 1 + 1) := (UInt32.ofNat_succ _).symm
      simp only [giveEntities, List.map_cons, hnext, ih (n + 1), List.length_cons,
        List.range_succ_eq_map, List.map_map, Function.comp_def]
      congr 1
      refine List.map_congr_left fun i _ => ?_
      congr 1; omega

theorem Match.length_giveEntities (members : List Member) : ∀ entity,
    (Match.giveEntities entity members).length = members.length := by
  induction members with
  | nil => intro entity; rfl
  | cons member rest ih => intro entity; simp [giveEntities, ih]

@[simp] theorem Match.length_membersBySession (m : Match) :
    m.membersBySession.length = m.members.size := by
  simp [membersBySession]

variable {ids : ℕ → SessionId} {config : MatchConfig} {m m' : Match} {es log : List MatchEvent}

/-- A report still counts while no Match ends and no one new comes in. -/
theorem SawEveryone.later {members members' : Table PeerId Member} {session : SessionId}
    (h : SawEveryone members session log) (hes : .ended ∉ es)
    (hsub : ∀ peer other, members'.lookup peer = some other → ∃ before,
      members.lookup peer = some before ∧ before.session = other.session ∧
      before.character = other.character) :
    SawEveryone members' session (es ++ log) := by
  obtain ⟨newer, roster, older, rfl, hnewer, hall⟩ := h
  refine ⟨es ++ newer, roster, older, by simp, by simp [hes, hnewer], fun peer other hp => ?_⟩
  obtain ⟨before, hbefore, hs, hc⟩ := hsub peer other hp
  rw [← hs, ← hc]
  exact hall peer before hbefore

/-- A Lobby for two, with no pause between Matches. -/
def duel : MatchConfig where
  engineVersion := "1"
  clientPack := Vector.replicate 32 0
  characters := ["soldier"]
  playerCount := 2

def duelRequest : JoinRequest := ⟨"1", Vector.replicate 32 0, "soldier", none⟩

/-- The duel's two members, Ready for `a` and `b`. -/
def duelMembers (a b : UInt32) : Table PeerId Member :=
  ⟨[⟨2, 1, "soldier", none, a⟩, ⟨1, 0, "soldier", none, b⟩], show [2, 1].Nodup by decide⟩

/-- The duel's Lobby between two Matches. -/
def duelLobby (a b version : UInt32) (entity : EntityId) (taken : ℕ) : Match :=
  { Match.ofConfig duel with
    rosterVersion := version, nextEntity := entity, members := duelMembers a b, idsTaken := taken }

end Augusta.Host
