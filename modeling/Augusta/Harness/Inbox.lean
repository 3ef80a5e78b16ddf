import Augusta.Link.Messages
import Mathlib.Data.List.Basic
import Mathlib.Data.List.Induction

/-! `augusta::harness::Inbox`: what a Session makes of the messages its server sends.

      reliable, in order :  accepted … start₁ … death … end₁ … start₂ …
      unreliable         :        s s   s  ⟶ lost, doubled, late, overtaking

    A state does not say which Match it is of: it is kept if it is newer than the one held and every
    body in it is a player's of the Match in progress. -/

namespace Augusta.Harness
open Link

/-- Events kept oldest first, each under the Match it is of, by the count of Matches started. -/
structure Pending (α : Type) where
  limit : ℕ
  events : List (UInt32 × α) := []

namespace Pending
variable {α : Type}

/-- Drops the events of earlier matches, which are at the front. -/
def dropBefore (p : Pending α) (matchesStarted : UInt32) : Pending α :=
  { p with events := p.events.dropWhile fun kept => kept.1 < matchesStarted }

def add (p : Pending α) (matchesStarted : UInt32) (event : α) : Pending α :=
  let events := (p.dropBefore matchesStarted).events ++ [(matchesStarted, event)]
  { p with events := if p.limit < events.length then events.tail else events }

/-- Every event kept of the match `matchesStarted` numbers, which are kept no more. -/
def take (p : Pending α) (matchesStarted : UInt32) : List α × Pending α :=
  let events := (p.dropBefore matchesStarted).events
  ((events.takeWhile fun kept => kept.1 == matchesStarted).map (·.2),
    { p with events := events.dropWhile fun kept => kept.1 == matchesStarted })

end Pending

def kMaxPendingShots : ℕ := 256

def kMaxPendingDeaths : ℕ := 16

def kMaxPendingHitConfirmations : ℕ := 64

def kMaxPendingShotJudgements : ℕ := 64

def kRecentStatesKept : ℕ := 28

/-- `IsInMatch` of a session. -/
def sessionInMatch (start : MatchStart) (session : SessionId) : Bool :=
  start.players.any fun player => player.session == session

/-- `IsInMatch` of a body. -/
def entityInMatch (start : MatchStart) (entity : EntityId) : Bool :=
  start.players.any fun player => player.entity == entity

/-- What the server has told this client, whole. -/
structure ServerView where
  accepted : Option Admission := none
  refusal : Option JoinRefusal := none
  lobby : Option Lobby := none
  matchStart : Option MatchStart := none
  matchesStarted : UInt32 := 0
  inMatch : Bool := false
  matchEnd : Option MatchEnd := none
  authoritative : Option AuthoritativeState := none
  recentAuthoritative : List AuthoritativeState := []
  dead : List EntityId := []

def forgetStates (view : ServerView) : ServerView :=
  { view with authoritative := none, recentAuthoritative := [] }

/-- Keeps `state` as the newest, and the last of the recent ones, the oldest of which goes once
    `kRecentStatesKept` are held. -/
def keepState (view : ServerView) (state : AuthoritativeState) : ServerView :=
  { view with
    recentAuthoritative :=
      (if view.recentAuthoritative.length = kRecentStatesKept then view.recentAuthoritative.tail
        else view.recentAuthoritative) ++ [state]
    authoritative := some state }

structure Inbox where
  viewer : Bool := false
  view : ServerView := {}
  shots : Pending Shot := ⟨kMaxPendingShots, []⟩
  hitConfirmations : Pending HitConfirmation := ⟨kMaxPendingHitConfirmations, []⟩
  deaths : Pending Death := ⟨kMaxPendingDeaths, []⟩
  shotJudgements : Pending ShotJudgement := ⟨kMaxPendingShotJudgements, []⟩
  /-- What `on_match` was told: a Match ID at each start taken, nil at each end. -/
  told : List SessionId := []

namespace Inbox

/-- A server whose tick rate or parameters the simulation cannot run on is not usable. -/
def onJoinAccepted (inbox : Inbox) (accepted : Admission) : Inbox :=
  if ¬ Parameters.isValidTickRate accepted.tickRateHz then inbox
  else match accepted.parameters.validate with
    | .error _ => inbox
    | .ok () => { inbox with view := { inbox.view with accepted := some accepted } }

/-- Whether a Match start is one this client can play: it names it, or this is a Replay viewer. -/
def takes (inbox : Inbox) (start : MatchStart) : Bool :=
  match inbox.view.accepted with
  | none => false
  | some accepted => inbox.viewer || sessionInMatch start accepted.session

def onMatchStart (inbox : Inbox) (start : MatchStart) : Inbox :=
  if ¬ inbox.takes start then inbox
  else
    { inbox with
      told := inbox.told ++ [start.name]
      view := { forgetStates inbox.view with
        matchStart := some start
        matchesStarted := inbox.view.matchesStarted + 1
        inMatch := true
        matchEnd := none
        dead := [] } }

def onMatchEnd (inbox : Inbox) (ended : MatchEnd) : Inbox :=
  { inbox with
    view := { forgetStates inbox.view with inMatch := false, matchEnd := some ended }
    told := inbox.told ++ [0] }

/-- The Match start in progress, none outside a match. -/
def inProgress (inbox : Inbox) : Option MatchStart :=
  if inbox.view.inMatch then inbox.view.matchStart else none

def onShot (inbox : Inbox) (shot : Shot) : Inbox :=
  match inbox.inProgress with
  | none => inbox
  | some start =>
      if ¬ entityInMatch start shot.shooter then inbox
      else { inbox with shots := inbox.shots.add inbox.view.matchesStarted shot }

def onHitConfirmation (inbox : Inbox) (hit : HitConfirmation) : Inbox :=
  match inbox.inProgress with
  | none => inbox
  | some start =>
      if ¬ entityInMatch start hit.target then inbox
      else { inbox with hitConfirmations := inbox.hitConfirmations.add inbox.view.matchesStarted hit }

/-- What a judgement's shot struck may be a Prop, so it is not checked against the players. -/
def onShotJudgement (inbox : Inbox) (judgement : ShotJudgement) : Inbox :=
  if ¬ inbox.view.inMatch then inbox
  else { inbox with shotJudgements := inbox.shotJudgements.add inbox.view.matchesStarted judgement }

def onDeath (inbox : Inbox) (death : Death) : Inbox :=
  match inbox.inProgress with
  | none => inbox
  | some start =>
      if ¬ entityInMatch start death.victim ∨ ¬ entityInMatch start death.killer then inbox
      else
        { inbox with
          view := { inbox.view with dead := inbox.view.dead ++ [death.victim] }
          deaths := inbox.deaths.add inbox.view.matchesStarted death }

/-- Whether `state` is newer than the one held. -/
def isNews (view : ServerView) (state : AuthoritativeState) : Bool :=
  match view.authoritative with
  | none => true
  | some held => held.tick < state.tick

def onAuthoritativeState (inbox : Inbox) (state : AuthoritativeState) : Inbox :=
  match inbox.inProgress with
  | none => inbox
  | some start =>
      if ¬ state.bodies.all fun body => entityInMatch start body.entity then inbox
      else if ¬ isNews inbox.view state then inbox
      else { inbox with view := keepState inbox.view state }

def receive (inbox : Inbox) : ServerMessage → Inbox
  | .admission accepted => inbox.onJoinAccepted accepted
  | .joinRefusal reason => { inbox with view := { inbox.view with refusal := some reason } }
  | .lobby lobby => { inbox with view := { inbox.view with lobby := some lobby } }
  | .matchStart start => inbox.onMatchStart start
  | .matchEnd ended => inbox.onMatchEnd ended
  | .authoritativeState state => inbox.onAuthoritativeState state
  | .shot shot => inbox.onShot shot
  | .hitConfirmation hit => inbox.onHitConfirmation hit
  | .death death => inbox.onDeath death
  -- a Replay list, which a replay server sends only a client that asked for it
  | .replayList _ => inbox
  | .shotJudgement judgement => inbox.onShotJudgement judgement

/-- A fresh Inbox, of a Replay viewer or not, handed `messages`. -/
def run (viewer : Bool) (messages : List ServerMessage) : Inbox :=
  messages.foldl receive { viewer := viewer }

theorem run_concat (viewer : Bool) (messages : List ServerMessage) (message : ServerMessage) :
    run viewer (messages ++ [message]) = (run viewer messages).receive message := by
  simp [run]

end Inbox
end Augusta.Harness
