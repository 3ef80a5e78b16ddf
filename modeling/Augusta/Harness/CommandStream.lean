import Augusta.Harness.Inbox
import Augusta.Link.Commands

/-! `augusta::harness::CommandStream`: the Commands a client sends each tick, those its server has
    not acknowledged going out again with each new one. What it predicts meanwhile is not modelled:
    nothing it sends depends on it. -/

namespace Augusta.Harness
open Lib (Binary32)
open Link

/-- `EntityOf`: the body a session's player controls. -/
def entityOf (start : MatchStart) (session : SessionId) : Option EntityId :=
  (start.players.find? fun player => player.session == session).map (·.entity)

namespace ServerView

def ownEntity (view : ServerView) : Option EntityId :=
  match view.accepted, view.matchStart with
  | some accepted, some start => entityOf start accepted.session
  | _, _ => none

/-- A Death and an update at zero health each say it is not, and either can arrive first. -/
def ownAlive (view : ServerView) : Bool :=
  match view.ownEntity with
  | none => false
  | some own =>
      view.inMatch &&
        !(match view.authoritative with
          | some state => state.health.le .zero
          | none => false) &&
        !view.dead.contains own

end ServerView

structure CommandStream where
  /-- Which match it last started over in, 0 for none. -/
  startedMatch : UInt32 := 0
  unacknowledged : List SequencedCommand := []
  nextSequence : Sequence := 1
  deriving DecidableEq, Repr

namespace CommandStream

/-- Keeps `command` with those the view does not yet acknowledge, and returns those one message
    carries, oldest first. -/
def queue (stream : CommandStream) (view : ServerView) (sequence : Sequence) (command : Command) :
    List SequencedCommand × CommandStream :=
  let unacknowledged :=
    match view.authoritative with
    | some state => stream.unacknowledged.filter fun sent => state.acknowledgedSequence < sent.sequence
    | none => stream.unacknowledged
  -- an older one would never be sent again
  let kept := carried (unacknowledged ++ [⟨sequence, command⟩])
  (kept, { stream with unacknowledged := kept })

/-- A match starts its player over, but the sequences go on growing. -/
def startOver (stream : CommandStream) (view : ServerView) : CommandStream :=
  if stream.startedMatch ≠ view.matchesStarted then
    { stream with unacknowledged := [], startedMatch := view.matchesStarted }
  else stream

/-- What a tick queues: a dead player's Command keeps only the stream in step. -/
def queuedCommand (view : ServerView) (command : Command) : Command :=
  if view.ownAlive then command else { command with fire := false }

/-- One tick of `command`, and the Commands to send for it: none outside a match. -/
def tick (stream : CommandStream) (view : ServerView) (command : Command) :
    List SequencedCommand × CommandStream :=
  if ¬ view.inMatch then ([], stream)
  else
    let stream := stream.startOver view
    let sequence := stream.nextSequence
    { stream with nextSequence := sequence + 1 }.queue view sequence (queuedCommand view command)

end CommandStream
end Augusta.Harness
