import Augusta.Harness.CommandStream
import Augusta.Prediction.Chain

/-! `augusta::harness::CommandStream` with what it predicts: each tick of a Match, the Command sent
    is predicted under its sequence, against what the view says of the client's own player.

      view ──OwnAcknowledgement──▶ prediction ◀──Command, sequence──┐
        └──────────────────────▶ CommandStream ──▶ message ─────────┘

    The sequences grow for as long as the client lives, across Matches. -/

namespace Augusta.Harness
open Lib (Binary32)
open Link Prediction

/-- Where Match start put this client's own player. -/
def ownSpawn (view : ServerView) : Math.Vec3 :=
  match view.accepted, view.matchStart with
  | some accepted, some start =>
      ((start.players.find? fun player => player.session == accepted.session).map (·.spawn)).getD {}
  | _, _ => {}

/-- What the server's state says about this client's own player. -/
def ownAcknowledgement (view : ServerView) : Option Acknowledgement :=
  match view.ownEntity, view.authoritative with
  | some own, some state =>
      (state.bodies.find? fun body => body.entity == own).map fun body =>
        { sequence := state.acknowledgedSequence, body := body.body, rifle := state.rifle }
  | _, _ => none

structure PredictedStream where
  stream : CommandStream := {}
  prediction : World := {}
  lastState : State := {}

structure CommandTick where
  state : State
  send : List SequencedCommand

namespace PredictedStream

/-- Each Match starts its player over where Match start put it. -/
def startOver (client : PredictedStream) (view : ServerView) : World :=
  if client.stream.startedMatch ≠ view.matchesStarted then
    -- a view in a Match has been accepted
    client.prediction.start (ownSpawn view) ((view.accepted.map (·.parameters)).getD {})
  else client.prediction

/-- One tick of `command`: predicted and sent, and only sent once the player is dead. -/
def tick (scene : Scene) (client : PredictedStream) (view : ServerView) (command : Command) :
    CommandTick × PredictedStream :=
  if ¬ view.inMatch then (⟨client.lastState, []⟩, client)
  else
    let prediction := client.startOver view
    let sent := client.stream.tick view command
    if ¬ view.ownAlive then
      (⟨client.lastState, sent.1⟩, { client with stream := sent.2, prediction })
    else
      let prediction := prediction.tick scene command client.stream.nextSequence
        (ownAcknowledgement view)
      (⟨prediction.tickState, sent.1⟩, ⟨sent.2, prediction, prediction.tickState⟩)

end PredictedStream

/-- A client, and the Commands it has predicted since its player last started over. -/
structure Playing where
  client : PredictedStream := {}
  predicted : List (Sequence × Command) := []

namespace Playing

def tick (scene : Scene) (p : Playing) (input : ServerView × Command) : Playing where
  client := (p.client.tick scene input.1 input.2).2
  predicted :=
    if ¬ input.1.inMatch then p.predicted
    else
      let predicted :=
        if p.client.stream.startedMatch ≠ input.1.matchesStarted then [] else p.predicted
      if input.1.ownAlive then predicted ++ [(p.client.stream.nextSequence, input.2)] else predicted

def run (scene : Scene) (inputs : List (ServerView × Command)) : Playing :=
  inputs.foldl (tick scene) {}

end Playing
end Augusta.Harness
