import Augusta.Harness.CommandRun
import Augusta.Prediction.Chain
import Augusta.Simulation.Player
import Mathlib.Data.List.Chain

/-! A client that predicts its player, and the server that plays it, through one Match the player
    lives through.

      client   ──Command n──▶ ≈ network ≈ ──arrive──▶ CommandQueue ──handed──▶ player
         ▲                                                                       │
         └── Reconciliation ◀── ≈ network ≈ ◀──── told: sequence, body, rifle ◀──┘

    Both step the player by the same function of its state and a Command. What the server tells is
    all of that state but the fall, which the client goes on with as it remembers it. -/

namespace Augusta.Harness
open Lib (Binary32)
open Link Prediction
open Prediction.World

/-- What the queue handed a tick, and the player as the tick left it. -/
structure Told where
  given : Host.TickCommand
  now : Predicted
  deriving DecidableEq

/-- What a state tells its client: everything but the fall. -/
def Told.acknowledgement (told : Told) : Acknowledgement where
  sequence := told.given.acknowledgedSequence
  body := told.now.body.state
  rifle := told.now.rifle

structure Game where
  client : World
  nextSequence : Sequence := 1
  /-- The Commands the client sent, oldest first. -/
  sent : List SequencedCommand := []
  queue : Host.CommandQueue
  player : Simulation.Mover
  /-- What each server tick told, oldest first. -/
  told : List Told := []

inductive GameEvent
  /-- The client ticks `command`, having newly heard that state, if any. -/
  | clientTick (command : Command) (heard : Option ℕ)
  /-- A message with these Commands arrives. -/
  | arrive (commands : List SequencedCommand)
  | serverTick

/-- The same Command but for what it says was seen, which a message may bring nearer its newest. -/
def alike (a b : Command) : Bool :=
  { a with seenTick := b.seenTick, seenFraction := b.seenFraction } = b

namespace Game

/-- The rules of a server's Parameters. -/
def rulesOf (parameters : Parameters) : Rules := ⟨parameters.stamina, parameters.rifle⟩

/-- The Match's start, as each side makes it. -/
def start (parameters : Parameters) (tickRateHz : UInt8) (spawn : Math.Vec3) : Game where
  client := World.start {} spawn parameters
  queue := .new tickRateHz
  player := .spawned (rulesOf parameters) spawn

def clientTick (scene : Scene) (game : Game) (command : Command) (heard : Option Told) : Game :=
  { game with
    client := game.client.tick scene command game.nextSequence (heard.map Told.acknowledgement)
    nextSequence := game.nextSequence + 1
    sent := game.sent ++ [⟨game.nextSequence, command⟩] }

def arrive (game : Game) (commands : List SequencedCommand) : Game :=
  { game with queue := (commands.foldl (offer Math.Vec3.length) (game.queue, 0)).1 }

def serverTick (scene : Scene) (rules : Rules) (game : Game) : Game :=
  let given := game.queue.next.1
  let player := game.player.tick scene rules (some given.command)
  { game with queue := game.queue.next.2, player, told := game.told ++ [⟨given, player.now⟩] }

/-- A message's Commands are ones the client sent, and what is heard was told: any of them, at any
    time, any number of times. -/
def step (scene : Scene) (rules : Rules) (game : Game) : GameEvent → Option Game
  | .clientTick command none => some (game.clientTick scene command none)
  | .clientTick command (some state) =>
      (game.told[state]?).map fun told => game.clientTick scene command (some told)
  | .arrive commands =>
      if commands.all fun command => game.sent.any fun sent =>
          command.sequence = sent.sequence && alike command.command sent.command then
        some (game.arrive commands)
      else none
  | .serverTick => some (game.serverTick scene rules)

def run (scene : Scene) (rules : Rules) (game : Game) (events : List GameEvent) : Option Game :=
  Lib.run (step scene rules) game events

/-- What the client had predicted after the Command acknowledged, if it corrects itself. -/
def correction (client : World) (acknowledgement : Acknowledgement) : Option Predicted :=
  match (client.history.acknowledge acknowledgement.sequence).1 with
  | none => none
  | some predicted => if needsCorrection acknowledgement predicted then some predicted else none

/-- One Command the client sent is handed each tick, and none is skipped. -/
structure Streaming (told : List Told) : Prop where
  sent : ∀ state ∈ told, state.given.sent = true
  consecutive : told.IsChain fun a b =>
    b.given.acknowledgedSequence.toNat = a.given.acknowledgedSequence.toNat + 1

instance (told : List Told) : Decidable (Streaming told) :=
  decidable_of_iff (_ ∧ _) ⟨fun ⟨hsent, hconsecutive⟩ => ⟨hsent, hconsecutive⟩,
    fun h => ⟨h.sent, h.consecutive⟩⟩

theorem Streaming.next {told : List Told} (h : Streaming told) {k : ℕ} {a b : Told}
    (ha : told[k]? = some a) (hb : told[k + 1]? = some b) :
    b.given.acknowledgedSequence.toNat = a.given.acknowledgedSequence.toNat + 1 := by
  obtain ⟨-, rfl⟩ := List.getElem?_eq_some_iff.mp ha
  obtain ⟨hlt, rfl⟩ := List.getElem?_eq_some_iff.mp hb
  exact List.isChain_iff_getElem.mp h.consecutive k hlt

theorem Streaming.before {told later : List Told} (h : Streaming (told ++ later)) :
    Streaming told where
  sent := fun state hstate => h.sent state (List.mem_append_left later hstate)
  consecutive := h.consecutive.left_of_append

end Game

/-! ### Steps of the same player -/

section
variable {scene : Scene} {rules : Rules}

/-- What a Command says was seen moves nothing. -/
theorem predict_alike {a b : Command} (h : alike a b = true) (now : Predicted) :
    predict scene rules now a = predict scene rules now b := by
  have hb : { a with seenTick := b.seenTick, seenFraction := b.seenFraction } = b :=
    of_decide_eq_true h
  rw [← hb]
  rfl

/-- The server steps its player as a client predicts it. -/
theorem now_tick (scene : Scene) (rules : Rules) {mover : Simulation.Mover}
    (h : World.Paced mover.body.state mover.body.record.state) (command : Command) :
    (mover.tick scene rules (some command)).now = predict scene rules mover.now command := by
  rw [Simulation.Mover.now, predict, Predicted.mk.injEq]
  exact ⟨move_paced scene rules h command, rfl⟩

/-- A body put where it is, on the ground or falling as fast as it was, steps as it would have. -/
theorem predict_restored (scene : Scene) (rules : Rules) {told : Told} {predicted : Predicted}
    (hgrid : Physics.onWireGrid told.now.body.state = told.now.body.state)
    (hfall : told.now.body.state.grounded = true ∨
      predicted.body.verticalSpeed = told.now.body.verticalSpeed) (command : Command) :
    predict scene rules (restored told.acknowledgement predicted) command =
      predict scene rules told.now command := by
  have hrestored : restored told.acknowledgement predicted =
      ⟨{ told.now.body with verticalSpeed := predicted.body.verticalSpeed }, told.now.rifle⟩ := by
    rw [restored, Physics.restore, Told.acknowledgement, hgrid]
  rw [hrestored]
  rcases hfall with hground | hsame
  · rw [predict, predict, Predicted.mk.injEq]
    exact ⟨Physics.step_grounded _ _ _ _ _ hground _, rfl⟩
  · rw [hsame]

/-- Two players that step alike once are one from there on. -/
theorem foldl_agree {step : Predicted → Command → Predicted} {a b : Predicted}
    (h : ∀ command, step a command = step b command) {commands : List Command}
    (hne : commands ≠ []) : commands.foldl step a = commands.foldl step b := by
  cases commands with
  | nil => exact absurd rfl hne
  | cons command rest => rw [List.foldl_cons, List.foldl_cons, h]

/-- A state predicted exactly needs no correction. -/
theorem needsCorrection_self {told : Told} {predicted : Predicted}
    (hgrid : Physics.onWireGrid told.now.body.state = told.now.body.state)
    (hnumbers : told.now.rifle.Numbers) (hbody : predicted.body.state = told.now.body.state)
    (hrifle : predicted.rifle = told.now.rifle) :
    needsCorrection told.acknowledgement predicted = false := by
  have hposition : told.now.body.state.position.isFinite = true := by
    rw [← hgrid]
    exact Math.Vec3.snap_isFinite _ _
  have hstamina : told.now.body.state.stamina.isFinite = true := by
    rw [← hgrid]
    exact Math.snap_isFinite _ _
  have hstride (n : UInt8) : strideDistance n n = 0 := by
    simp [strideDistance, Physics.kStrideSteps]
  have htolerance : kPositionTolerance.le .zero = false := by decide
  have hstaminaTolerance : kStaminaTolerance.le (Binary32.abs .zero) = false := by decide
  simp [needsCorrection, bodyNeedsCorrection, Told.acknowledgement, hbody, hrifle,
    Math.Vec3.length_sub_self hposition, Binary32.sub_self_of_isFinite hstamina, hstride,
    htolerance, hstaminaTolerance, hnumbers.eq_self]

end

end Augusta.Harness
