import Augusta.Harness.Intent
import Augusta.Lib.Countdown

/-! An IntentExecutor at work: Intents set and cleared from any threads, ticks carried out between,
    and the endings each makes told afterwards, in any order.

      call ──▶ ┌──────────┐ ──ended──▶ pending ──tell──▶ told
      next ──▶ │ executor │ ──Command──▶ sent
               └──────────┘                     an Intent goes by its place among those given -/

namespace Augusta.Harness.IntentExecutor
open Lib (Binary32)
open Link

/-- The three channels, and the Raw that takes them all. -/
inductive Channel
  | raw | movement | aim | trigger
  deriving DecidableEq, Repr

/-- An Intent, as it is set. -/
inductive AnyIntent
  | raw (command : Command)
  | movement (intent : MovementIntent)
  | aim (intent : AimIntent)
  | trigger (intent : TriggerIntent)

def AnyIntent.channel : AnyIntent → Channel
  | .raw _ => .raw
  | .movement _ => .movement
  | .aim _ => .aim
  | .trigger _ => .trigger

/-- Whether a Command is to ask for its reload. -/
def AnyIntent.reloads : AnyIntent → Bool
  | .raw command => command.reload
  | .trigger .reload => true
  | _ => false

/-- A call that puts something else on a channel. -/
inductive Call
  | set (intent : AnyIntent)
  | clearMovement
  | clearAim
  | clearTrigger

/-- The channels a call ends the Intents of. -/
def Call.takes : Call → List Channel
  | .set (.raw _) => [.raw, .movement, .aim, .trigger]
  | .set (.movement _) | .clearMovement => [.raw, .movement]
  | .set (.aim _) | .clearAim => [.raw, .aim]
  | .set (.trigger _) | .clearTrigger => [.raw, .trigger]

/-- What a call gives to hold. -/
def Call.gives : Call → List AnyIntent
  | .set intent => [intent]
  | _ => []

section
variable {κ : Type}

def call (executor : IntentExecutor κ) (onEnded : κ) : Call → IntentExecutor κ × List (Ended κ)
  | .set (.raw command) => executor.setRaw command onEnded
  | .set (.movement intent) => executor.setMovement intent onEnded
  | .set (.aim intent) => executor.setAim intent onEnded
  | .set (.trigger intent) => executor.setTrigger intent onEnded
  | .clearMovement => executor.clearMovement
  | .clearAim => executor.clearAim
  | .clearTrigger => executor.clearTrigger

/-- What is held on a channel. -/
def heldOn (executor : IntentExecutor κ) : Channel → Option κ
  | .raw => executor.raw.map (·.onEnded)
  | .movement => executor.movement.map (·.onEnded)
  | .aim => executor.aim.map (·.onEnded)
  | .trigger => executor.trigger.map (·.onEnded)

/-- All that is held. -/
def held (executor : IntentExecutor κ) : List κ :=
  [Channel.raw, .movement, .aim, .trigger].filterMap executor.heldOn

end

/-! ### Runs -/

/-- A NextCommand: what was held when it was called, what it was called with, and what it sent. -/
structure Sent where
  before : IntentExecutor ℕ
  view : ServerView
  own : Physics.BodyState
  command : Command

structure Run where
  executor : IntentExecutor ℕ := {}
  given : List AnyIntent := []
  /-- Ended, and not told yet. -/
  pending : List (Ended ℕ) := []
  told : List (Ended ℕ) := []
  sent : List Sent := []

inductive Event
  | call (call : Call)
  | next (view : ServerView) (own : Physics.BodyState)
  /-- A callback is called, whichever is next. -/
  | tell (which : ℕ)

namespace Run
variable (libm : Libm)

def step (run : Run) : Event → Run
  | .call call =>
      let called := run.executor.call run.given.length call
      { run with
        executor := called.1
        given := run.given ++ call.gives
        pending := run.pending ++ called.2 }
  | .next view own =>
      let next := run.executor.nextCommand libm view own
      { run with
        executor := next.2.1
        pending := run.pending ++ next.2.2
        sent := run.sent ++ [⟨run.executor, view, own, next.1⟩] }
  | .tell which =>
      { run with
        pending := run.pending.eraseIdx which
        told := run.told ++ run.pending[which]?.toList }

/-- A fresh executor's, after `events`. -/
def after (events : List Event) : Run := events.foldl (step libm) {}

theorem after_concat (events : List Event) (event : Event) :
    after libm (events ++ [event]) = (after libm events).step libm event := by
  simp [after]

end Run

/-! ### What a run is held to -/

/-- The Intent a Command's reload is asked for, if it is a Raw's or a Reload's. -/
def asker (executor : IntentExecutor ℕ) : Option ℕ :=
  match executor.raw, executor.trigger with
  | some held, _ => some held.onEnded
  | none, some ⟨.reload, onEnded, _⟩ => some onEnded
  | none, _ => none

def Sent.asks (sent : Sent) : Option ℕ :=
  if sent.view.ownAlive ∧ sent.command.reload then sent.before.asker else none

/-- Where a tick carries out the MoveTo `n`: the ticks a second, and how far its body is. -/
def Sent.walks (n : ℕ) (sent : Sent) : Option (ℕ × Binary32) :=
  match sent.before.raw, sent.before.movement with
  | none, some ⟨.moveTo moveTo, onEnded, _⟩ =>
      if sent.view.ownAlive ∧ onEnded = n then
        some (tickRateOf sent.view, moveTo.distance sent.own.position)
      else none
  | _, _ => none

/-- The ticks the MoveTo `n` has been carried out on. -/
def Run.walked (run : Run) (n : ℕ) : List (ℕ × Binary32) := run.sent.filterMap (Sent.walks n)

/-- The metres a first distance counts for: past the farthest float, all that a float can say. -/
def reach (first : Binary32) : ℚ := if first.isFinite then first.toRat else kFarthest.toRat

/-- A Raw is held alone. -/
def Alone (executor : IntentExecutor ℕ) : Prop :=
  executor.raw.isSome = true →
    executor.movement = none ∧ executor.aim = none ∧ executor.trigger = none

/-- Every Intent given is held on its own channel or has ended, to be told or told already: in one
    of these places, once. -/
structure Accounted (run : Run) : Prop where
  once : (run.executor.held ++ run.pending.map (·.onEnded) ++ run.told.map (·.onEnded)).Perm
    (List.range run.given.length)
  channel : ∀ channel n, run.executor.heldOn channel = some n →
    (run.given[n]?).map AnyIntent.channel = some channel

/-- The MoveTo `n` has ended itself. -/
def HasMoved (run : Run) (n : ℕ) : Prop :=
  ∃ e ∈ run.pending ++ run.told, e.onEnded = n ∧ (e.ending = .arrived ∨ e.ending = .blocked)

end Augusta.Harness.IntentExecutor
