import Augusta.Core.Command
import Augusta.Link.Messages
import Mathlib.Data.List.Basic

/-! `augusta::host::CommandQueue`: one player's incoming Commands.

      TryEnqueue ──▶ [ oldest … newest ] ──▶ Next      one a tick: the oldest queued,
                                                        else the last one's movement held,
                                                        else none

    How long a vector is is asked of `vecLength`, the math library's. -/

namespace Augusta.Host
open Lib (Binary32)
open Link (SequencedCommand)

inductive Rejection
  | stale | nonFinite | outOfRange
  deriving DecidableEq, Repr

/-- 2.0 -/
def kMaxMovementMagnitude : Binary32 := ⟨0x40000000⟩

/-- 1.6 radians. -/
def kMaxPitch : Binary32 := ⟨0x3FCCCCCD⟩

/-- 3.2 radians. -/
def kMaxYaw : Binary32 := ⟨0x404CCCCD⟩

/-- Why a Command is not well formed, whatever its sequence. -/
def malformed (vecLength : Math.Vec3 → Binary32) (input : Command) : Option Rejection :=
  if !input.movement.direction.isFinite || !input.yaw.isFinite || !input.pitch.isFinite ||
      !input.seenFraction.isFinite then
    some .nonFinite
  else if kMaxMovementMagnitude.lt (vecLength input.movement.direction) ||
      kMaxPitch.lt input.pitch.abs || kMaxYaw.lt input.yaw.abs then
    some .outOfRange
  else none

/-- `Validate`: why a Command is not taken in after `lastSequence`, none if it is. -/
def validate (vecLength : Math.Vec3 → Binary32) (command : SequencedCommand)
    (lastSequence : Sequence) : Option Rejection :=
  if command.sequence ≤ lastSequence then some .stale else malformed vecLength command.command

def kMaxQueuedCommands : ℕ := 16

inductive Enqueued
  | queued | droppedOldest
  deriving DecidableEq, Repr

/-- What the queue hands a tick. -/
structure TickCommand where
  command : Command := {}
  acknowledgedSequence : Sequence := 0
  /-- Whether it is one the client sent, taken off the queue for this tick. -/
  sent : Bool := false
  deriving DecidableEq, Repr

structure CommandQueue where
  maxHeldTicks : ℕ
  queued : List SequencedCommand := []
  last : Option Command := none
  heldTicks : ℕ := 0
  lastOffered : Sequence := 0
  acknowledged : Sequence := 0
  deriving DecidableEq, Repr

/-- The Command as a tick that repeats it runs it: nothing one-shot fires again. -/
def withoutActions (command : Command) : Command := { command with fire := false, reload := false }

namespace CommandQueue

/-- A queue for a server ticking at `tickRateHz`. -/
def new (tickRateHz : UInt8) : CommandQueue where maxHeldTicks := Augusta.heldTicks tickRateHz

def tryEnqueue (vecLength : Math.Vec3 → Binary32) (queue : CommandQueue)
    (command : SequencedCommand) : Except Rejection (Enqueued × CommandQueue) :=
  match validate vecLength command queue.lastOffered with
  | some rejection => .error rejection
  | none =>
      let queued := queue.queued ++ [command]
      let taken := { queue with lastOffered := command.sequence, queued }
      if queued.length > kMaxQueuedCommands then
        .ok (.droppedOldest, { taken with queued := queued.tail })
      else .ok (.queued, taken)

/-- The Command for this tick. -/
def next (queue : CommandQueue) : TickCommand × CommandQueue :=
  match queue.queued with
  | first :: rest =>
      ({ command := first.command, acknowledgedSequence := first.sequence, sent := true },
        { queue with
          queued := rest, last := some first.command, heldTicks := 0,
          acknowledged := first.sequence })
  | [] =>
      match queue.last with
      | none => ({ acknowledgedSequence := queue.acknowledged }, queue)
      | some last =>
          let command := withoutActions last
          if queue.heldTicks < queue.maxHeldTicks then
            ({ command, acknowledgedSequence := queue.acknowledged },
              { queue with heldTicks := queue.heldTicks + 1 })
          else
            ({ command :=
                { command with
                  movement := { command.movement with direction := {}, sprint := false } }
               acknowledgedSequence := queue.acknowledged },
              queue)

/-! ### What the operations do -/

/-- A Command taken in is the newest, and one at most goes for it: the oldest. -/
theorem tryEnqueue_cases {vecLength : Math.Vec3 → Binary32} {queue queue' : CommandQueue}
    {command : SequencedCommand} {how : Enqueued}
    (h : queue.tryEnqueue vecLength command = .ok (how, queue')) :
    queue.lastOffered < command.sequence ∧ malformed vecLength command.command = none ∧
      ((how = .queued ∧ queue.queued.length < kMaxQueuedCommands ∧
          queue' = { queue with
            lastOffered := command.sequence, queued := queue.queued ++ [command] }) ∨
        (how = .droppedOldest ∧ kMaxQueuedCommands ≤ queue.queued.length ∧
          queue' = { queue with
            lastOffered := command.sequence, queued := (queue.queued ++ [command]).tail })) := by
  unfold tryEnqueue validate at h
  by_cases hstale : command.sequence ≤ queue.lastOffered
  · rw [if_pos hstale] at h
    cases h
  · rw [if_neg hstale] at h
    refine ⟨UInt64.not_le.mp hstale, ?_⟩
    cases hform : malformed vecLength command.command with
    | some rejection => rw [hform] at h; cases h
    | none =>
        rw [hform] at h
        refine ⟨rfl, ?_⟩
        simp only at h
        split_ifs at h with hfull
        · cases h
          rw [List.length_append, List.length_singleton] at hfull
          exact .inr ⟨rfl, by omega, rfl⟩
        · cases h
          rw [List.length_append, List.length_singleton] at hfull
          exact .inl ⟨rfl, by omega, rfl⟩

/-- A well-formed Command newer than any offered is taken in. -/
theorem tryEnqueue_newer {vecLength : Math.Vec3 → Binary32} {queue : CommandQueue}
    {command : SequencedCommand} (hnewer : queue.lastOffered < command.sequence)
    (hform : malformed vecLength command.command = none) :
    ∃ how queue', queue.tryEnqueue vecLength command = .ok (how, queue') := by
  rw [tryEnqueue, validate, if_neg (UInt64.not_le.mpr hnewer), hform]
  simp only
  split_ifs <;> exact ⟨_, _, rfl⟩

/-- The oldest queued Command is handed out, if any is. -/
theorem next_cons {queue : CommandQueue} {first : SequencedCommand}
    {rest : List SequencedCommand} (h : queue.queued = first :: rest) :
    queue.next =
      ({ command := first.command, acknowledgedSequence := first.sequence, sent := true },
        { queue with
          queued := rest, last := some first.command, heldTicks := 0,
          acknowledged := first.sequence }) := by
  rw [next, h]

/-- With none queued, nothing the client sent is handed out, and nothing it is told changes. -/
theorem next_nil {queue : CommandQueue} (h : queue.queued = []) :
    queue.next.1.sent = false ∧ queue.next.1.acknowledgedSequence = queue.acknowledged ∧
      queue.next.2.queued = [] ∧ queue.next.2.lastOffered = queue.lastOffered ∧
      queue.next.2.acknowledged = queue.acknowledged := by
  rw [next, h]
  cases hlast : queue.last with
  | none => exact ⟨rfl, rfl, h, rfl, rfl⟩
  | some last =>
      simp only
      split_ifs
      · exact ⟨rfl, rfl, rfl, rfl, rfl⟩
      · exact ⟨rfl, rfl, h, rfl, rfl⟩

end CommandQueue
end Augusta.Host
