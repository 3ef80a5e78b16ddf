import Augusta.Host.CommandQueue
import Mathlib.Data.List.Basic
import Mathlib.Data.List.Count
import Mathlib.Data.List.Induction
import Mathlib.Tactic.SplitIfs

/-! Runs of a CommandQueue: every Command offered it, and every tick's it hands out.

      accepted   1  2  3  4  5  6  7            in order, and each in one place:
                 └┬─┘  ✗  ✗  └──┬──┘
      handed    1  2            │               taken by a tick, sent
      dropped         3  4      │               the oldest of a full queue
      queued                 5  6  7            not yet taken -/

namespace Augusta.Host
open Link (SequencedCommand)

inductive QueueOp
  | tryEnqueue (command : SequencedCommand)
  | next
  deriving DecidableEq

/-- One Command that went to make room, and the queue it was in. -/
structure Drop where
  command : SequencedCommand
  queued : List SequencedCommand

/-- A queue, and all that it has taken in and handed out, oldest first. -/
structure QueueRun where
  queue : CommandQueue
  accepted : List SequencedCommand := []
  drops : List Drop := []
  ticks : List TickCommand := []

/-- The Commands handed out, each under the number it was sent by. -/
def sentOf (ticks : List TickCommand) : List SequencedCommand :=
  (ticks.filter (·.sent)).map fun tick => ⟨tick.acknowledgedSequence, tick.command⟩

/-- The number of the last of them, 0 if there is none. -/
def lastHanded (ticks : List TickCommand) : Sequence :=
  ((sentOf ticks).getLast?.map (·.sequence)).getD 0

/-- How many ticks have gone without one since. -/
def sinceSent (ticks : List TickCommand) : ℕ :=
  (ticks.reverse.takeWhile fun tick => !tick.sent).length

namespace QueueRun

def step (vecLength : Math.Vec3 → Lib.Binary32) (run : QueueRun) : QueueOp → QueueRun
  | .tryEnqueue command =>
      match run.queue.tryEnqueue vecLength command with
      | .error _ => run
      | .ok (.queued, queue) => { run with queue, accepted := run.accepted ++ [command] }
      | .ok (.droppedOldest, queue) =>
          { run with
            queue, accepted := run.accepted ++ [command]
            drops := run.drops ++ ((run.queue.queued ++ [command]).head?.map fun oldest =>
              ⟨oldest, run.queue.queued⟩).toList }
  | .next =>
      { run with queue := run.queue.next.2, ticks := run.ticks ++ [run.queue.next.1] }

/-- A run of a new queue. -/
def play (vecLength : Math.Vec3 → Lib.Binary32) (tickRateHz : UInt8) (ops : List QueueOp) : QueueRun :=
  ops.foldl (step vecLength) ⟨.new tickRateHz, [], [], []⟩

end QueueRun

/-- What a tick runs that no new Command came for, after those `before` it. -/
structure Fills (maxHeldTicks : ℕ) (before : List TickCommand) (tick : TickCommand) : Prop where
  idle : tick.command.fire = false ∧ tick.command.reload = false
  nothing : sentOf before = [] → tick.command = {}
  look : ∀ last ∈ (sentOf before).getLast?, tick.command.yaw = last.command.yaw ∧
    tick.command.pitch = last.command.pitch ∧ tick.command.ads = last.command.ads
  held : ∀ last ∈ (sentOf before).getLast?, sinceSent before < maxHeldTicks →
    tick.command.movement = last.command.movement
  stopped : ∀ last ∈ (sentOf before).getLast?, maxHeldTicks ≤ sinceSent before →
    tick.command.movement = { last.command.movement with direction := {}, sprint := false }

/-- What a tick is handed of a Command queued. -/
def handed (command : SequencedCommand) : TickCommand where
  command := command.command
  acknowledgedSequence := command.sequence
  sent := true

/-! ### One tick more -/

@[simp] theorem sentOf_concat (ticks : List TickCommand) (tick : TickCommand) :
    sentOf (ticks ++ [tick]) =
      sentOf ticks ++ if tick.sent then [⟨tick.acknowledgedSequence, tick.command⟩] else [] := by
  rw [sentOf, List.filter_append, List.map_append]
  cases hsent : tick.sent <;> simp [sentOf, hsent]

theorem sinceSent_sent {tick : TickCommand} (h : tick.sent = true) (ticks : List TickCommand) :
    sinceSent (ticks ++ [tick]) = 0 := by
  simp [sinceSent, h]

theorem sinceSent_unsent {tick : TickCommand} (h : tick.sent = false) (ticks : List TickCommand) :
    sinceSent (ticks ++ [tick]) = sinceSent ticks + 1 := by
  simp [sinceSent, h]

/-- A tick of a log with one more is an old one, or the new one after all the rest. -/
theorem concat_cases {ticks before after : List TickCommand} {tick new : TickCommand}
    (h : ticks ++ [new] = before ++ tick :: after) :
    (∃ rest, ticks = before ++ tick :: rest) ∨ (before = ticks ∧ tick = new) := by
  rcases List.eq_nil_or_concat' after with rfl | ⟨rest, last, rfl⟩
  · obtain ⟨hbefore, htick⟩ := List.append_inj' h rfl
    exact .inr ⟨hbefore.symm, (List.singleton_inj.mp htick).symm⟩
  · rw [← List.cons_append, ← List.append_assoc] at h
    exact .inl ⟨rest, (List.append_inj' h rfl).1⟩

/-! ### What every run keeps -/

structure QueueRun.Kept (most : ℕ) (run : QueueRun) : Prop where
  maxHeldTicks : run.queue.maxHeldTicks = most
  increasing : run.accepted.Pairwise fun a b => a.sequence < b.sequence
  numbered : ∀ command ∈ run.accepted,
    0 < command.sequence ∧ command.sequence ≤ run.queue.lastOffered
  inOrder : (sentOf run.ticks ++ run.queue.queued).Sublist run.accepted
  placed : run.accepted.Perm (sentOf run.ticks ++ run.queue.queued ++ run.drops.map (·.command))
  room : run.queue.queued.length ≤ kMaxQueuedCommands
  oldest : ∀ drop ∈ run.drops, drop.queued.length = kMaxQueuedCommands ∧
    drop.queued.head? = some drop.command
  acknowledged : run.queue.acknowledged = lastHanded run.ticks
  last : run.queue.last = (sentOf run.ticks).getLast?.map (·.command)
  heldTicks : run.queue.heldTicks =
    if sentOf run.ticks = [] then 0 else min most (sinceSent run.ticks)
  told : ∀ before tick after, run.ticks = before ++ tick :: after →
    tick.acknowledgedSequence = lastHanded (before ++ [tick])
  growing : run.ticks.Pairwise fun a b => a.acknowledgedSequence ≤ b.acknowledgedSequence
  reached : ∀ tick ∈ run.ticks, tick.acknowledgedSequence ≤ run.queue.acknowledged
  filled : ∀ before tick after, run.ticks = before ++ tick :: after → tick.sent = false →
    Fills most before tick

namespace QueueRun.Kept
variable {most : ℕ} {run : QueueRun}

theorem start (tickRateHz : UInt8) :
    QueueRun.Kept (Augusta.heldTicks tickRateHz) ⟨CommandQueue.new tickRateHz, [], [], []⟩ where
  maxHeldTicks := rfl
  increasing := List.Pairwise.nil
  numbered := fun _ h => (nomatch h)
  inOrder := List.Sublist.slnil
  placed := List.Perm.refl _
  room := Nat.zero_le _
  oldest := fun _ h => (nomatch h)
  acknowledged := rfl
  last := rfl
  heldTicks := rfl
  told := fun before _ _ h => by cases before <;> nomatch h
  growing := List.Pairwise.nil
  reached := fun _ h => (nomatch h)
  filled := fun before _ _ h => by cases before <;> nomatch h

/-- What the counters say of the Commands queued. -/
theorem queued_between (h : Kept most run) {command : SequencedCommand}
    (hmem : command ∈ run.queue.queued) :
    run.queue.acknowledged < command.sequence ∧ command.sequence ≤ run.queue.lastOffered := by
  have haccepted := h.numbered command (h.inOrder.subset (List.mem_append_right _ hmem))
  refine ⟨?_, haccepted.2⟩
  rw [h.acknowledged, lastHanded]
  rcases hlast : (sentOf run.ticks).getLast? with _ | last
  · exact haccepted.1
  · have hsorted := List.pairwise_append.mp (h.increasing.sublist h.inOrder)
    exact hsorted.2.2 last (List.mem_of_getLast? hlast) command hmem

/-- A Command taken in, before anything makes room for it. -/
theorem taken (h : Kept most run) {command : SequencedCommand}
    (hnewer : run.queue.lastOffered < command.sequence) :
    ((run.accepted ++ [command]).Pairwise fun a b => a.sequence < b.sequence) ∧
      (∀ taken ∈ run.accepted ++ [command],
        0 < taken.sequence ∧ taken.sequence ≤ command.sequence) ∧
      (sentOf run.ticks ++ (run.queue.queued ++ [command])).Sublist (run.accepted ++ [command]) ∧
      (run.accepted ++ [command]).Perm
        (sentOf run.ticks ++ (run.queue.queued ++ [command]) ++ run.drops.map (·.command)) := by
  refine ⟨List.pairwise_append.mpr ⟨h.increasing, List.pairwise_singleton _ _, ?_⟩, ?_, ?_, ?_⟩
  · intro earlier hearlier later hlater
    rw [List.mem_singleton.mp hlater]
    exact UInt64.lt_of_le_of_lt (h.numbered earlier hearlier).2 hnewer
  · intro taken hmem
    rcases List.mem_append.mp hmem with hold | hnew
    · have hbefore := h.numbered taken hold
      exact ⟨hbefore.1, UInt64.le_of_lt (UInt64.lt_of_le_of_lt hbefore.2 hnewer)⟩
    · rw [List.mem_singleton.mp hnew]
      exact ⟨UInt64.lt_of_le_of_lt UInt64.zero_le hnewer, UInt64.le_refl _⟩
  · rw [← List.append_assoc]
    exact h.inOrder.append (List.Sublist.refl _)
  · rw [List.perm_iff_count]
    intro counted
    have hplaced := h.placed.count_eq counted
    simp only [List.count_append] at hplaced ⊢
    omega

theorem tryEnqueue (h : Kept most run) (vecLength : Math.Vec3 → Lib.Binary32)
    (command : SequencedCommand) : Kept most (run.step vecLength (.tryEnqueue command)) := by
  rw [QueueRun.step]
  rcases htaken : run.queue.tryEnqueue vecLength command with _ | ⟨how, queue⟩
  · exact h
  obtain ⟨hnewer, -, hcases⟩ := CommandQueue.tryEnqueue_cases htaken
  obtain ⟨hincreasing, hnumbered, hinOrder, hplaced⟩ := h.taken hnewer
  rcases hcases with ⟨rfl, hroom, rfl⟩ | ⟨rfl, hfull, rfl⟩
  · exact
      { h with
        increasing := hincreasing, numbered := hnumbered, inOrder := hinOrder, placed := hplaced
        room := by
          rw [List.length_append, List.length_singleton]
          exact hroom }
  · -- the oldest goes: it moves from the queue to the drops
    obtain ⟨oldest, rest, hqueued⟩ := List.exists_cons_of_ne_nil
      (List.ne_nil_of_length_pos (Nat.lt_of_lt_of_le (by decide : 0 < kMaxQueuedCommands) hfull))
    have hlength : run.queue.queued.length = kMaxQueuedCommands := Nat.le_antisymm h.room hfull
    simp only [hqueued, List.cons_append, List.tail_cons, List.head?_cons, Option.map_some,
      Option.toList_some] at hinOrder hplaced hlength ⊢
    exact
      { h with
        increasing := hincreasing
        numbered := hnumbered
        inOrder := ((List.sublist_cons_self _ _).append_left _).trans hinOrder
        placed := by
          rw [List.perm_iff_count]
          intro counted
          have hcount := hplaced.count_eq counted
          simp only [List.map_append, List.map_cons, List.map_nil, List.count_append,
            List.count_cons, List.count_nil] at hcount ⊢
          omega
        room := by
          rw [List.length_append, List.length_singleton]
          exact Nat.le_of_eq hlength
        oldest := by
          intro drop hdrop
          rcases List.mem_append.mp hdrop with hold | hnew
          · exact h.oldest drop hold
          · rw [List.mem_singleton.mp hnew]
            exact ⟨hlength, rfl⟩ }

/-- A tick with none queued: what it runs, and what it leaves. -/
theorem fills_of_nil (h : Kept most run) (hqueued : run.queue.queued = []) :
    Fills most run.ticks run.queue.next.1 ∧
      run.queue.next.2.maxHeldTicks = run.queue.maxHeldTicks ∧
      run.queue.next.2.last = run.queue.last ∧
      run.queue.next.2.heldTicks =
        if sentOf run.ticks = [] then 0 else min most (sinceSent run.ticks + 1) := by
  have hticks := h.heldTicks
  have hlast := h.last
  rw [CommandQueue.next, hqueued]
  rcases hsent : (sentOf run.ticks).getLast? with _ | sent
  · have hnone : sentOf run.ticks = [] := List.getLast?_eq_none_iff.mp hsent
    rw [hsent] at hlast
    rw [if_pos hnone] at hticks
    simp only [hlast, Option.map_none]
    refine ⟨⟨⟨rfl, rfl⟩, fun _ => rfl, ?_, ?_, ?_⟩, trivial, trivial, ?_⟩
    · intro last hmem
      rw [hsent] at hmem
      cases hmem
    · intro last hmem
      rw [hsent] at hmem
      cases hmem
    · intro last hmem
      rw [hsent] at hmem
      cases hmem
    · rw [if_pos hnone]
      exact hticks
  · have hsome : sentOf run.ticks ≠ [] := by
      intro hnil
      rw [hnil] at hsent
      cases hsent
    rw [hsent] at hlast
    rw [if_neg hsome] at hticks ⊢
    simp only [hlast, Option.map_some, hticks, h.maxHeldTicks]
    have hcontent (command : Command) (hidle : command.fire = false ∧ command.reload = false)
        (hlook : command.yaw = sent.command.yaw ∧ command.pitch = sent.command.pitch ∧
          command.ads = sent.command.ads)
        (hheld : sinceSent run.ticks < most → command.movement = sent.command.movement)
        (hstopped : most ≤ sinceSent run.ticks → command.movement =
          { sent.command.movement with direction := {}, sprint := false }) {told : Sequence} :
        Fills most run.ticks ⟨command, told, false⟩ := by
      refine ⟨hidle, fun hnil => absurd hnil hsome, ?_, ?_, ?_⟩
      all_goals
        intro last hmem
        rw [hsent] at hmem
        obtain rfl := Option.some.inj hmem
      · exact hlook
      · exact hheld
      · exact hstopped
    split_ifs with hholds
    · have hfew : sinceSent run.ticks < most := by omega
      refine ⟨hcontent _ ?_ ?_ ?_ ?_, rfl, rfl, ?_⟩
      · exact ⟨rfl, rfl⟩
      · exact ⟨rfl, rfl, rfl⟩
      · exact fun _ => rfl
      · omega
      · simp only
        omega
    · have hmany : most ≤ sinceSent run.ticks := by omega
      refine ⟨hcontent _ ?_ ?_ ?_ ?_, h.maxHeldTicks, hlast, ?_⟩
      · exact ⟨rfl, rfl⟩
      · exact ⟨rfl, rfl, rfl⟩
      · omega
      · exact fun _ => rfl
      · rw [hticks]
        omega

/-- What goes into the log: the number told is the last handed out, and a tick without a new Command
    holds the last or stops. -/
theorem logged (h : Kept most run) (tick : TickCommand)
    (htold : tick.acknowledgedSequence = lastHanded (run.ticks ++ [tick]))
    (hgrows : run.queue.acknowledged ≤ tick.acknowledgedSequence)
    (hfills : tick.sent = false → Fills most run.ticks tick) :
    (∀ before tick' after, run.ticks ++ [tick] = before ++ tick' :: after →
        tick'.acknowledgedSequence = lastHanded (before ++ [tick'])) ∧
      ((run.ticks ++ [tick]).Pairwise fun a b =>
        a.acknowledgedSequence ≤ b.acknowledgedSequence) ∧
      (∀ tick' ∈ run.ticks ++ [tick], tick'.acknowledgedSequence ≤ tick.acknowledgedSequence) ∧
      ∀ before tick' after, run.ticks ++ [tick] = before ++ tick' :: after → tick'.sent = false →
        Fills most before tick' := by
  have hreached : ∀ old ∈ run.ticks, old.acknowledgedSequence ≤ tick.acknowledgedSequence :=
    fun old hold => UInt64.le_trans (h.reached old hold) hgrows
  refine ⟨?_, List.pairwise_append.mpr ⟨h.growing, List.pairwise_singleton _ _, ?_⟩, ?_, ?_⟩
  · intro before tick' after hsplit
    rcases concat_cases hsplit with ⟨rest, hold⟩ | ⟨rfl, rfl⟩
    · exact h.told before tick' rest hold
    · exact htold
  · intro old hold new hnew
    rw [List.mem_singleton.mp hnew]
    exact hreached old hold
  · intro tick' hmem
    rcases List.mem_append.mp hmem with hold | hnew
    · exact hreached tick' hold
    · rw [List.mem_singleton.mp hnew]
      exact UInt64.le_refl _
  · intro before tick' after hsplit hunsent
    rcases concat_cases hsplit with ⟨rest, hold⟩ | ⟨rfl, rfl⟩
    · exact h.filled before tick' rest hold hunsent
    · exact hfills hunsent

theorem next (h : Kept most run) (vecLength : Math.Vec3 → Lib.Binary32) :
    Kept most (run.step vecLength .next) := by
  rw [QueueRun.step]
  rcases hqueued : run.queue.queued with _ | ⟨first, rest⟩
  · -- none queued: the tick is not sent, and what the queue has handed out stays
    obtain ⟨hsent, hack, hnone, hoffered, hacknowledged⟩ := CommandQueue.next_nil hqueued
    have hsame : sentOf (run.ticks ++ [run.queue.next.1]) = sentOf run.ticks := by
      rw [sentOf_concat, hsent]
      exact List.append_nil _
    have hlast : lastHanded (run.ticks ++ [run.queue.next.1]) = lastHanded run.ticks := by
      rw [lastHanded, hsame, lastHanded]
    obtain ⟨hfills, hmost, hkept, hheld⟩ := h.fills_of_nil hqueued
    obtain ⟨htold, hgrowing, hreached, hfilled⟩ := h.logged run.queue.next.1
      (by rw [hack, h.acknowledged, hlast]) (by rw [hack]; exact UInt64.le_refl _) fun _ => hfills
    refine
      { h with
        maxHeldTicks := hmost.trans h.maxHeldTicks
        numbered := by rw [hoffered]; exact h.numbered
        inOrder := by rw [hsame, hnone]; exact hqueued ▸ h.inOrder
        placed := by rw [hsame, hnone]; exact hqueued ▸ h.placed
        room := by rw [hnone]; exact Nat.zero_le _
        acknowledged := by rw [hacknowledged, hlast]; exact h.acknowledged
        last := by rw [hsame, hkept]; exact h.last
        heldTicks := by rw [hsame, sinceSent_unsent hsent]; exact hheld
        told := htold, growing := hgrowing
        reached := by rw [hacknowledged, ← hack]; exact hreached
        filled := hfilled }
  · -- the oldest goes out
    rw [CommandQueue.next_cons hqueued]
    have hsame : sentOf (run.ticks ++ [⟨first.command, first.sequence, true⟩]) =
        sentOf run.ticks ++ [first] := sentOf_concat _ _
    have hlast : lastHanded (run.ticks ++ [⟨first.command, first.sequence, true⟩]) =
        first.sequence := by
      rw [lastHanded, hsame, List.getLast?_concat]
      rfl
    have hnewer : run.queue.acknowledged < first.sequence :=
      (h.queued_between (by rw [hqueued]; exact List.mem_cons_self)).1
    obtain ⟨htold, hgrowing, hreached, hfilled⟩ := h.logged
      ⟨first.command, first.sequence, true⟩ hlast.symm (UInt64.le_of_lt hnewer)
      fun hunsent => (nomatch hunsent)
    have hmoved : sentOf run.ticks ++ [first] ++ rest = sentOf run.ticks ++ run.queue.queued := by
      rw [hqueued, List.append_assoc, List.singleton_append]
    exact
      { h with
        inOrder := by rw [hsame, hmoved]; exact h.inOrder
        placed := by rw [hsame, hmoved]; exact h.placed
        room := by
          have hroom := h.room
          rw [hqueued, List.length_cons] at hroom
          exact Nat.le_of_succ_le hroom
        acknowledged := hlast.symm
        last := by rw [hsame, List.getLast?_concat]; rfl
        heldTicks := by
          rw [hsame, sinceSent_sent rfl, if_neg (List.append_ne_nil_of_right_ne_nil _ (by simp))]
          exact (Nat.min_zero _).symm
        told := htold, growing := hgrowing, reached := hreached, filled := hfilled }

end QueueRun.Kept

theorem QueueRun.kept_play (vecLength : Math.Vec3 → Lib.Binary32) (tickRateHz : UInt8)
    (ops : List QueueOp) :
    QueueRun.Kept (Augusta.heldTicks tickRateHz) (QueueRun.play vecLength tickRateHz ops) := by
  induction ops using List.reverseRecOn with
  | nil => exact Kept.start tickRateHz
  | append_singleton ops op ih =>
      rw [QueueRun.play, List.foldl_append, List.foldl_cons, List.foldl_nil]
      cases op with
      | tryEnqueue command => exact ih.tryEnqueue vecLength command
      | next => exact ih.next vecLength

/-- As many ticks as there are Commands queued hand each of them out, oldest first. -/
theorem QueueRun.next_replicate (vecLength : Math.Vec3 → Lib.Binary32) {n : ℕ} {run : QueueRun}
    (h : n ≤ run.queue.queued.length) :
    ((List.replicate n QueueOp.next).foldl (QueueRun.step vecLength) run).ticks =
        run.ticks ++ (run.queue.queued.take n).map handed ∧
      ((List.replicate n QueueOp.next).foldl (QueueRun.step vecLength) run).queue.queued =
        run.queue.queued.drop n := by
  induction n generalizing run with
  | zero => exact ⟨(List.append_nil _).symm, rfl⟩
  | succ n ih =>
      obtain ⟨first, rest, hqueued⟩ : ∃ first rest, run.queue.queued = first :: rest :=
        List.exists_cons_of_length_pos (by omega)
      have hnext := CommandQueue.next_cons hqueued
      obtain ⟨hticks, hleft⟩ := @ih (run.step vecLength .next) (by
        rw [hqueued, List.length_cons] at h
        rw [QueueRun.step, hnext]
        exact Nat.le_of_succ_le_succ h)
      rw [List.replicate_succ, List.foldl_cons, hticks, hleft, QueueRun.step, hnext, hqueued]
      exact ⟨List.append_assoc _ _ _, rfl⟩

/-- CORRECT: whatever is offered and however often a tick comes, the Commands queued are in order
    between the counters and no more than there is room for; each Command accepted is handed out
    once, in order, or went as the oldest of a full queue, or is still queued, and what is queued
    goes out over as many ticks as there are of it; every tick is told the last number handed out;
    and one that gets nothing new holds the last movement for just so many ticks, and neither fires
    nor reloads. -/
theorem queue_law (vecLength : Math.Vec3 → Lib.Binary32) (tickRateHz : UInt8) (ops : List QueueOp) :
    let run := QueueRun.play vecLength tickRateHz ops
    (run.queue.queued.Pairwise fun a b => a.sequence < b.sequence) ∧
    (∀ command ∈ run.queue.queued, run.queue.acknowledged < command.sequence ∧
      command.sequence ≤ run.queue.lastOffered) ∧
    run.queue.queued.length ≤ kMaxQueuedCommands ∧
    (run.accepted.Pairwise fun a b => a.sequence < b.sequence) ∧
    (sentOf run.ticks ++ run.queue.queued).Sublist run.accepted ∧
    run.accepted.Perm (sentOf run.ticks ++ run.queue.queued ++ run.drops.map (·.command)) ∧
    (∀ n ≤ run.queue.queued.length,
      let later := QueueRun.play vecLength tickRateHz (ops ++ List.replicate n .next)
      later.ticks = run.ticks ++ (run.queue.queued.take n).map handed ∧
        later.queue.queued = run.queue.queued.drop n) ∧
    (∀ drop ∈ run.drops, drop.queued.length = kMaxQueuedCommands ∧
      drop.queued.head? = some drop.command) ∧
    run.queue.acknowledged = lastHanded run.ticks ∧
    (run.ticks.Pairwise fun a b => a.acknowledgedSequence ≤ b.acknowledgedSequence) ∧
    ∀ before tick after, run.ticks = before ++ tick :: after →
      tick.acknowledgedSequence = lastHanded (before ++ [tick]) ∧
        (tick.sent = false → Fills (Augusta.heldTicks tickRateHz) before tick) := by
  intro run
  have hkept := QueueRun.kept_play vecLength tickRateHz ops
  have hsorted := List.pairwise_append.mp (hkept.increasing.sublist hkept.inOrder)
  refine ⟨hsorted.2.1, fun command hmem => hkept.queued_between hmem, hkept.room,
    hkept.increasing, hkept.inOrder, hkept.placed, fun n hn => ?_, hkept.oldest,
    hkept.acknowledged, hkept.growing, ?_⟩
  · simp only [QueueRun.play, List.foldl_append]
    exact QueueRun.next_replicate vecLength hn
  · intro before tick after hsplit
    exact ⟨hkept.told before tick after hsplit, hkept.filled before tick after hsplit⟩

/-- A Command to fire, a tick that takes it and one that goes without, then two Commands more. -/
def threeOps : List QueueOp :=
  [.tryEnqueue ⟨1, { fire := true }⟩, .next, .next, .tryEnqueue ⟨2, {}⟩,
    .tryEnqueue ⟨5, { reload := true }⟩]

theorem queue_law_three :
    let run := QueueRun.play (fun _ => .zero) 60 threeOps
    (QueueRun.play (fun _ => .zero) 60 (threeOps ++ [.next, .next])).ticks =
        run.ticks ++ [⟨{}, 2, true⟩, ⟨{ reload := true }, 5, true⟩] ∧
      Fills 6 [⟨{ fire := true }, 1, true⟩] ⟨{}, 1, false⟩ :=
  have hlaw := queue_law (fun _ => .zero) 60 threeOps
  ⟨(hlaw.2.2.2.2.2.2.1 2 (by decide)).1,
    (hlaw.2.2.2.2.2.2.2.2.2.2 [⟨{ fire := true }, 1, true⟩] ⟨{}, 1, false⟩ [] rfl).2 rfl⟩

end Augusta.Host
