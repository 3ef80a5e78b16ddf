import Augusta.Harness.CommandStream
import Augusta.Host.CommandQueue
import Augusta.Lib.Run

/-! The passage of one client's Commands to its server, over a network that loses, doubles, delays
    and reorders both ways.

      CommandStream ──sent──▶ ≈ network ≈ ──arrive──▶ CommandQueue ──handed──▶ World
            ▲                                               │
            └── Inbox ◀──hear── ≈ network ≈ ◀──published────┘   (acknowledged sequence)

    A message stays in flight forever, so it may arrive at any time, any number of times, or never. -/

namespace Augusta.Harness
open Lib (Binary32)
open Link

/-- A message as it was sent, and how many Commands had been queued when the Match it is of was
    started over in. -/
structure Sending where
  since : ℕ
  commands : List SequencedCommand
  deriving DecidableEq

structure Passage where
  inbox : Inbox
  stream : CommandStream := {}
  commands : Host.CommandQueue
  /-- The Commands the client queued, oldest first. -/
  queued : List SequencedCommand := []
  since : ℕ := 0
  sent : List Sending := []
  /-- Which messages arrived, in the order they did. -/
  arrivals : List ℕ := []
  /-- How many Commands the server's queue dropped to make room. -/
  dropped : ℕ := 0
  /-- The Commands handed to the World as sent. -/
  handed : List SequencedCommand := []
  /-- The states sent to the client. -/
  published : List AuthoritativeState := []
  /-- The acknowledged sequence in the view after each message heard since it last held none. -/
  heard : List Sequence := []

/-- A client and its server, neither of which has anything of the other's Match yet. -/
def Passage.start (inbox : Inbox) (tickRateHz : UInt8) : Passage where
  inbox := { inbox with view := forgetStates inbox.view }
  commands := .new tickRateHz

inductive Event
  /-- The client ticks a Command. -/
  | clientTick (command : Command)
  /-- The message of this number arrives. -/
  | arrive (message : ℕ)
  /-- The server ticks, and sends its client this state of it. -/
  | serverTick (state : AuthoritativeState)
  /-- The client hears a message. -/
  | hear (message : ServerMessage)

/-- What `HandleCommands` does with each Command of a message. -/
def offer (vecLength : Math.Vec3 → Binary32) (taken : Host.CommandQueue × ℕ)
    (command : SequencedCommand) : Host.CommandQueue × ℕ :=
  match taken.1.tryEnqueue vecLength command with
  | .error _ => taken
  | .ok (.queued, commands) => (commands, taken.2)
  | .ok (.droppedOldest, commands) => (commands, taken.2 + 1)

namespace Passage

def clientTick (p : Passage) (command : Command) : Passage :=
  if ¬ p.inbox.view.inMatch then p
  else
    let ticked := p.stream.tick p.inbox.view command
    let since := if p.stream.startedMatch ≠ p.inbox.view.matchesStarted then p.queued.length
      else p.since
    { p with
      stream := ticked.2
      since
      queued := p.queued ++ [⟨p.stream.nextSequence, CommandStream.queuedCommand p.inbox.view command⟩]
      sent := p.sent ++ [⟨since, ticked.1⟩] }

/-- The message travels encoded, and is decoded to its Commands as they arrive. -/
def arrive (vecLength : Math.Vec3 → Binary32) (p : Passage) (message : ℕ) (sending : Sending) :
    Passage :=
  let received := commandsFromWire (commandsToWire sending.commands).snapped
  let taken := received.foldl (offer vecLength) (p.commands, p.dropped)
  { p with commands := taken.1, dropped := taken.2, arrivals := p.arrivals ++ [message] }

def serverTick (p : Passage) (state : AuthoritativeState) : Passage :=
  let given := p.commands.next.1
  let commands := p.commands.next.2
  { p with
    commands
    handed := p.handed ++ if given.sent then [⟨given.acknowledgedSequence, given.command⟩] else []
    published := p.published ++
      [{ state with
        acknowledgedSequence := given.acknowledgedSequence
        queuedCommands := UInt8.ofNat commands.queued.length }] }

def hear (p : Passage) (message : ServerMessage) : Passage :=
  let inbox := p.inbox.receive message
  { p with
    inbox
    heard := match inbox.view.authoritative with
      | none => []
      | some state => p.heard ++ [state.acknowledgedSequence] }

/-- Whether `message` may be heard: a state only if the server sent it. -/
def audible (p : Passage) : ServerMessage → Bool
  | .authoritativeState state => state ∈ p.published
  | _ => true

/-- What an event makes of the passage; none where it cannot happen. A message arrives once it was
    sent, the server's ticks grow, and a state is heard once it was published. -/
def step (vecLength : Math.Vec3 → Binary32) (p : Passage) : Event → Option Passage
  | .clientTick command => some (p.clientTick command)
  | .arrive message => (p.sent[message]?).map (p.arrive vecLength message)
  | .serverTick state =>
      if p.published.all fun earlier => earlier.tick < state.tick then some (p.serverTick state)
      else none
  | .hear message => if p.audible message then some (p.hear message) else none

def run (vecLength : Math.Vec3 → Binary32) (p : Passage) (events : List Event) : Option Passage :=
  Lib.run (step vecLength) p events

end Passage

/-! ### What the client's view makes of a message -/

/-- A message leaves the state held as it is, or forgets it, or is a newer state. -/
theorem receive_authoritative (inbox : Inbox) (message : ServerMessage) :
    (inbox.receive message).view.authoritative = inbox.view.authoritative ∨
      (inbox.receive message).view.authoritative = none ∨
      ∃ state, message = .authoritativeState state ∧
        (inbox.receive message).view.authoritative = some state ∧
        Inbox.isNews inbox.view state = true := by
  cases message with
  | admission accepted =>
      left
      simp only [Inbox.receive, Inbox.onJoinAccepted]
      split_ifs
      · split <;> rfl
      · rfl
  | matchStart start =>
      simp only [Inbox.receive, Inbox.onMatchStart]
      split_ifs
      · exact .inr (.inl rfl)
      · exact .inl rfl
  | matchEnd ended => exact .inr (.inl rfl)
  | authoritativeState state =>
      simp only [Inbox.receive, Inbox.onAuthoritativeState]
      cases inbox.inProgress with
      | none => exact .inl rfl
      | some start =>
          simp only
          split_ifs with hbodies hnews
          · exact .inr (.inr ⟨state, rfl, rfl, hnews⟩)
          · exact .inl rfl
          · exact .inl rfl
  | shot shot =>
      left
      simp only [Inbox.receive, Inbox.onShot]
      cases inbox.inProgress with
      | none => rfl
      | some start => simp only; split_ifs <;> rfl
  | hitConfirmation hit =>
      left
      simp only [Inbox.receive, Inbox.onHitConfirmation]
      cases inbox.inProgress with
      | none => rfl
      | some start => simp only; split_ifs <;> rfl
  | death death =>
      left
      simp only [Inbox.receive, Inbox.onDeath]
      cases inbox.inProgress with
      | none => rfl
      | some start => simp only; split_ifs <;> rfl
  | shotJudgement judgement =>
      left
      simp only [Inbox.receive, Inbox.onShotJudgement]
      split_ifs <;> rfl
  | joinRefusal reason => exact .inl rfl
  | lobby lobby => exact .inl rfl
  | replayList listings => exact .inl rfl

/-! ### What a Command handed out is -/

/-- `command` is a Command of a message the client sent, as it arrives in that message. -/
def Origin (sent : List Sending) (command : SequencedCommand) : Prop :=
  ∃ sending ∈ sent, command ∈ arrivedAll sending.commands

/-- No sequence yet, or one the client gave a Command. -/
def Given (queued : List SequencedCommand) (sequence : Sequence) : Prop :=
  sequence = 0 ∨ ∃ command ∈ queued, command.sequence = sequence

/-- What the server's queue holds, and has handed out: Commands the client sent, in the order of
    their sequences, none newer than any offered. -/
structure InStep (sent : List Sending) (handed : List SequencedCommand)
    (commands : Host.CommandQueue) : Prop where
  origin : ∀ command ∈ handed ++ commands.queued, Origin sent command
  ordered : (handed ++ commands.queued).Pairwise fun a b => a.sequence < b.sequence
  offered : ∀ command ∈ handed ++ commands.queued, command.sequence ≤ commands.lastOffered
  acknowledged : commands.acknowledged = ((handed.getLast?).map (·.sequence)).getD 0

structure Sound (p : Passage) : Prop where
  unacknowledged : ∀ command ∈ p.stream.unacknowledged, command ∈ p.queued
  sent : ∀ sending ∈ p.sent, sending.commands.length ≤ Protocol.kMaxCommandsPerMessage ∧
    ∀ command ∈ sending.commands, command ∈ p.queued
  known : ∀ message ∈ p.arrivals, message < p.sent.length
  inStep : InStep p.sent p.handed p.commands
  published : p.published.Pairwise fun a b =>
    a.tick < b.tick ∧ a.acknowledgedSequence ≤ b.acknowledgedSequence
  behind : ∀ state ∈ p.published, state.acknowledgedSequence ≤ p.commands.acknowledged ∧
    Given p.queued state.acknowledgedSequence
  held : ∀ state, p.inbox.view.authoritative = some state → state ∈ p.published ∧
    ∀ sequence ∈ p.heard, sequence ≤ state.acknowledgedSequence
  forgotten : p.inbox.view.authoritative = none → p.heard = []
  heard : p.heard.Pairwise (· ≤ ·)
  given : ∀ sequence ∈ p.heard, Given p.queued sequence

theorem sound_start (inbox : Inbox) (tickRateHz : UInt8) :
    Sound (Passage.start inbox tickRateHz) where
  unacknowledged := by rintro command ⟨⟩
  sent := by rintro sending ⟨⟩
  known := by rintro message ⟨⟩
  inStep :=
    { origin := by rintro command ⟨⟩
      ordered := .nil
      offered := by rintro command ⟨⟩
      acknowledged := rfl }
  published := .nil
  behind := by rintro state ⟨⟩
  held := by rintro state ⟨⟩
  forgotten := fun _ => rfl
  heard := .nil
  given := by rintro sequence ⟨⟩

theorem Given.mono {queued more : List SequencedCommand} {sequence : Sequence}
    (h : Given queued sequence) : Given (queued ++ more) sequence := by
  rcases h with h | ⟨command, hmem, h⟩
  · exact .inl h
  · exact .inr ⟨command, List.mem_append_left _ hmem, h⟩

theorem Origin.mono {sent more : List Sending} {command : SequencedCommand}
    (h : Origin sent command) : Origin (sent ++ more) command := by
  obtain ⟨sending, hmem, h⟩ := h
  exact ⟨sending, List.mem_append_left _ hmem, h⟩

/-- A Command arrives under the sequence it was given. -/
theorem Origin.given {p : Passage} (h : Sound p) {command : SequencedCommand}
    (horigin : Origin p.sent command) : Given p.queued command.sequence := by
  obtain ⟨sending, hmem, harrived⟩ := horigin
  obtain ⟨source, hsource, rfl⟩ := List.mem_map.mp harrived
  exact .inr ⟨source, (h.sent sending hmem).2 source hsource, rfl⟩

/-- What is acknowledged is the last sequence handed out. -/
theorem Sound.given_acknowledged {p : Passage} (h : Sound p) :
    Given p.queued p.commands.acknowledged := by
  rw [h.inStep.acknowledged]
  cases hlast : p.handed.getLast? with
  | none => exact .inl rfl
  | some last =>
      exact Origin.given h
        (h.inStep.origin last (List.mem_append_left _ (List.mem_of_getLast? hlast)))

/-! ### The client's tick -/

namespace CommandStream

/-- A tick keeps what it sends: Commands it had kept, and its own. -/
theorem mem_queue {stream : CommandStream} {view : ServerView} {sequence : Sequence}
    {command : Command} {kept : SequencedCommand}
    (h : kept ∈ (stream.queue view sequence command).1) :
    kept ∈ stream.unacknowledged ∨ kept = ⟨sequence, command⟩ := by
  rcases List.mem_append.mp (List.mem_of_mem_drop h) with hkept | hnew
  · left
    revert hkept
    split
    · exact fun hkept => (List.mem_filter.mp hkept).1
    · exact id
  · exact .inr (List.mem_singleton.mp hnew)

theorem mem_startOver {stream : CommandStream} {view : ServerView} {kept : SequencedCommand}
    (h : kept ∈ (stream.startOver view).unacknowledged) : kept ∈ stream.unacknowledged := by
  unfold startOver at h
  split_ifs at h
  · cases h
  · exact h

@[simp] theorem startOver_nextSequence (stream : CommandStream) (view : ServerView) :
    (stream.startOver view).nextSequence = stream.nextSequence := by
  unfold startOver
  split_ifs <;> rfl

theorem tick_inMatch {stream : CommandStream} {view : ServerView} (command : Command)
    (h : view.inMatch = true) :
    stream.tick view command =
      { stream.startOver view with nextSequence := stream.nextSequence + 1 }.queue view
        stream.nextSequence (queuedCommand view command) := by
  rw [tick, if_neg (not_not_intro h)]
  simp only [startOver_nextSequence]

/-- What a tick in a match sends. -/
theorem mem_tick {stream : CommandStream} {view : ServerView} {command : Command}
    (h : view.inMatch = true) {kept : SequencedCommand}
    (hkept : kept ∈ (stream.tick view command).1) :
    kept ∈ stream.unacknowledged ∨ kept = ⟨stream.nextSequence, queuedCommand view command⟩ := by
  rw [tick_inMatch command h] at hkept
  exact (mem_queue hkept).imp_left mem_startOver

end CommandStream

theorem sound_clientTick {p : Passage} (h : Sound p) (command : Command) :
    Sound (p.clientTick command) := by
  by_cases hin : p.inbox.view.inMatch = true
  · rw [Passage.clientTick, if_neg (not_not_intro hin)]
    have hsend : ∀ kept ∈ (p.stream.tick p.inbox.view command).1, kept ∈ p.queued ++
        [⟨p.stream.nextSequence, CommandStream.queuedCommand p.inbox.view command⟩] := by
      intro kept hkept
      rcases CommandStream.mem_tick hin hkept with hold | rfl
      · exact List.mem_append_left _ (h.unacknowledged kept hold)
      · exact List.mem_append_right _ List.mem_cons_self
    have hkeeps : (p.stream.tick p.inbox.view command).2.unacknowledged =
        (p.stream.tick p.inbox.view command).1 := by
      rw [CommandStream.tick_inMatch command hin]
      rfl
    have hlength : (p.stream.tick p.inbox.view command).1.length ≤
        Protocol.kMaxCommandsPerMessage := by
      rw [CommandStream.tick_inMatch command hin]
      exact length_carried_le _
    exact
      { unacknowledged := fun kept hkept => hsend kept (hkeeps ▸ hkept)
        sent := by
          intro sending hmem
          rcases List.mem_append.mp hmem with hold | hnew
          · obtain ⟨hold, hqueued⟩ := h.sent sending hold
            exact ⟨hold, fun kept hkept => List.mem_append_left _ (hqueued kept hkept)⟩
          · rw [List.mem_singleton.mp hnew]
            exact ⟨hlength, hsend⟩
        known := fun message hmem => by
          have := h.known message hmem
          rw [List.length_append]
          omega
        inStep :=
          { h.inStep with origin := fun kept hkept => (h.inStep.origin kept hkept).mono }
        published := h.published
        behind := fun state hstate => ⟨(h.behind state hstate).1, (h.behind state hstate).2.mono⟩
        held := h.held
        forgotten := h.forgotten
        heard := h.heard
        given := fun sequence hheard => (h.given sequence hheard).mono }
  · rw [Passage.clientTick, if_pos hin]
    exact h

/-! ### A message's arrival -/

theorem offer_cases (vecLength : Math.Vec3 → Binary32) (taken : Host.CommandQueue × ℕ)
    (command : SequencedCommand) :
    (offer vecLength taken command = taken ∧
        (command.sequence ≤ taken.1.lastOffered ∨
          Host.malformed vecLength command.command ≠ none)) ∨
      (taken.1.lastOffered < command.sequence ∧
        ((taken.1.queued.length < Host.kMaxQueuedCommands ∧
          offer vecLength taken command = ({ taken.1 with
            lastOffered := command.sequence, queued := taken.1.queued ++ [command] }, taken.2)) ∨
          (offer vecLength taken command = ({ taken.1 with
            lastOffered := command.sequence,
            queued := (taken.1.queued ++ [command]).tail }, taken.2 + 1)))) := by
  unfold offer
  cases hoffer : taken.1.tryEnqueue vecLength command with
  | error rejection =>
      refine .inl ⟨rfl, ?_⟩
      by_contra hboth
      obtain ⟨hnewer, hform⟩ := not_or.mp hboth
      obtain ⟨how, queue', htaken⟩ := Host.CommandQueue.tryEnqueue_newer
        (UInt64.not_le.mp hnewer) (not_not.mp hform)
      rw [htaken] at hoffer
      cases hoffer
  | ok result =>
      obtain ⟨how, queue'⟩ := result
      obtain ⟨hnewer, -, hcases⟩ := Host.CommandQueue.tryEnqueue_cases hoffer
      refine .inr ⟨hnewer, ?_⟩
      rcases hcases with ⟨rfl, hroom, rfl⟩ | ⟨rfl, -, rfl⟩
      · exact .inl ⟨hroom, rfl⟩
      · exact .inr rfl

section
variable {vecLength : Math.Vec3 → Binary32} {sent : List Sending} {handed : List SequencedCommand}

/-- A newer Command queued last, and the oldest maybe gone for it. -/
theorem InStep.push {commands : Host.CommandQueue} (h : InStep sent handed commands)
    {command : SequencedCommand} (horigin : Origin sent command)
    (hnewer : commands.lastOffered < command.sequence) {kept : List SequencedCommand}
    (hkept : kept.Sublist (commands.queued ++ [command])) :
    InStep sent handed { commands with lastOffered := command.sequence, queued := kept } := by
  have hall : (handed ++ kept).Sublist ((handed ++ commands.queued) ++ [command]) := by
    rw [List.append_assoc]
    exact (List.Sublist.refl handed).append hkept
  refine ⟨fun other hother => ?_, ?_, fun other hother => ?_, h.acknowledged⟩
  · rcases List.mem_append.mp (hall.subset hother) with hold | hnew
    · exact h.origin other hold
    · rw [List.mem_singleton.mp hnew]
      exact horigin
  · refine List.Pairwise.sublist hall (List.pairwise_append.mpr ⟨h.ordered, ?_, ?_⟩)
    · exact List.pairwise_singleton _ _
    · intro other hold last hlast
      rw [List.mem_singleton.mp hlast]
      exact UInt64.lt_of_le_of_lt (h.offered other hold) hnewer
  · rcases List.mem_append.mp (hall.subset hother) with hold | hnew
    · exact UInt64.le_of_lt (UInt64.lt_of_le_of_lt (h.offered other hold) hnewer)
    · rw [List.mem_singleton.mp hnew]
      exact UInt64.le_refl _

theorem InStep.offer {taken : Host.CommandQueue × ℕ} (h : InStep sent handed taken.1)
    {command : SequencedCommand} (horigin : Origin sent command) :
    InStep sent handed (offer vecLength taken command).1 := by
  rcases offer_cases vecLength taken command with ⟨hsame, -⟩ | ⟨hnewer, ⟨-, hqueued⟩ | hdropped⟩
  · rw [hsame]
    exact h
  · rw [hqueued]
    exact h.push horigin hnewer (List.Sublist.refl _)
  · rw [hdropped]
    exact h.push horigin hnewer (List.tail_sublist _)

theorem InStep.offers {received : List SequencedCommand} (hreceived : ∀ c ∈ received, Origin sent c) :
    ∀ {taken : Host.CommandQueue × ℕ}, InStep sent handed taken.1 →
      InStep sent handed (received.foldl (Harness.offer vecLength) taken).1 := by
  induction received with
  | nil => exact fun h => h
  | cons command rest ih =>
      intro taken h
      exact ih (fun c hc => hreceived c (List.mem_cons_of_mem _ hc))
        (h.offer (hreceived command List.mem_cons_self))

theorem offer_acknowledged (taken : Host.CommandQueue × ℕ) (command : SequencedCommand) :
    (Harness.offer vecLength taken command).1.acknowledged = taken.1.acknowledged := by
  rcases offer_cases vecLength taken command with ⟨hsame, -⟩ | ⟨-, ⟨-, hqueued⟩ | hdropped⟩
  · rw [hsame]
  · rw [hqueued]
  · rw [hdropped]

theorem offers_acknowledged (received : List SequencedCommand) (taken : Host.CommandQueue × ℕ) :
    (received.foldl (Harness.offer vecLength) taken).1.acknowledged = taken.1.acknowledged := by
  induction received generalizing taken with
  | nil => rfl
  | cons command rest ih => exact (ih _).trans (offer_acknowledged taken command)

end

/-- A message of few enough Commands carries all of them. -/
theorem received_eq {sending : Sending}
    (h : sending.commands.length ≤ Protocol.kMaxCommandsPerMessage) :
    commandsFromWire (commandsToWire sending.commands).snapped = arrivedAll sending.commands := by
  rw [commandsFromWire_toWire, carried, Nat.sub_eq_zero_of_le h, List.drop_zero]

theorem sound_arrive {p : Passage} (h : Sound p) (vecLength : Math.Vec3 → Binary32)
    {message : ℕ} {sending : Sending} (hsent : p.sent[message]? = some sending) :
    Sound (p.arrive vecLength message sending) := by
  have hmem := List.mem_of_getElem? hsent
  have hreceived := received_eq (h.sent sending hmem).1
  unfold Passage.arrive
  rw [hreceived]
  exact
    { h with
      known := by
        intro other hother
        rcases List.mem_append.mp hother with hold | hnew
        · exact h.known other hold
        · rw [List.mem_singleton.mp hnew]
          exact (List.getElem?_eq_some_iff.mp hsent).1
      inStep := h.inStep.offers fun command hcommand => ⟨sending, hmem, hcommand⟩
      behind := fun state hstate => by
        rw [offers_acknowledged]
        exact h.behind state hstate }

/-! ### The server's tick -/

theorem InStep.next {sent : List Sending} {handed : List SequencedCommand}
    {commands : Host.CommandQueue} (h : InStep sent handed commands) :
    let given := commands.next.1
    let handed' := handed ++ if given.sent then [⟨given.acknowledgedSequence, given.command⟩] else []
    InStep sent handed' commands.next.2 ∧
      handed' ++ commands.next.2.queued = handed ++ commands.queued ∧
      given.acknowledgedSequence = commands.next.2.acknowledged ∧
      commands.acknowledged ≤ commands.next.2.acknowledged := by
  cases hqueued : commands.queued with
  | nil =>
      obtain ⟨hsent, hack, hempty, hoffered, hkept⟩ := Host.CommandQueue.next_nil hqueued
      have hsame : handed ++ commands.next.2.queued = handed ++ commands.queued := by
        rw [hempty, hqueued]
      simp only [hsent, Bool.false_eq_true, if_false, List.append_nil, hack, hkept]
      refine ⟨⟨?_, ?_, ?_, ?_⟩, by rw [hempty, List.append_nil], trivial, UInt64.le_refl _⟩
      · rw [hsame]; exact h.origin
      · rw [hsame]; exact h.ordered
      · rw [hsame, hoffered]; exact h.offered
      · rw [hkept]; exact h.acknowledged
  | cons first rest =>
      have hsame : handed ++ [first] ++ rest = handed ++ commands.queued := by
        rw [hqueued, List.append_assoc, List.singleton_append]
      rw [Host.CommandQueue.next_cons hqueued]
      simp only [if_true]
      refine ⟨⟨?_, ?_, ?_, ?_⟩, by rw [List.append_assoc, List.singleton_append], trivial, ?_⟩
      · rw [hsame]; exact h.origin
      · rw [hsame]; exact h.ordered
      · rw [hsame]; exact h.offered
      · rw [List.getLast?_concat]; rfl
      · rw [h.acknowledged]
        cases hlast : handed.getLast? with
        | none => exact UInt64.le_iff_toNat_le.mpr (Nat.zero_le _)
        | some last =>
            have hordered := List.pairwise_append.mp h.ordered
            exact UInt64.le_of_lt (hordered.2.2 last (List.mem_of_getLast? hlast) first
              (by rw [hqueued]; exact List.mem_cons_self))

theorem sound_serverTick {p : Passage} (h : Sound p) {state : AuthoritativeState}
    (hnewer : ∀ earlier ∈ p.published, earlier.tick < state.tick) : Sound (p.serverTick state) := by
  obtain ⟨hinStep, -, hack, hgrows⟩ := h.inStep.next
  have hgiven : Given p.queued p.commands.next.2.acknowledged := by
    have hp : Sound { p with
        commands := p.commands.next.2
        handed := p.handed ++ if p.commands.next.1.sent then
          [⟨p.commands.next.1.acknowledgedSequence, p.commands.next.1.command⟩] else [] } :=
      { h with
        inStep := hinStep
        behind := fun earlier hearlier =>
          ⟨UInt64.le_trans (h.behind earlier hearlier).1 hgrows, (h.behind earlier hearlier).2⟩ }
    exact hp.given_acknowledged
  exact
    { unacknowledged := h.unacknowledged
      sent := h.sent
      known := h.known
      inStep := hinStep
      published := by
        refine List.pairwise_append.mpr ⟨h.published, List.pairwise_singleton _ _, ?_⟩
        intro earlier hearlier last hlast
        rw [List.mem_singleton.mp hlast]
        refine ⟨hnewer earlier hearlier, ?_⟩
        exact UInt64.le_trans (h.behind earlier hearlier).1 (hack ▸ hgrows)
      behind := by
        intro other hother
        rcases List.mem_append.mp hother with hold | hnew
        · exact ⟨UInt64.le_trans (h.behind other hold).1 hgrows, (h.behind other hold).2⟩
        · rw [List.mem_singleton.mp hnew]
          exact ⟨hack ▸ UInt64.le_refl _, hack ▸ hgiven⟩
      held := fun held hheld =>
        ⟨List.mem_append_left _ (h.held held hheld).1, (h.held held hheld).2⟩
      forgotten := h.forgotten
      heard := h.heard
      given := h.given }

/-! ### What the client hears -/

/-- Of two states the server sent, the newer acknowledges no less. -/
theorem acknowledged_of_newer {published : List AuthoritativeState}
    (h : published.Pairwise fun a b =>
      a.tick < b.tick ∧ a.acknowledgedSequence ≤ b.acknowledgedSequence)
    {before after : AuthoritativeState} (hbefore : before ∈ published) (hafter : after ∈ published)
    (hnewer : before.tick < after.tick) :
    before.acknowledgedSequence ≤ after.acknowledgedSequence := by
  induction h with
  | nil => cases hbefore
  | @cons first rest hfirst _ ih =>
      rcases List.mem_cons.mp hbefore with rfl | hlater
      · rcases List.mem_cons.mp hafter with rfl | hlast
        · exact UInt64.le_refl _
        · exact (hfirst after hlast).2
      · rcases List.mem_cons.mp hafter with rfl | hlast
        · exact absurd hnewer (UInt64.lt_asymm (hfirst before hlater).1)
        · exact ih hlater hlast

theorem sound_hear {p : Passage} (h : Sound p) {message : ServerMessage}
    (haudible : p.audible message = true) : Sound (p.hear message) := by
  -- a state held after `message` was published, and acknowledges no less than any held before
  have hheld : ∀ state, (p.inbox.receive message).view.authoritative = some state →
      state ∈ p.published ∧ ∀ sequence ∈ p.heard, sequence ≤ state.acknowledgedSequence := by
    intro state hstate
    rcases receive_authoritative p.inbox message with hsame | hnone | ⟨news, rfl, hnews, hnewer⟩
    · exact h.held state (hsame ▸ hstate)
    · rw [hnone] at hstate
      cases hstate
    · rw [hnews] at hstate
      cases hstate
      have hpublished : state ∈ p.published := of_decide_eq_true haudible
      refine ⟨hpublished, fun sequence hsequence => ?_⟩
      cases hbefore : p.inbox.view.authoritative with
      | none =>
          rw [h.forgotten hbefore] at hsequence
          cases hsequence
      | some before =>
          obtain ⟨hmem, hle⟩ := h.held before hbefore
          rw [Inbox.isNews, hbefore] at hnewer
          refine UInt64.le_trans (hle sequence hsequence) ?_
          exact acknowledged_of_newer h.published hmem hpublished (of_decide_eq_true hnewer)
  cases hafter : (p.inbox.receive message).view.authoritative with
  | none =>
      exact
        { h with
          held := fun state hstate => absurd (hstate.symm.trans hafter) (Option.some_ne_none _)
          forgotten := fun _ => by simp only [Passage.hear, hafter]
          heard := by simp only [Passage.hear, hafter]; exact .nil
          given := by simp only [Passage.hear, hafter]; rintro sequence ⟨⟩ }
  | some after =>
      obtain ⟨hmem, hle⟩ := hheld after hafter
      have hlog : (p.hear message).heard = p.heard ++ [after.acknowledgedSequence] := by
        simp only [Passage.hear, hafter]
      exact
        { h with
          held := by
            intro state hstate
            rw [hlog]
            cases hafter.symm.trans hstate
            refine ⟨hmem, fun sequence hsequence => ?_⟩
            rcases List.mem_append.mp hsequence with hold | hnew
            · exact hle sequence hold
            · rw [List.mem_singleton.mp hnew]
              exact UInt64.le_refl _
          forgotten := fun hnone => absurd (hafter.symm.trans hnone) (Option.some_ne_none _)
          heard := by
            rw [hlog]
            refine List.pairwise_append.mpr ⟨h.heard, List.pairwise_singleton _ _, ?_⟩
            intro sequence hold last hlast
            rw [List.mem_singleton.mp hlast]
            exact hle sequence hold
          given := by
            rw [hlog]
            intro sequence hsequence
            rcases List.mem_append.mp hsequence with hold | hnew
            · exact h.given sequence hold
            · rw [List.mem_singleton.mp hnew]
              exact (h.behind after hmem).2 }

/-! ### Runs -/

theorem sound_step {vecLength : Math.Vec3 → Binary32} {p p' : Passage} {event : Event}
    (h : Sound p) (hstep : p.step vecLength event = some p') : Sound p' := by
  cases event with
  | clientTick command =>
      cases hstep
      exact sound_clientTick h command
  | arrive message =>
      obtain ⟨sending, hsent, rfl⟩ := Option.map_eq_some_iff.mp hstep
      exact sound_arrive h vecLength hsent
  | serverTick state =>
      rw [Passage.step] at hstep
      split_ifs at hstep with hnewer
      cases hstep
      exact sound_serverTick h fun earlier hearlier =>
        of_decide_eq_true (List.all_eq_true.mp hnewer earlier hearlier)
  | hear message =>
      rw [Passage.step] at hstep
      split_ifs at hstep with haudible
      cases hstep
      exact sound_hear h haudible

theorem sound_run {vecLength : Math.Vec3 → Binary32} {inbox : Inbox} {tickRateHz : UInt8}
    {events : List Event} {p : Passage}
    (hrun : (Passage.start inbox tickRateHz).run vecLength events = some p) : Sound p :=
  Lib.run.invariant sound_step (sound_start inbox tickRateHz) hrun

end Augusta.Harness
