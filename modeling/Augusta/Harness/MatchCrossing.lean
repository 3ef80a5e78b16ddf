import Augusta.Harness.CommandDelivery

/-! One client's Commands across the Matches of its connection.

      client    ── Match 1: c₁ c₂ c₃ ──┤          ├── Match 2: c₄ c₅ ──
                     ╲  ╲    ╲ late                    ╲
      server    ── Match 1: queue ──┤   pause   ├── Match 2: fresh queue ──
                                                     ▲ c₃ arrives before c₄

    The Match starts and ends travel in order, and none is lost; a message of Commands may be lost,
    doubled and delayed past any of them. -/

namespace Augusta.Harness
open Lib (Binary32)
open Link

/-- A message of Commands, and the Match the client sent it in. -/
structure MatchSending where
  name : SessionId
  commands : List SequencedCommand
  deriving DecidableEq

structure Crossing where
  session : SessionId
  tickRateHz : UInt8
  inbox : Inbox
  stream : CommandStream := {}
  /-- The Match starts and ends the server sent, and how many of them the client has heard. -/
  reliable : List ServerMessage := []
  heard : ℕ := 0
  /-- The Match the server has the client playing in. -/
  playing : Option SessionId := none
  commands : Host.CommandQueue
  /-- The Commands the client queued, each under the Match it was in. -/
  queued : List (SessionId × SequencedCommand) := []
  sent : List MatchSending := []
  /-- The Commands handed to the World as sent, each under the Match it ran in. -/
  handed : List (SessionId × SequencedCommand) := []
  /-- The acknowledged sequences the client is told, each under the Match it is told in. -/
  told : List (SessionId × Sequence) := []

/-- A client just admitted. -/
def Crossing.start (accepted : Admission) (tickRateHz : UInt8) : Crossing where
  session := accepted.session
  tickRateHz
  inbox := { view := { accepted := some accepted } }
  commands := .new tickRateHz

inductive CrossingEvent
  | startMatch (start : MatchStart)
  | endMatch (ended : MatchEnd)
  /-- The client ticks a Command. -/
  | clientTick (command : Command)
  /-- The message of this number arrives. -/
  | arrive (message : ℕ)
  /-- The server ticks. -/
  | serverTick
  /-- The client hears the next Match start or end. -/
  | hearNext
  /-- The client hears another message, a state of any Match among them. -/
  | hear (message : ServerMessage)

/-- The message an event brings the server, if it brings one. -/
def arrival : CrossingEvent → Option ℕ
  | .arrive message => some message
  | _ => none

/-- The Match starts among some messages. -/
def starts (messages : List ServerMessage) : List MatchStart :=
  messages.filterMap fun message =>
    match message with
    | .matchStart start => some start
    | _ => none

/-- Whether a message tells of the admission, or of a Match's start or end. -/
def ofConnection : ServerMessage → Bool
  | .admission _ | .matchStart _ | .matchEnd _ => true
  | _ => false

namespace Crossing

/-- `StartMatchIfReady`, of this client: its Commands start afresh. -/
def startMatch (p : Crossing) (start : MatchStart) : Crossing :=
  { p with
    playing := some start.name
    commands := .new p.tickRateHz
    reliable := p.reliable ++ [.matchStart start] }

def endMatch (p : Crossing) (ended : MatchEnd) : Crossing :=
  { p with playing := none, reliable := p.reliable ++ [.matchEnd ended] }

/-- The name of the Match the client was last told of. -/
def clientMatch (p : Crossing) : SessionId := (p.inbox.view.matchStart.map (·.name)).getD 0

def clientTick (p : Crossing) (command : Command) : Crossing :=
  if ¬ p.inbox.view.inMatch then p
  else
    let ticked := p.stream.tick p.inbox.view command
    { p with
      stream := ticked.2
      queued := p.queued ++ [(p.clientMatch,
        ⟨p.stream.nextSequence, CommandStream.queuedCommand p.inbox.view command⟩)]
      sent := p.sent ++ [⟨p.clientMatch, ticked.1⟩] }

/-- The Commands the server reads of a message. -/
def received (sending : MatchSending) : List SequencedCommand :=
  commandsFromWire (commandsToWire sending.commands).snapped

/-- `HandleCommands`: outside a Match nothing is taken in. -/
def arrive (vecLength : Math.Vec3 → Binary32) (p : Crossing) (sending : MatchSending) : Crossing :=
  if p.playing = none then p
  else { p with commands := ((received sending).foldl (offer vecLength) (p.commands, 0)).1 }

/-- A tick of the Match takes the client's next Command, and tells it how far it has got. -/
def serverTick (p : Crossing) (name : SessionId) : Crossing :=
  let given := p.commands.next.1
  { p with
    commands := p.commands.next.2
    handed := p.handed ++
      if given.sent then [(name, ⟨given.acknowledgedSequence, given.command⟩)] else []
    told := p.told ++ [(name, given.acknowledgedSequence)] }

/-- What an event makes of it; none where it cannot happen. A Match starts outside one, under a name
    of its own and with the client in it. -/
def step (vecLength : Math.Vec3 → Binary32) (p : Crossing) : CrossingEvent → Option Crossing
  | .startMatch start =>
      if p.playing = none ∧ sessionInMatch start p.session ∧
          start.name ∉ (starts p.reliable).map (·.name) then
        some (p.startMatch start)
      else none
  | .endMatch ended => if p.playing = none then none else some (p.endMatch ended)
  | .clientTick command => some (p.clientTick command)
  | .arrive message => (p.sent[message]?).map (p.arrive vecLength)
  | .serverTick => p.playing.map p.serverTick
  | .hearNext => (p.reliable[p.heard]?).map fun message =>
      { p with inbox := p.inbox.receive message, heard := p.heard + 1 }
  | .hear message =>
      if ofConnection message then none else some { p with inbox := p.inbox.receive message }

def run (vecLength : Math.Vec3 → Binary32) (p : Crossing) (events : List CrossingEvent) :
    Option Crossing :=
  Lib.run (step vecLength) p events

/-- A message of another Match is about to arrive with a Command the queue would take: well formed,
    and newer than any offered it. -/
def Late (vecLength : Math.Vec3 → Binary32) (p : Crossing) (message : ℕ) : Prop :=
  ∃ sending ∈ p.sent[message]?, ∃ name ∈ p.playing, sending.name ≠ name ∧
    ∃ command ∈ received sending, Host.validate vecLength command p.commands.lastOffered = none

instance (vecLength : Math.Vec3 → Binary32) (p : Crossing) (message : ℕ) :
    Decidable (p.Late vecLength message) := by
  unfold Late
  infer_instance

/-- No message is ever late. -/
def Punctual (vecLength : Math.Vec3 → Binary32) : Crossing → List CrossingEvent → Prop
  | _, [] => True
  | p, event :: rest =>
      (∀ message ∈ arrival event, ¬p.Late vecLength message) ∧
        ∀ q ∈ p.step vecLength event, q.Punctual vecLength rest

instance decidablePunctual (vecLength : Math.Vec3 → Binary32) :
    ∀ (p : Crossing) (events : List CrossingEvent), Decidable (p.Punctual vecLength events)
  | _, [] => isTrue trivial
  | p, event :: rest =>
      have := fun q : Crossing => decidablePunctual vecLength q rest
      inferInstanceAs (Decidable ((∀ message ∈ arrival event, ¬p.Late vecLength message) ∧
        ∀ q ∈ p.step vecLength event, q.Punctual vecLength rest))

end Crossing

/-! ### A Match's own -/

/-- A Command the client queued in the Match, as it arrives. -/
def Own (queued : List (SessionId × SequencedCommand)) (name : SessionId)
    (command : SequencedCommand) : Prop :=
  ∃ source newest, (name, source) ∈ queued ∧ command = ⟨source.sequence, arrived newest source.command⟩

/-- No sequence yet, or one the client queued in the Match. -/
def OwnSequence (queued : List (SessionId × SequencedCommand)) (name : SessionId)
    (sequence : Sequence) : Prop :=
  sequence = 0 ∨ ∃ source, (name, source) ∈ queued ∧ source.sequence = sequence

/-- What the claim of a run is: every Command run in a Match, and every sequence acknowledged in it,
    is of the Match. -/
structure Crossing.TakesItsOwn (p : Crossing) : Prop where
  handed : ∀ entry ∈ p.handed, Own p.queued entry.1 entry.2
  told : ∀ entry ∈ p.told, OwnSequence p.queued entry.1 entry.2

section
variable {queued more : List (SessionId × SequencedCommand)} {name : SessionId}

theorem Own.mono {command : SequencedCommand} (h : Own queued name command) :
    Own (queued ++ more) name command := by
  obtain ⟨source, newest, hmem, heq⟩ := h
  exact ⟨source, newest, List.mem_append_left _ hmem, heq⟩

theorem OwnSequence.mono {sequence : Sequence} (h : OwnSequence queued name sequence) :
    OwnSequence (queued ++ more) name sequence := by
  rcases h with hzero | ⟨source, hmem, heq⟩
  · exact .inl hzero
  · exact .inr ⟨source, List.mem_append_left _ hmem, heq⟩

theorem Own.sequence {command : SequencedCommand} (h : Own queued name command) :
    OwnSequence queued name command.sequence := by
  obtain ⟨source, newest, hmem, rfl⟩ := h
  exact .inr ⟨source, hmem, rfl⟩

end

/-! ### What the client has heard of the Matches -/

/-- Nothing but the admission and the Matches' starts and ends touches what the view says of them. -/
theorem receive_ofConnection (inbox : Inbox) {message : ServerMessage}
    (h : ofConnection message = false) :
    (inbox.receive message).viewer = inbox.viewer ∧
    (inbox.receive message).view.accepted = inbox.view.accepted ∧
    (inbox.receive message).view.matchStart = inbox.view.matchStart ∧
    (inbox.receive message).view.matchesStarted = inbox.view.matchesStarted ∧
    (inbox.receive message).view.inMatch = inbox.view.inMatch := by
  cases message with
  | admission | matchStart | matchEnd => cases h
  | joinRefusal | lobby | replayList => exact ⟨rfl, rfl, rfl, rfl, rfl⟩
  | authoritativeState state =>
      simp only [Inbox.receive, Inbox.onAuthoritativeState]
      split
      · exact ⟨rfl, rfl, rfl, rfl, rfl⟩
      · split_ifs <;> exact ⟨rfl, rfl, rfl, rfl, rfl⟩
  | shot shot =>
      simp only [Inbox.receive, Inbox.onShot]
      split
      · exact ⟨rfl, rfl, rfl, rfl, rfl⟩
      · split_ifs <;> exact ⟨rfl, rfl, rfl, rfl, rfl⟩
  | hitConfirmation hit =>
      simp only [Inbox.receive, Inbox.onHitConfirmation]
      split
      · exact ⟨rfl, rfl, rfl, rfl, rfl⟩
      · split_ifs <;> exact ⟨rfl, rfl, rfl, rfl, rfl⟩
  | death death =>
      simp only [Inbox.receive, Inbox.onDeath]
      split
      · exact ⟨rfl, rfl, rfl, rfl, rfl⟩
      · split_ifs <;> exact ⟨rfl, rfl, rfl, rfl, rfl⟩
  | shotJudgement judgement =>
      simp only [Inbox.receive, Inbox.onShotJudgement]
      split_ifs <;> exact ⟨rfl, rfl, rfl, rfl, rfl⟩

theorem starts_append (messages more : List ServerMessage) :
    starts (messages ++ more) = starts messages ++ starts more := List.filterMap_append

/-- What the client has been told of its Matches, of what its server has sent. -/
structure Crossing.Told (p : Crossing) : Prop where
  role : p.inbox.viewer = false
  accepted : ∃ accepted, p.inbox.view.accepted = some accepted ∧ accepted.session = p.session
  behind : p.heard ≤ p.reliable.length
  named : ∀ start ∈ starts p.reliable, sessionInMatch start p.session = true
  names : ((starts p.reliable).map (·.name)).Nodup
  connection : ∀ message ∈ p.reliable, (∃ start, message = .matchStart start) ∨
    ∃ ended, message = .matchEnd ended
  counted : p.inbox.view.matchesStarted = UInt32.ofNat (starts (p.reliable.take p.heard)).length
  current : p.inbox.view.matchStart = (starts (p.reliable.take p.heard)).getLast?
  inMatch : p.inbox.view.inMatch = true → p.inbox.view.matchStart.isSome

namespace Crossing
variable {p : Crossing}

theorem told_start (accepted : Admission) (tickRateHz : UInt8) :
    (start accepted tickRateHz).Told where
  role := rfl
  accepted := ⟨accepted, rfl, rfl⟩
  behind := Nat.zero_le _
  named := fun _ h => (nomatch h)
  names := .nil
  connection := fun _ h => (nomatch h)
  counted := rfl
  current := rfl
  inMatch := fun h => (nomatch h)

/-- What the server sends next is not yet heard. -/
theorem Told.take_append (h : p.Told) (message : ServerMessage) :
    (p.reliable ++ [message]).take p.heard = p.reliable.take p.heard :=
  List.take_append_of_le_length h.behind

theorem Told.startMatch (h : p.Told) {start : MatchStart} (hnamed : sessionInMatch start p.session)
    (hfresh : start.name ∉ (starts p.reliable).map (·.name)) : (p.startMatch start).Told := by
  have hstarts : starts (p.reliable ++ [.matchStart start]) = starts p.reliable ++ [start] :=
    starts_append _ _
  refine
    { h with
      behind := ?_
      named := ?_
      names := ?_
      connection := ?_
      counted := ?_
      current := ?_ }
  · rw [Crossing.startMatch, List.length_append]
    exact Nat.le_trans h.behind (Nat.le_add_right _ _)
  · intro other hother
    rw [Crossing.startMatch, hstarts] at hother
    rcases List.mem_append.mp hother with hold | hnew
    · exact h.named other hold
    · rw [List.mem_singleton.mp hnew]
      exact hnamed
  · rw [Crossing.startMatch, hstarts, List.map_append, List.map_singleton]
    refine List.nodup_append.mpr ⟨h.names, List.pairwise_singleton _ _, ?_⟩
    intro name hname other hother heq
    rw [List.mem_singleton.mp hother] at heq
    exact hfresh (heq ▸ hname)
  · intro message hmessage
    rcases List.mem_append.mp hmessage with hold | hnew
    · exact h.connection message hold
    · exact .inl ⟨start, List.mem_singleton.mp hnew⟩
  · rw [Crossing.startMatch, h.take_append]
    exact h.counted
  · rw [Crossing.startMatch, h.take_append]
    exact h.current

theorem Told.endMatch (h : p.Told) (ended : MatchEnd) : (p.endMatch ended).Told := by
  have hstarts : starts (p.reliable ++ [.matchEnd ended]) = starts p.reliable := by
    rw [starts_append]
    exact List.append_nil _
  refine
    { h with
      behind := ?_
      named := ?_
      names := ?_
      connection := ?_
      counted := ?_
      current := ?_ }
  · rw [Crossing.endMatch, List.length_append]
    exact Nat.le_trans h.behind (Nat.le_add_right _ _)
  · rw [Crossing.endMatch, hstarts]
    exact h.named
  · rw [Crossing.endMatch, hstarts]
    exact h.names
  · intro message hmessage
    rcases List.mem_append.mp hmessage with hold | hnew
    · exact h.connection message hold
    · exact .inr ⟨ended, List.mem_singleton.mp hnew⟩
  · rw [Crossing.endMatch, h.take_append]
    exact h.counted
  · rw [Crossing.endMatch, h.take_append]
    exact h.current

theorem Told.hearNext (h : p.Told) {message : ServerMessage}
    (hnext : p.reliable[p.heard]? = some message) :
    Told { p with inbox := p.inbox.receive message, heard := p.heard + 1 } := by
  obtain ⟨hinside, hat⟩ := List.getElem?_eq_some_iff.mp hnext
  have htake : p.reliable.take (p.heard + 1) = p.reliable.take p.heard ++ [message] := by
    rw [List.take_add_one, hnext]
    rfl
  obtain ⟨accepted, haccepted, hsession⟩ := h.accepted
  rcases h.connection message (List.mem_of_getElem? hnext) with ⟨start, rfl⟩ | ⟨ended, rfl⟩
  · have hstarts : starts (p.reliable.take p.heard ++ [.matchStart start]) =
        starts (p.reliable.take p.heard) ++ [start] := starts_append _ _
    have hmem : start ∈ starts p.reliable :=
      List.mem_filterMap.mpr ⟨_, List.mem_of_getElem? hnext, rfl⟩
    have htakes : p.inbox.takes start = true := by
      simp only [Inbox.takes, haccepted, hsession, h.named start hmem, Bool.or_true]
    have hreceive : p.inbox.receive (.matchStart start) =
        { p.inbox with
          told := p.inbox.told ++ [start.name]
          view := { forgetStates p.inbox.view with
            matchStart := some start
            matchesStarted := p.inbox.view.matchesStarted + 1
            inMatch := true
            matchEnd := none
            dead := [] } } := by
      rw [Inbox.receive, Inbox.onMatchStart, if_neg (not_not_intro htakes)]
    rw [hreceive]
    exact
      { h with
        accepted := ⟨accepted, haccepted, hsession⟩
        behind := hinside
        counted := by
          simp only [htake, hstarts, List.length_append, List.length_singleton]
          rw [h.counted, UInt32.ofNat_add]
          rfl
        current := by
          simp only [htake, hstarts, List.getLast?_concat]
        inMatch := fun _ => rfl }
  · have hstarts : starts (p.reliable.take p.heard ++ [.matchEnd ended]) =
        starts (p.reliable.take p.heard) := by
      rw [starts_append]
      exact List.append_nil _
    exact
      { h with
        accepted := ⟨accepted, haccepted, hsession⟩
        behind := hinside
        counted := by
          simp only [htake, hstarts]
          exact h.counted
        current := by
          simp only [htake, hstarts]
          exact h.current
        inMatch := by rintro ⟨⟩ }

theorem Told.hear (h : p.Told) {message : ServerMessage} (hmessage : ofConnection message = false) :
    Told { p with inbox := p.inbox.receive message } := by
  obtain ⟨hrole, haccepted, hstart, hcount, hin⟩ := receive_ofConnection p.inbox hmessage
  exact
    { h with
      role := hrole.trans h.role
      accepted := by simpa only [haccepted] using h.accepted
      counted := hcount.trans h.counted
      current := hstart.trans h.current
      inMatch := by
        simp only [hin, hstart]
        exact h.inMatch }

/-! ### What each Match has is its own -/

/-- The Commands of each Match kept apart: those the client still sends are of the Match it last
    ticked in, each message is of one Match, and the queue is of the Match it is for. -/
structure Apart (p : Crossing) : Prop where
  stream : ∀ command ∈ p.stream.unacknowledged, ∃ k start,
    (starts (p.reliable.take p.heard))[k]? = some start ∧
      p.stream.startedMatch = UInt32.ofNat (k + 1) ∧ (start.name, command) ∈ p.queued
  sent : ∀ sending ∈ p.sent, sending.commands.length ≤ Protocol.kMaxCommandsPerMessage ∧
    ∀ command ∈ sending.commands, (sending.name, command) ∈ p.queued
  queue : ∀ name ∈ p.playing, (∀ command ∈ p.commands.queued, Own p.queued name command) ∧
    OwnSequence p.queued name p.commands.acknowledged
  own : p.TakesItsOwn

theorem apart_start (accepted : Admission) (tickRateHz : UInt8) :
    (start accepted tickRateHz).Apart where
  stream := fun _ h => (nomatch h)
  sent := fun _ h => (nomatch h)
  queue := fun _ h => (nomatch h)
  own := ⟨fun _ h => (nomatch h), fun _ h => (nomatch h)⟩

/-- A tick in a Match sends Commands kept since the Match it is counted in, and its own. -/
theorem mem_tick_cases {stream : CommandStream} {view : ServerView} {command : Command}
    (h : view.inMatch = true) {kept : SequencedCommand}
    (hkept : kept ∈ (stream.tick view command).1) :
    (stream.startedMatch = view.matchesStarted ∧ kept ∈ stream.unacknowledged) ∨
      kept = ⟨stream.nextSequence, CommandStream.queuedCommand view command⟩ := by
  rw [CommandStream.tick_inMatch command h] at hkept
  refine (CommandStream.mem_queue hkept).imp_left fun hold => ?_
  simp only [CommandStream.startOver] at hold
  split_ifs at hold with hother
  · cases hold
  · exact ⟨not_not.mp hother, hold⟩

theorem tick_kept {stream : CommandStream} {view : ServerView} (command : Command)
    (h : view.inMatch = true) :
    (stream.tick view command).2.unacknowledged = (stream.tick view command).1 ∧
      (stream.tick view command).2.startedMatch = view.matchesStarted ∧
      (stream.tick view command).1.length ≤ Protocol.kMaxCommandsPerMessage := by
  rw [CommandStream.tick_inMatch command h]
  refine ⟨rfl, ?_, length_carried_le _⟩
  simp only [CommandStream.queue, CommandStream.startOver]
  split_ifs with hother
  · rfl
  · exact not_not.mp hother

theorem Apart.clientTick (h : p.Apart) (htold : p.Told)
    (hfew : (starts p.reliable).length < 2 ^ 32) (command : Command) :
    (p.clientTick command).Apart := by
  by_cases hin : p.inbox.view.inMatch = true
  · rw [Crossing.clientTick, if_neg (not_not_intro hin)]
    obtain ⟨start, hstart⟩ := Option.isSome_iff_exists.mp (htold.inMatch hin)
    have hlast := htold.current.symm.trans hstart
    obtain ⟨earlier, hheard⟩ := List.getLast?_eq_some_iff.mp hlast
    have hcounted := htold.counted
    rw [hheard, List.length_append, List.length_singleton] at hcounted
    have hbound : earlier.length + 1 < 2 ^ 32 := by
      have hsub : (starts (p.reliable.take p.heard)).length ≤ (starts p.reliable).length :=
        ((List.take_sublist _ _).filterMap _).length_le
      rw [hheard, List.length_append, List.length_singleton] at hsub
      omega
    have hname : p.clientMatch = start.name := by
      rw [clientMatch, hstart]
      rfl
    obtain ⟨hkeeps, hstarted, hlength⟩ := tick_kept command hin
    have hsend : ∀ kept ∈ (p.stream.tick p.inbox.view command).1, (start.name, kept) ∈ p.queued ++
        [(p.clientMatch, ⟨p.stream.nextSequence, CommandStream.queuedCommand p.inbox.view command⟩)] := by
      intro kept hkept
      rcases mem_tick_cases hin hkept with ⟨hsame, hold⟩ | rfl
      · obtain ⟨k, other, hat, hcount, hmem⟩ := h.stream kept hold
        obtain ⟨hk, -⟩ := List.getElem?_eq_some_iff.mp hat
        rw [hheard, List.length_append, List.length_singleton] at hk
        have hsameCount : k = earlier.length := by
          have heq := congrArg UInt32.toNat (hcount.symm.trans (hsame.trans hcounted))
          rw [UInt32.toNat_ofNat_of_lt' (by simp only [UInt32.size]; omega),
            UInt32.toNat_ofNat_of_lt' (by simp only [UInt32.size]; omega)] at heq
          omega
        rw [hheard, hsameCount, List.getElem?_concat_length] at hat
        rw [Option.some_inj.mp hat]
        exact List.mem_append_left _ hmem
      · rw [hname]
        exact List.mem_append_right _ List.mem_cons_self
    refine ⟨?_, ?_, ?_, ?_⟩
    · intro kept hkept
      rw [hkeeps] at hkept
      refine ⟨earlier.length, start, ?_, hstarted.trans hcounted, hsend kept hkept⟩
      rw [hheard, List.getElem?_concat_length]
    · intro sending hsending
      rcases List.mem_append.mp hsending with hold | hnew
      · obtain ⟨hshort, hqueued⟩ := h.sent sending hold
        exact ⟨hshort, fun kept hkept => List.mem_append_left _ (hqueued kept hkept)⟩
      · rw [List.mem_singleton.mp hnew]
        refine ⟨hlength, fun kept hkept => ?_⟩
        have hown := hsend kept hkept
        rw [← hname] at hown
        exact hown
    · intro name hplaying
      obtain ⟨hqueued, hack⟩ := h.queue name hplaying
      exact ⟨fun kept hkept => (hqueued kept hkept).mono, hack.mono⟩
    · exact ⟨fun entry hentry => (h.own.handed entry hentry).mono,
        fun entry hentry => (h.own.told entry hentry).mono⟩
  · rw [Crossing.clientTick, if_pos hin]
    exact h

/-- Of a message whose Commands are the Match's own, or all refused, the queue takes only its own. -/
theorem own_offers {vecLength : Math.Vec3 → Binary32} {queued : List (SessionId × SequencedCommand)}
    {name : SessionId} {received : List SequencedCommand}
    (hreceived : ∀ command ∈ received, Own queued name command) :
    ∀ {taken : Host.CommandQueue × ℕ}, (∀ command ∈ taken.1.queued, Own queued name command) →
      ∀ command ∈ (received.foldl (offer vecLength) taken).1.queued, Own queued name command := by
  induction received with
  | nil => exact fun h => h
  | cons first rest ih =>
      intro taken h
      have hfirst := hreceived first List.mem_cons_self
      refine ih (fun command hmem => hreceived command (List.mem_cons_of_mem _ hmem)) ?_
      rcases offer_cases vecLength taken first with ⟨hsame, -⟩ | ⟨-, ⟨-, hqueued⟩ | hdropped⟩
      · rw [hsame]
        exact h
      · rw [hqueued]
        intro command hmem
        rcases List.mem_append.mp hmem with hold | hnew
        · exact h command hold
        · rw [List.mem_singleton.mp hnew]
          exact hfirst
      · rw [hdropped]
        intro command hmem
        rcases List.mem_append.mp (List.mem_of_mem_tail hmem) with hold | hnew
        · exact h command hold
        · rw [List.mem_singleton.mp hnew]
          exact hfirst

theorem refused_offers {vecLength : Math.Vec3 → Binary32} {taken : Host.CommandQueue × ℕ}
    {received : List SequencedCommand}
    (hrefused : ∀ command ∈ received,
      Host.validate vecLength command taken.1.lastOffered ≠ none) :
    received.foldl (offer vecLength) taken = taken := by
  induction received with
  | nil => rfl
  | cons first rest ih =>
      have hfirst : offer vecLength taken first = taken := by
        obtain ⟨rejection, hrejection⟩ :=
          Option.ne_none_iff_exists'.mp (hrefused first List.mem_cons_self)
        rw [offer, Host.CommandQueue.tryEnqueue, hrejection]
      rw [List.foldl_cons, hfirst]
      exact ih fun command hmem => hrefused command (List.mem_cons_of_mem _ hmem)

theorem Apart.arrive (h : p.Apart) {vecLength : Math.Vec3 → Binary32} {message : ℕ}
    {sending : MatchSending} (hsent : p.sent[message]? = some sending)
    (hpunctual : ¬p.Late vecLength message) : (p.arrive vecLength sending).Apart := by
  rw [Crossing.arrive]
  split_ifs with hplaying
  · exact h
  · refine { h with queue := ?_, own := ⟨h.own.handed, h.own.told⟩ }
    intro name hname
    obtain ⟨hqueued, hack⟩ := h.queue name hname
    refine ⟨?_, by rw [offers_acknowledged]; exact hack⟩
    obtain ⟨hshort, hown⟩ := h.sent sending (List.mem_of_getElem? hsent)
    by_cases hsame : sending.name = name
    · -- of the Match in progress
      refine own_offers (fun command hmem => ?_) hqueued
      rw [received, received_eq (show (Sending.mk 0 sending.commands).commands.length ≤ _ from hshort)] at hmem
      obtain ⟨source, hsource, rfl⟩ := List.mem_map.mp hmem
      exact ⟨source, _, hsame ▸ hown source hsource, rfl⟩
    · -- of another: nothing of it is taken in
      have hrefused : ∀ command ∈ received sending,
          Host.validate vecLength command p.commands.lastOffered ≠ none := by
        intro command hmem htaken
        exact hpunctual ⟨sending, hsent, name, hname, hsame, command, hmem, htaken⟩
      rw [refused_offers hrefused]
      exact hqueued

theorem Apart.serverTick (h : p.Apart) {name : SessionId} (hname : p.playing = some name) :
    (p.serverTick name).Apart := by
  obtain ⟨hqueued, hack⟩ := h.queue name hname
  cases hcommands : p.commands.queued with
  | nil =>
      obtain ⟨hsent, hsame, hempty, -, hkept⟩ := Host.CommandQueue.next_nil hcommands
      refine { h with queue := ?_, own := ⟨?_, ?_⟩ }
      · intro other hother
        obtain rfl : name = other := Option.some_inj.mp (hname.symm.trans hother)
        simp only [Crossing.serverTick, hempty, hkept]
        exact ⟨fun _ hmem => (nomatch hmem), hack⟩
      · simp only [Crossing.serverTick, hsent, Bool.false_eq_true, if_false, List.append_nil]
        exact h.own.handed
      · intro entry hentry
        rcases List.mem_append.mp hentry with hold | hnew
        · exact h.own.told entry hold
        · rw [List.mem_singleton.mp hnew, hsame]
          exact hack
  | cons first rest =>
      have hfirst : Own p.queued name first := by
        refine hqueued first ?_
        rw [hcommands]
        exact List.mem_cons_self
      refine { h with queue := ?_, own := ⟨?_, ?_⟩ }
      · intro other hother
        obtain rfl : name = other := Option.some_inj.mp (hname.symm.trans hother)
        simp only [Crossing.serverTick, Host.CommandQueue.next_cons hcommands]
        refine ⟨fun command hmem => hqueued command ?_, hfirst.sequence⟩
        rw [hcommands]
        exact List.mem_cons_of_mem _ hmem
      · intro entry hentry
        simp only [Crossing.serverTick, Host.CommandQueue.next_cons hcommands, if_true] at hentry
        rcases List.mem_append.mp hentry with hold | hnew
        · exact h.own.handed entry hold
        · rw [List.mem_singleton.mp hnew]
          exact hfirst
      · intro entry hentry
        simp only [Crossing.serverTick, Host.CommandQueue.next_cons hcommands] at hentry
        rcases List.mem_append.mp hentry with hold | hnew
        · exact h.own.told entry hold
        · rw [List.mem_singleton.mp hnew]
          exact hfirst.sequence

/-- What the server sends next, or the client hears, leaves every Match's Commands where they are. -/
theorem Apart.stream_mono (h : p.Apart) {reliable : List ServerMessage} {heard : ℕ}
    (hheard : p.reliable.take p.heard <+: reliable.take heard) :
    ∀ command ∈ p.stream.unacknowledged, ∃ k start,
      (starts (reliable.take heard))[k]? = some start ∧
        p.stream.startedMatch = UInt32.ofNat (k + 1) ∧ (start.name, command) ∈ p.queued := by
  intro command hcommand
  obtain ⟨k, start, hat, hrest⟩ := h.stream command hcommand
  obtain ⟨more, hmore⟩ := hheard
  refine ⟨k, start, ?_, hrest⟩
  rw [← hmore, starts_append, List.getElem?_append_left (List.getElem?_eq_some_iff.mp hat).1]
  exact hat

/-! ### Runs -/

/-- The starts sent are never fewer. -/
theorem starts_step {vecLength : Math.Vec3 → Binary32} {p' : Crossing} {event : CrossingEvent}
    (hstep : p.step vecLength event = some p') :
    (starts p.reliable).length ≤ (starts p'.reliable).length := by
  have hgrow : ∀ message, (starts p.reliable).length ≤
      (starts (p.reliable ++ [message])).length := by
    intro message
    rw [starts_append, List.length_append]
    exact Nat.le_add_right _ _
  cases event with
  | startMatch start =>
      rw [Crossing.step] at hstep
      split_ifs at hstep
      cases hstep
      exact hgrow _
  | endMatch ended =>
      rw [Crossing.step] at hstep
      split_ifs at hstep
      cases hstep
      exact hgrow _
  | clientTick command =>
      cases hstep
      rw [Crossing.clientTick]
      split_ifs <;> exact Nat.le_refl _
  | arrive message =>
      obtain ⟨sending, -, rfl⟩ := Option.map_eq_some_iff.mp hstep
      rw [Crossing.arrive]
      split_ifs <;> exact Nat.le_refl _
  | serverTick =>
      obtain ⟨name, -, rfl⟩ := Option.map_eq_some_iff.mp hstep
      exact Nat.le_refl _
  | hearNext =>
      obtain ⟨message, -, rfl⟩ := Option.map_eq_some_iff.mp hstep
      exact Nat.le_refl _
  | hear message =>
      rw [Crossing.step] at hstep
      split_ifs at hstep
      cases hstep
      exact Nat.le_refl _

theorem told_step {vecLength : Math.Vec3 → Binary32} {p' : Crossing} {event : CrossingEvent}
    (h : p.Told) (hstep : p.step vecLength event = some p') : p'.Told := by
  cases event with
  | startMatch start =>
      rw [Crossing.step] at hstep
      split_ifs at hstep with hcan
      cases hstep
      exact h.startMatch hcan.2.1 hcan.2.2
  | endMatch ended =>
      rw [Crossing.step] at hstep
      split_ifs at hstep
      cases hstep
      exact h.endMatch ended
  | clientTick command =>
      cases hstep
      rw [Crossing.clientTick]
      split_ifs
      · exact { h with inMatch := h.inMatch }
      · exact h
  | arrive message =>
      obtain ⟨sending, -, rfl⟩ := Option.map_eq_some_iff.mp hstep
      rw [Crossing.arrive]
      split_ifs
      · exact h
      · exact { h with inMatch := h.inMatch }
  | serverTick =>
      obtain ⟨name, -, rfl⟩ := Option.map_eq_some_iff.mp hstep
      exact { h with inMatch := h.inMatch }
  | hearNext =>
      obtain ⟨message, hnext, rfl⟩ := Option.map_eq_some_iff.mp hstep
      exact h.hearNext hnext
  | hear message =>
      rw [Crossing.step] at hstep
      split_ifs at hstep with hmessage
      cases hstep
      exact h.hear (Bool.eq_false_iff.mpr hmessage)

theorem apart_step {vecLength : Math.Vec3 → Binary32} {p' : Crossing} {event : CrossingEvent}
    (h : p.Apart) (htold : p.Told) (hfew : (starts p.reliable).length < 2 ^ 32)
    (hpunctual : ∀ message ∈ arrival event, ¬p.Late vecLength message)
    (hstep : p.step vecLength event = some p') : p'.Apart := by
  cases event with
  | startMatch start =>
      rw [Crossing.step] at hstep
      split_ifs at hstep with hcan
      cases hstep
      refine { h with stream := ?_, queue := ?_, own := ⟨h.own.handed, h.own.told⟩ }
      · exact h.stream_mono ((htold.take_append (.matchStart start)) ▸ List.prefix_rfl)
      · rintro name -
        exact ⟨fun _ hmem => (nomatch hmem), .inl rfl⟩
  | endMatch ended =>
      rw [Crossing.step] at hstep
      split_ifs at hstep
      cases hstep
      refine
        { h with
          stream := ?_
          queue := fun _ hname => (nomatch hname)
          own := ⟨h.own.handed, h.own.told⟩ }
      exact h.stream_mono ((htold.take_append (.matchEnd ended)) ▸ List.prefix_rfl)
  | clientTick command =>
      cases hstep
      exact h.clientTick htold hfew command
  | arrive message =>
      obtain ⟨sending, hsent, rfl⟩ := Option.map_eq_some_iff.mp hstep
      exact h.arrive hsent (hpunctual message rfl)
  | serverTick =>
      obtain ⟨name, hname, rfl⟩ := Option.map_eq_some_iff.mp hstep
      exact h.serverTick hname
  | hearNext =>
      obtain ⟨message, -, rfl⟩ := Option.map_eq_some_iff.mp hstep
      exact
        { h with
          stream := h.stream_mono (List.take_prefix_take_left (Nat.le_succ _))
          own := ⟨h.own.handed, h.own.told⟩ }
  | hear message =>
      rw [Crossing.step] at hstep
      split_ifs at hstep
      cases hstep
      exact { h with own := ⟨h.own.handed, h.own.told⟩ }

theorem apart_run {vecLength : Math.Vec3 → Binary32} {events : List CrossingEvent} {p' : Crossing}
    (htold : p.Told) (h : p.Apart) (hfew : (starts p'.reliable).length < 2 ^ 32)
    (hpunctual : p.Punctual vecLength events) (hrun : p.run vecLength events = some p') :
    p'.Apart := by
  induction events generalizing p with
  | nil =>
      cases hrun
      exact h
  | cons event rest ih =>
      rw [Crossing.run, Lib.run.cons, Option.bind_eq_some_iff] at hrun
      obtain ⟨q, hstep, hrest⟩ := hrun
      have hgrows : (starts p.reliable).length ≤ (starts p'.reliable).length :=
        Nat.le_trans (starts_step hstep)
          (Lib.run.relation (R := fun a b => (starts a.reliable).length ≤ (starts b.reliable).length)
            (fun _ => Nat.le_refl _) Nat.le_trans starts_step hrest)
      have hfewer := Nat.lt_of_le_of_lt hgrows hfew
      exact ih (told_step htold hstep) (apart_step h htold hfewer hpunctual.1 hstep)
        (hpunctual.2 q hstep) hrest

end Crossing

/-- CORRECT: over fewer than `2 ^ 32` Matches, if no message of Commands arrives in another Match
    than its own with one that Match's queue would take, then every Command run in a Match was
    queued by the client in that Match, and every sequence it is told in a Match is 0 or one it
    queued there. -/
theorem matches_law {vecLength : Math.Vec3 → Binary32} {accepted : Admission} {tickRateHz : UInt8}
    {events : List CrossingEvent} {p : Crossing}
    (hrun : (Crossing.start accepted tickRateHz).run vecLength events = some p)
    (hfew : (starts p.reliable).length < 2 ^ 32)
    (hpunctual : (Crossing.start accepted tickRateHz).Punctual vecLength events) :
    p.TakesItsOwn :=
  (Crossing.apart_run (Crossing.told_start accepted tickRateHz)
    (Crossing.apart_start accepted tickRateHz) hfew hpunctual hrun).own

/-! ### Two Matches -/

def scout : Admission := { session := 5, tickRateHz := 60, character := "scout" }

/-- A Match of this one player. -/
def scoutsMatch (name : SessionId) (entity : EntityId) : MatchStart where
  name
  players := [{ session := 5, entity, character := "scout" }]

/-- A Command of the first Match arrives in it, and one of the second in the second; then the first
    Match's comes again. -/
def inTurn : List CrossingEvent :=
  [.startMatch (scoutsMatch 11 1), .hearNext, .clientTick { fire := true }, .arrive 0, .serverTick,
    .endMatch {}, .hearNext, .startMatch (scoutsMatch 12 2), .hearNext, .clientTick {}, .arrive 1,
    .arrive 0, .serverTick]

def afterInTurn : Crossing := ((Crossing.start scout 60).run along inTurn).get rfl

theorem matches_law_inTurn :
    afterInTurn.handed = [(11, ⟨1, { fire := true }⟩), (12, ⟨2, {}⟩)] ∧
      afterInTurn.TakesItsOwn := by
  have hrun : (Crossing.start scout 60).run along inTurn = some afterInTurn := rfl
  exact ⟨rfl, matches_law hrun (by decide +kernel) (by decide +kernel)⟩

/-- The first Match's Command arrives once the second has begun, before any of its own. -/
def delayed : List CrossingEvent :=
  [.startMatch (scoutsMatch 11 1), .hearNext, .clientTick { fire := true }, .endMatch {}, .hearNext,
    .startMatch (scoutsMatch 12 2), .arrive 0, .serverTick]

def afterDelayed : Crossing := ((Crossing.start scout 60).run along delayed).get rfl

/-- It is run in the second Match, and acknowledged there. -/
theorem earlier_match_fires :
    ¬∀ (vecLength : Math.Vec3 → Binary32) (accepted : Admission) (tickRateHz : UInt8)
      (events : List CrossingEvent) (p : Crossing),
      (Crossing.start accepted tickRateHz).run vecLength events = some p → p.TakesItsOwn := by
  intro h
  have hrun : (Crossing.start scout 60).run along delayed = some afterDelayed := rfl
  obtain ⟨source, -, hmem, -⟩ :=
    (h along scout 60 delayed afterDelayed hrun).handed (12, ⟨1, { fire := true }⟩)
      (show (12, _) ∈ [(12, _)] from List.mem_cons_self)
  have hqueued : (12, source) ∈ [((11 : SessionId), (⟨1, { fire := true }⟩ : SequencedCommand))] :=
    hmem
  rcases List.mem_singleton.mp hqueued with ⟨⟩

end Augusta.Harness
