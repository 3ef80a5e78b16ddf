import Augusta.Host.CaptureTape
import Augusta.Host.HostLaw
import Augusta.Link.CommandsLaw
import Augusta.Protocol.Canonical

/-! What a server's captures are made of: IDs it gave, a clock's time, Commands off the wire.

      payload ──readCommands──▶ queued ──next──▶ told as it was ──▶ its piece      on the grids
      ids n   ──join, start───▶ sessions, a Match ──▶ told ──▶ header, Joins       of 128 bits

    A spawn is put on its grid by the Join made of it, a Seen offset within 32 bits by its Command's
    piece. -/

namespace Augusta.Link
open Protocol Lib.Protobuf

/-- What is read off the wire is on its grids. -/
theorem onGrids_of_readCommands {parse : Bytes → Option Pb.Message} {payload : Bytes}
    {commands : List SequencedCommand} (h : readCommands isUtf8 parse payload = some commands)
    {sequenced : SequencedCommand} (hin : sequenced ∈ commands) : OnGrids sequenced.command := by
  rw [readCommands] at h
  split at h
  · next message hdecode =>
      cases h
      unfold decode at hdecode
      split_ifs at hdecode
      cases hpb : parse payload with
      | none => simp [hpb] at hdecode
      | some pb =>
          simp only [hpb] at hdecode
          obtain ⟨hsnapped, -⟩ := MessageWire.canonical hdecode
          have hall : message.commands.map SequencedCommandWire.snapped =
              message.commands.map id := by
            rw [List.map_id]
            exact congrArg CommandsWire.commands (MessageWire.commands.inj hsnapped)
          obtain ⟨wire, hwire, rfl⟩ := List.mem_map.mp hin
          have hcommand : wire.command.snapped = wire.command :=
            congrArg SequencedCommandWire.command (List.map_inj_left.mp hall wire hwire)
          exact ⟨congrArg CommandWire.direction hcommand, congrArg CommandWire.yaw hcommand,
            congrArg CommandWire.pitch hcommand, congrArg CommandWire.seenFraction hcommand⟩
  · cases h

end Augusta.Link

namespace Augusta.Host
open Lib (Table)
open Capture Link Protocol

/-! ### From a call to its piece -/

/-- A start's IDs and time are of the source's types. -/
structure CaptureStart.Typed (start : CaptureStart) : Prop where
  match_ : start.match_ < 2 ^ 128
  sessions : ∀ entrant ∈ start.players, entrant.session < 2 ^ 128
  started : -2 ^ 63 ≤ start.started ∧ start.started < 2 ^ 63

/-- What a call hands a Capturer is of the source's types, and its Command on the grids. -/
def CaptureEvent.Typed : CaptureEvent → Prop
  | .startMatch start => start.Typed
  | .command _ _ handed => OnGrids handed
  | _ => True

/-- A piece whose record comes back from the wire as it was made. -/
def Returns (piece : Piece) : Prop := piece.InTypes ∧ piece.OnGrids ∧ piece.Unseen

namespace Captures
variable {encode : Encode} {s s' : Captures}

/-- What was made, and what the Simulation thread is about to make of its call. -/
structure Fitting (s : Captures) : Prop where
  made : ∀ entry ∈ s.made, Returns entry.2
  starting : ∀ start, s.doing = .starting start ∨ s.doing = .opening start → start.Typed
  joining : ∀ rest, s.doing = .joining rest → ∀ entrant ∈ rest, entrant.session < 2 ^ 128

theorem returns_header (c : Capturer) {start : CaptureStart} (h : start.Typed) :
    Returns (.header (c.headerOf start)) := by
  obtain ⟨hlow, hhigh⟩ := h.started
  refine ⟨⟨h.match_, ?_, ?_⟩, trivial, trivial⟩ <;> simp only [Capturer.headerOf] <;> omega

theorem returns_enter (c : Capturer) {entrant : CaptureEntrant} (h : entrant.session < 2 ^ 128) :
    Returns (c.enter entrant).2 :=
  ⟨h, Math.Vec3.snap_snap entrant.spawn Math.kPositionGrid, trivial⟩

theorem returns_command (c : Capturer) {tick : Tick} {entity : EntityId} {command : Augusta.Command}
    (h : OnGrids command) {record : EventAt}
    (hrecord : c.command tick entity command = some record) :
    Returns (.event record) := by
  simp only [Capturer.command] at hrecord
  split_ifs at hrecord
  cases hrecord
  refine ⟨?_, ⟨h.direction, h.yaw, h.pitch, h.seenFraction⟩, rfl⟩
  simp only [Piece.InTypes, Capturer.seenOffset, kMinInt32, kMaxInt32]
  omega

/-- A piece more, and the next of the Simulation thread's call. -/
theorem fitting_admitted (h : Fitting s) {piece : Piece} (hpiece : Returns piece)
    (give : Writer → Encoded → Writer) {doing : Doing}
    (hstarting : ∀ start, doing = .starting start ∨ doing = .opening start → start.Typed)
    (hjoining : ∀ rest, doing = .joining rest → ∀ entrant ∈ rest, entrant.session < 2 ^ 128) :
    Fitting { s.admitted encode piece give with doing } := by
  obtain ⟨writer, failure, heq⟩ := @admitted_eq encode s piece give
  rw [heq]
  refine ⟨fun entry hentry => ?_, hstarting, hjoining⟩
  rcases List.mem_append.mp hentry with hold | hnew
  · exact h.made entry hold
  · rw [List.mem_singleton.mp hnew]
    exact hpiece

theorem fitting_event (h : Fitting s) {record : Option EventAt}
    (hrecord : ∀ made ∈ record, Returns (.event made)) : Fitting (s.event encode record) := by
  cases record with
  | none => exact h
  | some made =>
      obtain ⟨writer, failure, heq⟩ := @admitted_eq encode s (.event made)
        fun w encoded => w.push s.capturer.match_ encoded
      have hmore := @fitting_admitted encode s h (.event made) (hrecord made rfl)
        (fun w encoded => w.push s.capturer.match_ encoded) s.doing h.starting h.joining
      rw [heq] at hmore
      rw [event, queue, heq]
      exact hmore

/-- Nothing made, and no call under way that will make a header or a Join. -/
theorem fitting_same (h : Fitting s) (hmade : s'.made = s.made)
    (hdoing : s'.doing = s.doing ∨ s'.doing = .nothing ∨ s'.doing = .ending) : Fitting s' := by
  refine ⟨hmade ▸ h.made, fun start hstart => ?_, fun rest hrest => ?_⟩
  · rcases hdoing with hsame | hnone | hend
    · exact h.starting start (hsame ▸ hstart)
    · simp [hnone] at hstart
    · simp [hend] at hstart
  · rcases hdoing with hsame | hnone | hend
    · exact h.joining rest (hsame ▸ hrest)
    · simp [hnone] at hrest
    · simp [hend] at hrest

theorem fitting_goOn (h : Fitting s) (hgo : s.goOn encode = some s') : Fitting s' := by
  cases hdoing : s.doing with
  | nothing => simp [goOn, hdoing] at hgo
  | starting start =>
      simp only [goOn, hdoing] at hgo
      split_ifs at hgo <;> cases hgo
      · exact fitting_same h rfl (.inr (.inl rfl))
      · refine ⟨h.made, fun other hother => ?_, fun rest hrest => ?_⟩
        · simp only [reduceCtorEq, false_or, Doing.opening.injEq] at hother
          exact hother ▸ h.starting start (.inl hdoing)
        · cases hrest
  | opening start =>
      have htyped := h.starting start (.inr hdoing)
      simp only [goOn, hdoing] at hgo
      split at hgo <;> cases hgo
      · refine fitting_admitted h (returns_header s.capturer htyped) _ (fun other hother => ?_)
          fun rest hrest => ?_
        · simp at hother
        · cases hrest
          exact htyped.sessions
      · refine fitting_admitted h (returns_header s.capturer htyped) _ (by simp)
          fun rest hrest => ?_
        cases hrest
  | joining entrants =>
      cases entrants with
      | nil =>
          simp only [goOn, hdoing] at hgo
          cases hgo
          exact fitting_same h rfl (.inr (.inl rfl))
      | cons entrant rest =>
          have hall := h.joining _ hdoing
          simp only [goOn, hdoing] at hgo
          cases hgo
          have hentered : Fitting { s with
              capturer := (s.capturer.enter entrant).1, doing := .joining (entrant :: rest) } :=
            ⟨h.made, by simp, by simpa using hall⟩
          refine fitting_admitted hentered
            (returns_enter s.capturer (hall entrant List.mem_cons_self))
            (fun w encoded => w.push s.capturer.match_ encoded) (fun other hother => ?_)
            fun others hothers other hother => ?_
          · simp at hother
          · cases hothers
            exact hall other (List.mem_cons_of_mem _ hother)
  | ending =>
      simp only [goOn, hdoing] at hgo
      cases hgo
      exact fitting_same h rfl (.inr (.inl rfl))

theorem fitting_step (h : Fitting s) {event : CaptureEvent} (hevent : event.Typed)
    (hstep : s.step encode event = some s') : Fitting s' := by
  have hwriter {answer : Option Writer}
      (hstep : (answer.map fun writer => { s with writer }) = some s') : Fitting s' := by
    obtain ⟨writer, -, rfl⟩ := Option.map_eq_some_iff.mp hstep
    exact fitting_same h rfl (.inl rfl)
  cases event with
  | startMatch start =>
      simp only [step, startMatch] at hstep
      split_ifs at hstep <;> cases hstep
      all_goals
        refine ⟨h.made, fun other hother => ?_, fun rest hrest => by cases hrest⟩
        simp only [Doing.starting.injEq, reduceCtorEq, or_false] at hother
        exact hother ▸ hevent
  | command tick entity command =>
      simp only [step] at hstep
      split_ifs at hstep
      cases hstep
      exact fitting_event h fun made hmade => returns_command s.capturer hevent hmade
  | leave tick entity =>
      simp only [step] at hstep
      split_ifs at hstep
      cases hstep
      refine fitting_event h fun made hmade => ?_
      simp only [Capturer.leave] at hmade
      split_ifs at hmade <;> cases hmade
      exact ⟨trivial, trivial, trivial⟩
  | death tick victim killer =>
      simp only [step] at hstep
      split_ifs at hstep
      cases hstep
      refine fitting_event h fun made hmade => ?_
      simp only [Capturer.death] at hmade
      split_ifs at hmade <;> cases hmade
      exact ⟨trivial, trivial, trivial⟩
  | endMatch lastTick winner =>
      simp only [step] at hstep
      split_ifs at hstep
      split at hstep
      · next record hrecord =>
          cases hstep
          refine fitting_admitted h ?_ _ (by simp) (by simp)
          simp only [Capturer.endMatch] at hrecord
          split_ifs at hrecord
          cases hrecord
          exact ⟨trivial, trivial, trivial⟩
      · cases hstep
        exact h
  | finish =>
      simp only [step] at hstep
      split_ifs at hstep
      obtain ⟨writer, -, rfl⟩ := Option.map_eq_some_iff.mp hstep
      exact fitting_same h rfl (.inl rfl)
  | goOn => exact fitting_goOn h hstep
  | take => exact hwriter hstep
  | handle disk => exact hwriter hstep
  | note => exact hwriter hstep

/-- Every piece of captures told what is typed comes back from the wire as it was. -/
theorem returns_run {header : Header} {mode : CaptureMode} {capacity : ℕ} {told : List CaptureEvent}
    (hrun : (start header mode capacity).run encode told = some s)
    (htyped : ∀ event ∈ told, event.Typed) {m : MatchId} {piece : Piece}
    (hpiece : piece ∈ s.pieces m) :
    Returns piece := by
  have hfitting : Fitting s := by
    refine Lib.run.invariant_of_mem (fun hmem hs hstep => fitting_step hs (htyped _ hmem) hstep)
      ⟨?_, ?_, ?_⟩ hrun
    · exact fun entry hentry => absurd hentry List.not_mem_nil
    · simp [start]
    · simp [start]
  obtain ⟨entry, hentry, rfl⟩ := List.mem_map.mp hpiece
  exact hfitting.made entry (List.mem_of_mem_filter hentry)

end Captures

/-! ### From the wire to a call -/

/-- A queue of Commands off the wire. -/
def CommandQueue.Clean (queue : CommandQueue) : Prop :=
  ∀ queued ∈ queue.queued, OnGrids queued.command

namespace CommandQueue
variable {vecLength : Math.Vec3 → Lib.Binary32} {queue queue' : CommandQueue}

theorem clean_new (tickRateHz : UInt8) : Clean (.new tickRateHz) :=
  fun _ hqueued => absurd hqueued List.not_mem_nil

theorem clean_tryEnqueue (h : queue.Clean) {command : SequencedCommand}
    (hcommand : OnGrids command.command) {how : Enqueued}
    (htaken : queue.tryEnqueue vecLength command = .ok (how, queue')) : queue'.Clean := by
  have hall : ∀ queued ∈ queue.queued ++ [command], OnGrids queued.command := by
    intro queued hqueued
    rcases List.mem_append.mp hqueued with hold | hnew
    · exact h queued hold
    · rw [List.mem_singleton.mp hnew]
      exact hcommand
  obtain ⟨-, -, ⟨-, -, rfl⟩ | ⟨-, -, rfl⟩⟩ := tryEnqueue_cases htaken
  · exact hall
  · exact fun queued hqueued => hall queued (List.mem_of_mem_tail hqueued)

/-- What is sent is what was queued, and the rest stays. -/
theorem clean_next (h : queue.Clean) :
    (queue.next.1.sent = true → OnGrids queue.next.1.command) ∧ queue.next.2.Clean := by
  cases hqueued : queue.queued with
  | nil =>
      obtain ⟨hunsent, -, hnone, -⟩ := next_nil hqueued
      refine ⟨fun hsent => ?_, fun queued hin => ?_⟩
      · rw [hunsent] at hsent
        cases hsent
      · rw [hnone] at hin
        cases hin
  | cons first rest =>
      rw [next_cons hqueued]
      refine ⟨fun _ => h first ?_, fun queued hin => h queued ?_⟩ <;> rw [hqueued]
      · exact List.mem_cons_self
      · exact List.mem_cons_of_mem _ hin

end CommandQueue

namespace Impl
variable {ids : ℕ → SessionId} {vecLength : Math.Vec3 → Lib.Binary32} {host host' : Impl}

/-- Every player's queue is. -/
def Clean (players : Table SessionId HostPlayer) : Prop :=
  ∀ session player, players.lookup session = some player → player.commands.Clean

theorem clean_insert {players : Table SessionId HostPlayer} (h : Clean players)
    (session : SessionId) {player : HostPlayer} (hplayer : player.commands.Clean) :
    Clean (players.insert session player) := by
  intro other held hheld
  rw [AList.lookup_insert_eq] at hheld
  split_ifs at hheld
  · cases hheld
    exact hplayer
  · exact h other held hheld

theorem clean_erase {players : Table SessionId HostPlayer} (h : Clean players)
    (session : SessionId) : Clean (players.erase session) := by
  intro other held hheld
  rw [AList.lookup_erase_eq] at hheld
  split_ifs at hheld
  exact h other held hheld

theorem players_sendTo {sessions : List SessionId} {message : Told}
    (hsent : host.sendTo sessions message = some host') : host'.players = host.players := by
  obtain ⟨players, -, hsame⟩ := Option.bind_eq_some_iff.mp hsent
  cases hsame
  rfl

theorem clean_sendRoster (hsent : host.sendRoster = some host') (h : Clean host.players) :
    Clean host'.players := by
  rw [players_sendTo hsent]
  exact h

theorem clean_handleDisconnect {peer : PeerId} (hleft : host.handleDisconnect peer = some host')
    (h : Clean host.players) : Clean host'.players := by
  rw [handleDisconnect] at hleft
  cases hsession : host.match_.sessionOf peer with
  | none =>
      simp only [hsession] at hleft
      cases hleft
      exact h
  | some session =>
      have herased := clean_erase h session
      simp only [hsession] at hleft
      cases hdeparture : (host.match_.leave peer).1 with
      | fromLobby =>
          simp only [hdeparture] at hleft
          exact clean_sendRoster hleft herased
      | _ =>
          simp only [hdeparture] at hleft
          cases hleft
          exact herased

theorem clean_expel {peer : PeerId} (hleft : host.expel peer = some host')
    (h : Clean host.players) : Clean host'.players := by
  rw [expel] at hleft
  exact clean_handleDisconnect hleft h

theorem clean_judge {peer : PeerId} {rejection : PeerRejection} {now : ℤ} {verdict : Verdict}
    (hjudged : host.judge peer rejection now = some (verdict, host')) (h : Clean host.players) :
    Clean host'.players := by
  rw [judge] at hjudged
  cases hverdict : (host.gate.judge peer rejection now).1 with
  | keep =>
      simp only [hverdict] at hjudged
      cases hjudged
      exact h
  | disconnect =>
      simp only [hverdict] at hjudged
      obtain ⟨expelled, hexpelled, hsame⟩ := Option.map_eq_some_iff.mp hjudged
      cases hsame
      exact clean_expel hexpelled h

theorem clean_judged {peer : PeerId} {rejection : PeerRejection} {now : ℤ}
    (hjudged : host.judged peer rejection now = some host') (h : Clean host.players) :
    Clean host'.players := by
  obtain ⟨⟨verdict, judged⟩, hjudge, hsame⟩ := Option.map_eq_some_iff.mp hjudged
  cases hsame
  exact clean_judge hjudge h

theorem clean_handleJoinRequest {peer : PeerId} {request : JoinRequest} {now : ℤ}
    (hanswer : host.handleJoinRequest ids peer request now = some host') (h : Clean host.players) :
    Clean host'.players := by
  cases hjoin : host.match_.join ids peer request with
  | mk answer joined =>
      cases answer with
      | error refusal =>
          rw [handleJoinRequest, hjoin] at hanswer
          exact clean_judged hanswer h
      | ok admission =>
          obtain ⟨admitted, hadmitted, hsame⟩ := handleJoinRequest_ok hjoin
          have hplayers : admitted.players = host.players := by rw [hadmitted]
          rw [hsame] at hanswer
          split_ifs at hanswer
          · cases hanswer
            rw [hplayers]
            exact h
          · refine clean_sendRoster hanswer (clean_insert ?_ _ (CommandQueue.clean_new _))
            rw [hplayers]
            exact h

theorem clean_takeIn {peer : PeerId} {session : SessionId} {now : ℤ}
    {commands : List SequencedCommand} (hcommands : ∀ command ∈ commands, OnGrids command.command)
    (htaken : takeIn vecLength peer session now commands host = some host')
    (h : Clean host.players) : Clean host'.players := by
  induction commands generalizing host with
  | nil =>
      cases htaken
      exact h
  | cons command rest ih =>
      have hrest := fun command hin => hcommands command (List.mem_cons_of_mem _ hin)
      rw [takeIn] at htaken
      obtain ⟨player, hplayer, htaken⟩ := Option.bind_eq_some_iff.mp htaken
      split at htaken
      · next how queue hqueue =>
          exact ih hrest htaken (clean_insert h session (CommandQueue.clean_tryEnqueue
            (h session player hplayer) (hcommands command List.mem_cons_self) hqueue))
      · obtain ⟨⟨verdict, judged⟩, hjudge, hthen⟩ := Option.bind_eq_some_iff.mp htaken
        have hjudged := clean_judge hjudge h
        cases verdict with
        | keep => exact ih hrest hthen hjudged
        | disconnect =>
            cases hthen
            exact hjudged

theorem clean_onMessage {from_ : PeerId} {said : PeerSaid} {now : ℤ}
    (hsaid : ∀ commands, said = .commands commands → ∀ command ∈ commands, OnGrids command.command)
    (hanswer : host.onMessage ids vecLength from_ said now = some host') (h : Clean host.players) :
    Clean host'.players := by
  rw [onMessage] at hanswer
  split_ifs at hanswer
  · cases hanswer
    exact h
  · have hrefused (hanswer : host.refuseAsNoReplayServer from_ now = some host') :
        Clean host'.players := by
      rw [refuseAsNoReplayServer] at hanswer
      exact clean_judged hanswer h
    cases said with
    | undecodable => exact clean_judged hanswer h
    | notAClientMessage => exact clean_judged hanswer h
    | joinRequest request => exact clean_handleJoinRequest hanswer h
    | commands commands =>
        simp only [handleMessage, handleCommands] at hanswer
        split at hanswer
        · exact clean_judged hanswer h
        · split_ifs at hanswer
          · exact clean_judged hanswer h
          · obtain ⟨player, -, htaken⟩ := Option.bind_eq_some_iff.mp hanswer
            exact clean_takeIn (hsaid commands rfl) htaken h
    | ready version =>
        simp only [handleMessage, handleReady] at hanswer
        split at hanswer
        · cases hanswer
          exact h
        · exact clean_judged hanswer h
    | debugSubscribe flags =>
        cases hanswer
        exact h
    | replayListRequest => exact hrefused hanswer
    | replayRequest => exact hrefused hanswer

theorem clean_finishRound {now : ℤ} (hfinished : host.finishRound now = some host')
    (h : Clean host.players) : Clean host'.players := by
  obtain ⟨expelled, hexpelled, rfl⟩ := Option.map_eq_some_iff.mp hfinished
  have hrun : Lib.run (fun (host : Impl) (peer : PeerId) => host.expel peer)
      { host with gate := (host.gate.takeOverdue now).2 } (host.gate.takeOverdue now).1 =
        some expelled := hexpelled
  exact Lib.run.invariant (I := fun host => Clean host.players)
    (fun hclean hstep => clean_expel hstep hclean) h hrun

theorem clean_endMatch {winner : Option SessionId} (hended : host.endMatch winner = some host')
    (h : Clean host.players) : Clean host'.players := by
  rw [endMatch] at hended
  split at hended
  · cases hended
    exact h
  · obtain ⟨told, htold, hroster⟩ := Option.bind_eq_some_iff.mp hended
    refine clean_sendRoster hroster ?_
    simp only [players_sendTo htold]
    exact h

theorem clean_startMatchIfReady {assigns : Policy.MatchView → ℕ → Option (List ℕ)} {started : ℤ}
    (hstarted : host.startMatchIfReady ids assigns started = some host') (h : Clean host.players) :
    Clean host'.players := by
  rw [startMatchIfReady] at hstarted
  split at hstarted
  · cases hstarted
    exact h
  · next start inMatch hstart =>
      simp only [Option.bind_eq_bind, Option.bind_eq_some_iff] at hstarted
      obtain ⟨entrants, -, fresh, hfresh, htold⟩ := hstarted
      rw [players_sendTo htold, capture_eq]
      have hrun : Lib.run (fun (host : Impl) (session : SessionId) => host.startAfresh session)
          { host with match_ := inMatch } (start.players.map (·.session)) = some fresh := hfresh
      refine Lib.run.invariant (I := fun host => Clean host.players)
        (fun {host session host'} hclean hstep => ?_) h hrun
      obtain ⟨player, -, hsame⟩ := Option.bind_eq_some_iff.mp hstep
      cases hsame
      exact clean_insert hclean session (CommandQueue.clean_new _)

end Impl

/-! ### What a server tells its Capturer -/

/-- A call of the IDs the first `n` of `ids`, the clock's time, a Command off the wire. -/
def CaptureEvent.Given (ids : ℕ → SessionId) (n : ℕ) : CaptureEvent → Prop
  | .startMatch start => (∃ i < n, start.match_ = ids i) ∧
      (∀ entrant ∈ start.players, ∃ i < n, entrant.session = ids i) ∧
      -2 ^ 63 ≤ start.started ∧ start.started < 2 ^ 63
  | .command _ _ handed => OnGrids handed
  | _ => True

theorem CaptureEvent.Given.mono {ids : ℕ → SessionId} {n n' : ℕ} {call : CaptureEvent}
    (h : call.Given ids n) (hle : n ≤ n') : call.Given ids n' := by
  cases call with
  | startMatch start =>
      obtain ⟨⟨i, hi, hmatch⟩, hplayers, hstarted⟩ := h
      refine ⟨⟨i, by omega, hmatch⟩, fun entrant hentrant => ?_, hstarted⟩
      obtain ⟨j, hj, hsession⟩ := hplayers entrant hentrant
      exact ⟨j, by omega, hsession⟩
  | _ => exact h

/-- IDs given are UUIDs. -/
theorem CaptureEvent.Given.typed {ids : ℕ → SessionId} {n : ℕ} {call : CaptureEvent}
    (h : call.Given ids n) (hids : ∀ i < n, ids i < 2 ^ 128) : call.Typed := by
  cases call with
  | startMatch start =>
      obtain ⟨⟨i, hi, hmatch⟩, hplayers, hstarted⟩ := h
      refine ⟨hmatch ▸ hids i hi, fun entrant hentrant => ?_, hstarted⟩
      obtain ⟨j, hj, hsession⟩ := hplayers entrant hentrant
      exact hsession ▸ hids j hj
  | _ => exact h

namespace Impl
variable {ids : ℕ → SessionId} {vecLength : Math.Vec3 → Lib.Binary32} {host host' : Impl}

/-- What is told, and what is queued to be. -/
structure Sourced (ids : ℕ → SessionId) (host : Impl) : Prop where
  clean : Clean host.players
  told : ∀ call ∈ host.captured, call.Given ids host.match_.idsTaken

theorem sourced_aside (h : Sourced ids host) (haside : Aside host host')
    (hclean : Clean host'.players) : Sourced ids host' := by
  refine ⟨hclean, fun call hcall => ?_⟩
  rw [haside.captured] at hcall
  exact (h.told call hcall).mono haside.idsTaken

/-- One more of what is told. -/
theorem told_capture {n : ℕ} {calls : List CaptureEvent}
    (h : ∀ call ∈ host.captured, call.Given ids n) (hcalls : ∀ call ∈ calls, call.Given ids n) :
    ∀ call ∈ (host.capture calls).captured, call.Given ids n := by
  intro call hcall
  rw [capture_captured] at hcall
  split_ifs at hcall
  · rcases List.mem_append.mp hcall with hold | hnew
    · exact h call hold
    · exact hcalls call hnew
  · exact h call hcall

theorem sourced_takeOutEndedMatch (h : Sourced ids host) (stored : BodyOrder) :
    Sourced ids (host.takeOutEndedMatch stored) := by
  rw [takeOutEndedMatch]
  simp only
  rw [capture_eq]
  refine ⟨h.clean, told_capture h.told fun call hcall => ?_⟩
  rcases List.mem_append.mp hcall with hleave | hend
  · obtain ⟨body, -, hleft⟩ := List.mem_filterMap.mp hleave
    split_ifs at hleft
    cases hleft
    trivial
  · rw [List.mem_singleton.mp hend]
    trivial

theorem sourced_readied (h : Sourced ids host) (stored : BodyOrder) :
    Sourced ids (host.readied stored) := by
  obtain ⟨out, hout⟩ : ∃ out, out = if host.simulatingMatch ∧ ¬ host.match_.inMatch then
      host.takeOutEndedMatch stored else host := ⟨_, rfl⟩
  have hsourced : Sourced ids out := by
    rw [hout]
    split_ifs
    · exact sourced_takeOutEndedMatch h stored
    · exact h
  have heq : host.readied stored = { out.eraseBodies stored with match_ := out.match_.tick } := by
    rw [hout, readied, eraseBodies_eq]
  rw [heq, eraseBodies_eq]
  refine ⟨hsourced.clean, fun call hcall => ?_⟩
  refine (told_capture hsourced.told (fun call hcall => ?_) call hcall).mono
    (Match.fewer_tick out.match_).idsTaken
  obtain ⟨body, -, rfl⟩ := List.mem_map.mp hcall
  trivial

/-- A Match's start tells of the IDs its members have, and its own. -/
theorem given_began {started : ℤ} (hstarted : -2 ^ 63 ≤ started ∧ started < 2 ^ 63)
    (h : Sourced ids host) (hbegan : Began ids started host host') (hends : Enrolled ids host') :
    ∀ call ∈ host'.captured, call.Given ids host'.match_.idsTaken := by
  obtain ⟨entrants, -, hsessions, hcaptured⟩ := hbegan.captured
  rw [hcaptured, hbegan.idsTaken]
  refine told_capture (fun call hcall => (h.told call hcall).mono (Nat.le_succ _))
    fun call hcall => ?_
  rw [List.mem_singleton.mp hcall]
  refine ⟨⟨_, Nat.lt_succ_self _, rfl⟩, fun entrant hentrant => ?_, hstarted⟩
  have hin : entrant.session ∈ host'.match_.membersBySession.map (·.session) :=
    hsessions ▸ List.mem_map_of_mem hentrant
  obtain ⟨peer, hpeer⟩ := Match.mem_sessions.mp hin
  rw [← hbegan.idsTaken]
  exact hends.booked.given peer _ hpeer

theorem sourced_takeCommand (h : Sourced ids host) {input input' : TickInput} {session : SessionId}
    (htaken : host.takeCommand input session = some (input', host')) : Sourced ids host' := by
  simp only [takeCommand, Option.bind_eq_bind, Option.bind_eq_some_iff, Option.some.injEq,
    Prod.mk.injEq] at htaken
  obtain ⟨player, hplayer, entity, -, -, rfl⟩ := htaken
  obtain ⟨hsent, hrest⟩ := CommandQueue.clean_next (h.clean session player hplayer)
  have hclean : Clean (host.players.insert session
      { player with commands := player.commands.next.2 }) := clean_insert h.clean session hrest
  split_ifs with hhow
  · rw [capture_eq]
    refine ⟨hclean, told_capture h.told fun call hcall => ?_⟩
    rw [List.mem_singleton.mp hcall]
    exact hsent hhow
  · exact ⟨hclean, h.told⟩

theorem sourced_prepareTick (henrolled : Enrolled ids host) (hbodied : Embodied host)
    (h : Sourced ids host) {stored : BodyOrder} {assigns : Policy.MatchView → ℕ → Option (List ℕ)}
    {started : ℤ} (hstarted : -2 ^ 63 ≤ started ∧ started < 2 ^ 63) {input : TickInput}
    (hprepared : host.prepareTick ids stored assigns started = some (input, host')) :
    Sourced ids host' := by
  obtain ⟨hready, hreadyBodied, hplaying⟩ := embodied_readied henrolled hbodied stored
  obtain ⟨begun, hbegun, hends, -, -, hbegan⟩ :=
    embodied_startMatchIfReady hready hreadyBodied hplaying assigns started
  have hreadied := sourced_readied h stored
  have hsourced : Sourced ids begun := by
    refine ⟨clean_startMatchIfReady hbegun hreadied.clean, ?_⟩
    rcases hbegan with rfl | hbegan
    · exact hreadied.told
    · exact given_began hstarted hreadied hbegan hends
  rw [prepareTick_eq, hbegun, Option.bind_some] at hprepared
  have hrun : Lib.run (fun (taken : TickInput × Impl) (session : SessionId) =>
      taken.2.takeCommand taken.1 session) ({}, begun) begun.match_.playing = some (input, host') :=
    hprepared
  exact Lib.run.invariant (I := fun taken => Sourced ids taken.2)
    (fun hs hstep => sourced_takeCommand hs hstep) hsourced hrun

theorem sourced_simulate (h : Sourced ids host) (input : TickInput) (deltaTime : Lib.Binary32)
    (outside : Simulation.Outside) : Sourced ids (host.simulate input deltaTime outside).2 := by
  rw [simulate_eq]
  refine ⟨h.clean, told_capture h.told fun call hcall => ?_⟩
  obtain ⟨death, -, rfl⟩ := List.mem_map.mp hcall
  trivial

end Impl

/-- What the Link and the clock give: Commands read from some payload, a time in 64 bits. -/
def HostEvent.Received (parse : Lib.Protobuf.Bytes → Option Pb.Message) : HostEvent → Prop
  | .message _ (.commands commands) _ =>
      ∃ payload, readCommands isUtf8 parse payload = some commands
  | .goOn around => -2 ^ 63 ≤ around.started ∧ around.started < 2 ^ 63
  | _ => True

namespace Hosting
variable {ids : ℕ → SessionId} {vecLength : Math.Vec3 → Lib.Binary32}
variable {parse : Lib.Protobuf.Bytes → Option Pb.Message}

theorem sourced_step (hids : Function.Injective ids) {s s' : Hosting}
    (henrolled : s.host.Enrolled ids) (hbodied : s.host.Embodied) (h : s.host.Sourced ids)
    {event : HostEvent} (hevent : event.Received parse)
    (hstep : s.step ids vecLength event = some s') : s'.host.Sourced ids := by
  have hthen {answer : Option Impl} {doing : Simulating} (hstays : Impl.Stays ids s.host answer)
      (hclean : ∀ host, answer = some host → Impl.Clean host.players)
      (hstep : (answer.map fun host => (⟨host, doing⟩ : Hosting)) = some s') :
      s'.host.Sourced ids := by
    obtain ⟨host, rfl, -, haside⟩ := hstays
    cases hstep
    exact Impl.sourced_aside h haside (hclean host rfl)
  cases event with
  | connected peer now =>
      cases hstep
      exact ⟨h.clean, h.told⟩
  | disconnected peer =>
      exact hthen (Impl.stays_handleDisconnect henrolled peer)
        (fun host hleft => Impl.clean_handleDisconnect hleft h.clean) hstep
  | message from_ said now =>
      refine hthen (Impl.stays_onMessage hids vecLength henrolled from_ said now)
        (fun host hanswer => Impl.clean_onMessage (fun commands hsaid command hin => ?_) hanswer
          h.clean) hstep
      subst hsaid
      obtain ⟨payload, hread⟩ := hevent
      exact onGrids_of_readCommands hread hin
  | finishRound now =>
      exact hthen (Impl.stays_finishRound henrolled now)
        (fun host hfinished => Impl.clean_finishRound hfinished h.clean) hstep
  | endMatch =>
      exact hthen (Impl.stays_endMatch henrolled none)
        (fun host hended => Impl.clean_endMatch hended h.clean) hstep
  | goOn around =>
      simp only [step] at hstep
      cases hdoing : s.doing with
      | between =>
          rw [hdoing] at hstep
          obtain ⟨⟨input, host⟩, hprepared, rfl⟩ := Option.map_eq_some_iff.mp hstep
          exact Impl.sourced_prepareTick henrolled hbodied h hevent hprepared
      | ticking input =>
          rw [hdoing] at hstep
          cases hstep
          exact Impl.sourced_simulate h input around.deltaTime around.outside
      | acting actions =>
          rw [hdoing] at hstep
          cases actions with
          | nil =>
              cases hstep
              exact h
          | cons action rest =>
              obtain ⟨winner⟩ := action
              exact hthen (Impl.stays_endMatch henrolled winner)
                (fun host hended => Impl.clean_endMatch hended h.clean) hstep

/-- What any run has told its Capturer came from where it should. -/
theorem sourced_run (hids : Function.Injective ids) (config : HostConfig) {events : List HostEvent}
    (hevents : ∀ event ∈ events, event.Received parse) {s : Hosting}
    (hrun : (start config).run ids vecLength events = some s) : s.host.Sourced ids := by
  induction events using List.reverseRecOn generalizing s with
  | nil =>
      cases hrun
      refine ⟨fun session player hplayer => ?_, fun call hcall => absurd hcall List.not_mem_nil⟩
      cases hplayer
  | append_singleton events event ih =>
      obtain ⟨before, hbefore, hstep⟩ := Lib.run.concat_eq_some.mp hrun
      obtain ⟨same, hsame, henrolled, hembodied⟩ := @kept_run ids vecLength hids config events
      rw [run, hbefore] at hsame
      cases hsame
      have hsourced := ih (fun event hin => hevents event (List.mem_append_left _ hin)) hbefore
      exact sourced_step hids henrolled hembodied hsourced
        (hevents event (List.mem_append_right _ List.mem_cons_self)) hstep

end Hosting
end Augusta.Host
