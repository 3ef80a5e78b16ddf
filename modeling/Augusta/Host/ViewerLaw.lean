import Augusta.Host.ReplayServer

/-! A replay server's viewers, over any run of its two threads.

      viewers    each Replay running, of a connection that is not over; at most `maxViewers`
      made       each Replay ever made: ready, and told its viewer tick after tick
      stepping   those taken for the tick: each is stepped once, none after it has ended -/

namespace Augusta.Host
open Lib (Table)
open Lib.Protobuf (Bytes)
open Capture (MatchCapture)
open Link (Outgoing)
open Protocol (EncodeError)

/-- The Replays yet to step of a tick under way. -/
def Stepping.watching : Stepping → List (PeerId × ℕ)
  | .idle => []
  | .stepping watching _ => watching

/-- A step of the Simulation thread. -/
def ReplayServerEvent.ofTick : ReplayServerEvent → Bool
  | .beginTick _ | .stepViewer _ | .endTick => true
  | _ => false

/-- Those that ended in it. -/
def Stepping.ended : Stepping → List (PeerId × ℕ)
  | .idle => []
  | .stepping _ ended => ended

namespace ReplayServer
variable {parse : Bytes → Option Protocol.Pb.CaptureRecord} {vecLength : Math.Vec3 → Lib.Binary32}
variable {config : ReplayServerConfig} {s s' s'' : ReplayServer} {peer other : PeerId} {now : ℤ}
  {events : List ReplayServerEvent}

/-! ### What the Network I/O thread leaves alone -/

/-- Of a Replay's viewer nothing is sent, and none comes; what is another's may be. -/
structure Aside (s s' : ReplayServer) : Prop where
  rate : s'.tickRateHz = s.tickRateHz
  parameters : s'.parameters = s.parameters
  client : s'.terms = s.terms
  maxViewers : s'.maxViewers = s.maxViewers
  characters : s'.characters = s.characters
  newWorld : s'.newWorld = s.newWorld
  terms : s'.catalog.terms = s.catalog.terms
  made : s'.made = s.made
  stepping : s'.stepping = s.stepping
  viewers : ∀ peer number, s'.viewers.lookup peer = some number → s.viewers.lookup peer = some number
  size : s'.viewers.size ≤ s.viewers.size
  told : ∃ sent, s'.told = s.told ++ sent ∧ ∀ told ∈ sent, told.replay = none
  failure : s'.invariantFailure = none → s.invariantFailure = none

theorem Aside.refl (s : ReplayServer) : Aside s s :=
  ⟨rfl, rfl, rfl, rfl, rfl, rfl, rfl, rfl, rfl, fun _ _ h => h, le_rfl, ⟨[], by simp, by simp⟩,
    id⟩

theorem Aside.trans (h : Aside s s') (h' : Aside s' s'') : Aside s s'' where
  rate := h'.rate.trans h.rate
  parameters := h'.parameters.trans h.parameters
  client := h'.client.trans h.client
  maxViewers := h'.maxViewers.trans h.maxViewers
  characters := h'.characters.trans h.characters
  newWorld := h'.newWorld.trans h.newWorld
  terms := h'.terms.trans h.terms
  made := h'.made.trans h.made
  stepping := h'.stepping.trans h.stepping
  viewers := fun peer number hviewer => h.viewers peer number (h'.viewers peer number hviewer)
  size := h'.size.trans h.size
  told := by
    obtain ⟨sent, hsent, hnone⟩ := h.told
    obtain ⟨sent', hsent', hnone'⟩ := h'.told
    refine ⟨sent ++ sent', by rw [hsent', hsent, List.append_assoc], fun told htold => ?_⟩
    rcases List.mem_append.mp htold with hin | hin
    · exact hnone told hin
    · exact hnone' told hin
  failure := fun hnone => h.failure (h'.failure hnone)

theorem aside_forget (s : ReplayServer) (peer : PeerId) : Aside s (s.forget peer) := by
  refine ⟨rfl, rfl, rfl, rfl, rfl, rfl, rfl, rfl, rfl, fun other number h => ?_,
    AList.size_erase_le _ _, ⟨[], by simp [forget], by simp⟩, id⟩
  simp only [forget, AList.lookup_erase_eq] at h
  split_ifs at h
  exact h

/-- Gate, connections and the round are no viewer's. -/
theorem aside_rest (s : ReplayServer) (gate : PeerGate) (closed connections : List PeerId)
    (pumping : Pumping) (handling : Option Handling) (now : ℤ) :
    Aside s { s with gate, closed, connections, pumping, handling, now } :=
  ⟨rfl, rfl, rfl, rfl, rfl, rfl, rfl, rfl, rfl, fun _ _ h => h, le_rfl, ⟨[], by simp, by simp⟩, id⟩

theorem aside_close (s : ReplayServer) (peer : PeerId) : Aside s (s.close peer) :=
  (aside_rest s _ _ _ _ _ _).trans (aside_forget _ peer)

/-- Once one is kept, one stays kept. -/
theorem record_none {s : ReplayServer} {error : EncodeError} :
    (s.record error).invariantFailure ≠ none := by
  rw [record]
  cases s.invariantFailure <;> simp

theorem aside_send (s : ReplayServer) (peer : PeerId) (message : Except EncodeError Outgoing) :
    Aside s (s.send peer none message) := by
  cases message with
  | ok outgoing =>
      exact ⟨rfl, rfl, rfl, rfl, rfl, rfl, rfl, rfl, rfl, fun _ _ h => h, le_rfl,
        ⟨[⟨peer, none, outgoing⟩], rfl, by simp⟩, id⟩
  | error error =>
      exact ⟨rfl, rfl, rfl, rfl, rfl, rfl, rfl, rfl, rfl, fun _ _ h => h, le_rfl,
        ⟨[], by simp [send, record], by simp⟩, fun hnone => absurd hnone record_none⟩

theorem judge_cases (s : ReplayServer) (peer : PeerId) (rejection : PeerRejection) (now : ℤ) :
    s.judge peer rejection now = { s with gate := (s.gate.judge peer rejection now).2 } ∨
      s.judge peer rejection now =
        { s with gate := (s.gate.judge peer rejection now).2 }.close peer := by
  rw [judge]
  generalize s.gate.judge peer rejection now = judged
  obtain ⟨verdict, gate⟩ := judged
  cases verdict with
  | keep => exact .inl rfl
  | disconnect => exact .inr rfl

theorem aside_judge (s : ReplayServer) (peer : PeerId) (rejection : PeerRejection) (now : ℤ) :
    Aside s (s.judge peer rejection now) := by
  have hcounted : Aside s { s with gate := (s.gate.judge peer rejection now).2 } :=
    aside_rest s _ _ _ _ _ _
  rcases judge_cases s peer rejection now with h | h
  · rw [h]
    exact hcounted
  · rw [h]
    exact hcounted.trans (aside_close _ peer)

theorem aside_refuse (s : ReplayServer) (peer : PeerId) (reason : JoinRefusal) (now : ℤ) :
    Aside s (s.refuse peer reason now) :=
  (aside_send s peer _).trans (aside_judge _ peer _ now)

theorem aside_onMessage (s : ReplayServer) (from_ : PeerId) (said : ViewerSaid) (now : ℤ) :
    Aside s (s.onMessage from_ said now) := by
  rw [onMessage]
  split_ifs
  · exact .refl s
  · cases said with
    | undecodable => exact aside_judge s from_ .undecodable now
    | debugSubscribe => exact .refl s
    | notAClientMessage => exact aside_judge s from_ .notAClientMessage now
    | replayListRequest =>
        simp only [handleMessage]
        split_ifs
        · exact aside_judge s from_ _ now
        · exact aside_rest s _ _ _ _ _ _
    | replayRequest request =>
        simp only [handleMessage, handleReplayRequest]
        split_ifs
        · exact aside_judge s from_ _ now
        · split
          · exact aside_refuse s from_ _ now
          · exact aside_rest s _ _ _ _ _ _
    | joinRequest =>
        simp only [handleMessage]
        split_ifs
        · exact aside_judge s from_ _ now
        · exact aside_refuse s from_ _ now
    | other => exact aside_judge s from_ .notAClientMessage now

theorem aside_foldl_close (peers : List PeerId) (s : ReplayServer) :
    Aside s (peers.foldl close s) := by
  induction peers generalizing s with
  | nil => exact .refl s
  | cons peer rest ih => exact (aside_close s peer).trans (ih _)

/-! ### Connections -/

/-- Nothing is kept of a connection that is over, and who sent something is connected or expelled;
    a request is answered to a connection that is not over, and has no Replay. -/
structure Linked (s : ReplayServer) : Prop where
  gone : ∀ peer ∉ s.connections, peer ∉ s.viewers ∧ ¬ s.gate.Knows peer
  batch : ∀ from_, s.pumping = .messages from_ →
    ∀ peer ∈ from_, peer ∈ s.connections ∨ peer ∈ s.gate.expelled
  asks : ∀ handling, s.handling = some handling → handling.peer ∈ s.connections ∧
    handling.peer ∉ s.viewers ∧ ∃ from_, s.pumping = .messages from_

theorem linked_send (h : Linked s) (replay : Option ℕ) (message : Except EncodeError Outgoing) :
    Linked (s.send peer replay message) := by
  cases message with
  | ok outgoing => exact ⟨h.gone, h.batch, h.asks⟩
  | error error => exact ⟨h.gone, h.batch, h.asks⟩

theorem linked_close (h : Linked s)
    (hasks : ∀ handling, s.handling = some handling → handling.peer ≠ peer) :
    Linked (s.close peer) where
  gone := by
    intro other hother
    simp only [close, forget, List.mem_filter, decide_eq_true_eq, not_and, not_not] at hother
    simp only [close, forget, AList.mem_erase, not_and_or, not_not]
    by_cases hin : other ∈ s.connections
    · obtain rfl := hother hin
      exact ⟨.inl rfl, PeerGate.not_knows_left⟩
    · obtain ⟨hviewer, hgate⟩ := h.gone other hin
      refine ⟨.inr hviewer, fun hknows => hgate (PeerGate.knows_left hknows)⟩
  batch := by
    intro from_ hpumping other hother
    simp only [close, forget, PeerGate.left, PeerGate.expel, List.mem_filter, decide_eq_true_eq,
      List.mem_cons]
    rcases h.batch from_ hpumping other hother with hin | hin
    · by_cases hsame : other = peer
      · exact .inr (.inl hsame)
      · exact .inl ⟨hin, hsame⟩
    · exact .inr (.inr hin)
  asks := by
    intro handling hhandling
    obtain ⟨hin, hviewer, hpumping⟩ := h.asks handling hhandling
    refine ⟨List.mem_filter.mpr ⟨hin, decide_eq_true (hasks handling hhandling)⟩, ?_, hpumping⟩
    simp only [close, forget, AList.mem_erase, not_and]
    exact fun _ => hviewer

theorem linked_judge (h : Linked s) (hpeer : peer ∈ s.connections) (hidle : s.handling = none)
    (rejection : PeerRejection) (now : ℤ) : Linked (s.judge peer rejection now) := by
  have hcounted : Linked { s with gate := (s.gate.judge peer rejection now).2 } := by
    refine ⟨fun other hother => ⟨(h.gone other hother).1, fun hknows => ?_⟩, h.batch, h.asks⟩
    rcases PeerGate.knows_judge hknows with rfl | hknew
    · exact hother hpeer
    · exact (h.gone other hother).2 hknew
  rcases judge_cases s peer rejection now with hjudged | hjudged
  · rw [hjudged]
    exact hcounted
  · rw [hjudged]
    exact linked_close hcounted fun handling hhandling => by cases hidle.symm.trans hhandling

theorem send_rest (s : ReplayServer) (peer : PeerId) (replay : Option ℕ)
    (message : Except EncodeError Outgoing) :
    (s.send peer replay message).connections = s.connections ∧
      (s.send peer replay message).handling = s.handling := by
  cases message with
  | ok outgoing => exact ⟨rfl, rfl⟩
  | error error => exact ⟨rfl, rfl⟩

theorem linked_refuse (h : Linked s) (hpeer : peer ∈ s.connections) (hidle : s.handling = none)
    (reason : JoinRefusal) (now : ℤ) : Linked (s.refuse peer reason now) := by
  obtain ⟨hconnections, hhandling⟩ :=
    send_rest s peer none (Link.encodeJoinRefusal (joinRefusalToLink reason))
  exact linked_judge (linked_send h _ _) (hconnections ▸ hpeer) (hhandling.trans hidle) _ now

theorem linked_handling (h : Linked s) {handling : Handling} (hpeer : handling.peer ∈ s.connections)
    (hviewer : handling.peer ∉ s.viewers) {from_ : List PeerId}
    (hpumping : s.pumping = .messages from_) : Linked { s with handling := some handling } := by
  refine ⟨h.gone, h.batch, fun asked hasked => ?_⟩
  cases hasked
  exact ⟨hpeer, hviewer, from_, hpumping⟩

theorem linked_onMessage (h : Linked s) {from_ : PeerId} {batch : List PeerId}
    (hpumping : s.pumping = .messages batch) (hfrom : from_ ∈ batch) (hidle : s.handling = none)
    (said : ViewerSaid) (now : ℤ) : Linked (s.onMessage from_ said now) := by
  rw [onMessage]
  split_ifs with hexpelled
  · exact h
  · have hpeer : from_ ∈ s.connections := by
      rcases h.batch batch hpumping from_ hfrom with hin | hin
      · exact hin
      · rw [PeerGate.wasExpelled, List.contains_iff_mem] at hexpelled
        exact absurd hin hexpelled
    cases said with
    | undecodable => exact linked_judge h hpeer hidle .undecodable now
    | debugSubscribe => exact h
    | notAClientMessage => exact linked_judge h hpeer hidle .notAClientMessage now
    | replayListRequest =>
        simp only [handleMessage]
        split_ifs with hviewer
        · exact linked_judge h hpeer hidle .notAClientMessage now
        · exact linked_handling h hpeer hviewer hpumping
    | replayRequest request =>
        simp only [handleMessage, handleReplayRequest]
        split_ifs with hviewer
        · exact linked_judge h hpeer hidle .notAClientMessage now
        · split
          · exact linked_refuse h hpeer hidle _ now
          · exact linked_handling h hpeer hviewer hpumping
    | joinRequest =>
        simp only [handleMessage]
        split_ifs
        · exact linked_judge h hpeer hidle .notAClientMessage now
        · exact linked_refuse h hpeer hidle _ now
    | other => exact linked_judge h hpeer hidle .notAClientMessage now

theorem linked_foldl_close (peers : List PeerId) (h : Linked s) (hidle : s.handling = none) :
    Linked (peers.foldl close s) ∧ (peers.foldl close s).handling = none := by
  induction peers generalizing s with
  | nil => exact ⟨h, hidle⟩
  | cons peer rest ih =>
      exact ih (linked_close h fun handling hhandling => by cases hidle.symm.trans hhandling) hidle

theorem linked_finishRound (h : Linked s) (hidle : s.handling = none) : Linked s.finishRound := by
  rw [finishRound]
  have htaken : Linked { s with gate := (s.gate.takeOverdue s.now).2 } :=
    ⟨fun other hother => ⟨(h.gone other hother).1, fun hknows =>
      (h.gone other hother).2 (PeerGate.knows_takeOverdue hknows)⟩, h.batch, h.asks⟩
  obtain ⟨hclosed, hnone⟩ := linked_foldl_close (s.gate.takeOverdue s.now).1 htaken hidle
  refine ⟨hclosed.gone, fun from_ hpumping => ?_, fun handling hhandling => ?_⟩
  · cases hpumping
  · cases hnone.symm.trans hhandling

theorem linked_disconnected (h : Linked s) (hevents : s.pumping = .events) :
    Linked (s.handleDisconnect peer) where
  gone := by
    intro other hother
    simp only [handleDisconnect, forget, List.mem_filter, decide_eq_true_eq, not_and, not_not]
      at hother
    simp only [handleDisconnect, forget, AList.mem_erase, not_and_or, not_not]
    by_cases hin : other ∈ s.connections
    · obtain rfl := hother hin
      exact ⟨.inl rfl, PeerGate.not_knows_left⟩
    · obtain ⟨hviewer, hgate⟩ := h.gone other hin
      exact ⟨.inr hviewer, fun hknows => hgate (PeerGate.knows_left hknows)⟩
  batch := by
    intro from_ hpumping
    cases hevents.symm.trans hpumping
  asks := by
    intro handling hhandling
    obtain ⟨-, -, from_, hpumping⟩ := h.asks handling hhandling
    cases hevents.symm.trans hpumping

theorem linked_connected (h : Linked s) (hevents : s.pumping = .events) :
    Linked { s with
      gate := s.gate.connected peer s.now, connections := peer :: s.connections } where
  gone := by
    intro other hother
    simp only [List.mem_cons, not_or] at hother
    obtain ⟨hviewer, hgate⟩ := h.gone other hother.2
    refine ⟨hviewer, fun hknows => ?_⟩
    rcases PeerGate.knows_connected hknows with hsame | hold
    · exact hother.1 hsame
    · exact hgate hold
  batch := by
    intro from_ hpumping
    cases hevents.symm.trans hpumping
  asks := by
    intro handling hhandling
    obtain ⟨-, -, from_, hpumping⟩ := h.asks handling hhandling
    cases hevents.symm.trans hpumping

/-! ### What was asked -/

/-- A peer of this version and pack has asked for a capture by its name, and its handler has not
    gone on yet. -/
def Asked (terms : ClientTerms) (events : List ReplayServerEvent) (peer : PeerId)
    (name : Protocol.Text) : Prop :=
  ∃ before request between, events = before ++ .message peer (.replayRequest request) :: between ∧
    between.all ReplayServerEvent.ofTick = true ∧
    refusalOfClient request.engineVersion request.clientPack terms = none ∧ request.capture = name

/-- A peer has asked for a capture, and the directory read for it then has it by that name. -/
def Found (parse : Bytes → Option Protocol.Pb.CaptureRecord) (terms : ClientTerms)
    (replayTerms : ReplayTerms) (events : List ReplayServerEvent) (peer : PeerId)
    (name : Protocol.Text) (capture : MatchCapture) : Prop :=
  ∃ asking directory after, Asked terms asking peer name ∧
    events = asking ++ .looked directory :: after ∧
    ({ terms := replayTerms } : ReplayCatalog).find parse directory name = some capture

section
variable {terms : ClientTerms} {replayTerms : ReplayTerms} {events : List ReplayServerEvent}
  {name : Protocol.Text} {capture : MatchCapture}

theorem Asked.later (h : Asked terms events peer name) {event : ReplayServerEvent}
    (htick : event.ofTick = true) : Asked terms (events ++ [event]) peer name := by
  obtain ⟨before, request, between, rfl, hbetween, hrefusal, hname⟩ := h
  refine ⟨before, request, between ++ [event], by simp, ?_, hrefusal, hname⟩
  rw [List.all_append, hbetween]
  simpa using htick

theorem Found.later (h : Found parse terms replayTerms events peer name capture)
    (event : ReplayServerEvent) :
    Found parse terms replayTerms (events ++ [event]) peer name capture := by
  obtain ⟨asking, directory, after, hasked, rfl, hfound⟩ := h
  exact ⟨asking, directory, after ++ [event], hasked, by simp, hfound⟩

end

/-! ### Replays -/

/-- What the Replay at `number` of those made has come to: that of the capture its viewer asked for
    and was found, `ticks` on, none of them after one that ended it; and all its viewer has been
    told, which is the whole of it while nothing has failed to be encoded. -/
structure Watched (parse : Bytes → Option Protocol.Pb.CaptureRecord)
    (vecLength : Math.Vec3 → Lib.Binary32) (events : List ReplayServerEvent) (s : ReplayServer)
    (number : ℕ) (viewer : Viewer) (first : Replay) (outsides : List Simulation.Outside)
    (ticks : List ReplayTick) : Prop where
  found : Found parse s.terms s.catalog.terms events viewer.peer viewer.capture first.capture
  begun : Replay.new first.capture s.newWorld s.characters = some first
  stepped : first.ticks vecLength outsides = some (ticks, viewer.replay)
  ended : ticks.Pairwise fun tick _ => tick.end_ = none
  told : s.told.filter (fun told => decide (told.replay = some number)) =
    ((s.greetings first).filterMap Except.toOption ++ ticks.flatMap sentOf).map fun message =>
      ⟨viewer.peer, some number, message⟩
  whole : s.invariantFailure = none →
    (∀ greeting ∈ s.greetings first, ∃ message, greeting = .ok message) ∧
      ∀ tick ∈ ticks, ∃ messages, viewerMessages tick = .ok messages

/-- The viewers of a tick under way: their Replays run, and end in it or go on. -/
structure Taken (s : ReplayServer) (watching ended : List (PeerId × ℕ)) : Prop where
  nodup : ((watching ++ ended).map Prod.snd).Nodup
  yetToStep : ∀ entry ∈ watching, ∃ viewer, s.made[entry.2]? = some viewer ∧
    viewer.peer = entry.1 ∧ viewer.replay.ended = false
  stopped : ∀ entry ∈ ended, ∃ viewer, s.made[entry.2]? = some viewer ∧
    viewer.peer = entry.1 ∧ viewer.replay.ended = true
  running : ∀ peer number viewer, s.viewers.lookup peer = some number →
    s.made[number]? = some viewer → viewer.replay.ended = true → (peer, number) ∈ ended

structure Replays (parse : Bytes → Option Protocol.Pb.CaptureRecord)
    (vecLength : Math.Vec3 → Lib.Binary32) (events : List ReplayServerEvent) (s : ReplayServer) :
    Prop where
  owners : ∀ peer number, s.viewers.lookup peer = some number → ∃ viewer,
    s.made[number]? = some viewer ∧ viewer.peer = peer
  tags : ∀ told ∈ s.told, ∀ number, told.replay = some number → number < s.made.length
  tended : ∀ number viewer, s.made[number]? = some viewer → viewer.replay.Ready ∧
    ∃ first outsides ticks, Watched parse vecLength events s number viewer first outsides ticks ∧
      viewer.replay.ended = ticks.any (·.end_.isSome)
  taken : Taken s s.stepping.watching s.stepping.ended

/-- What a Replay has come to is so of a server that differs in what is not its. -/
theorem Watched.moved {number : ℕ} {viewer : Viewer} {first : Replay}
    {outsides : List Simulation.Outside} {ticks : List ReplayTick}
    (h : Watched parse vecLength events s number viewer first outsides ticks)
    (hclient : s'.terms = s.terms) (hgreetings : s'.greetings first = s.greetings first)
    (hterms : s'.catalog.terms = s.catalog.terms) (hworld : s'.newWorld = s.newWorld)
    (hcharacters : s'.characters = s.characters)
    (htold : s'.told.filter (fun told => decide (told.replay = some number)) =
      s.told.filter fun told => decide (told.replay = some number))
    (hfailure : s'.invariantFailure = none → s.invariantFailure = none) :
    Watched parse vecLength events s' number viewer first outsides ticks where
  found := by
    rw [hclient, hterms]
    exact h.found
  begun := by
    rw [hworld, hcharacters]
    exact h.begun
  stepped := h.stepped
  ended := h.ended
  told := by
    rw [hgreetings]
    exact htold.trans h.told
  whole := by
    rw [hgreetings]
    exact fun hnone => h.whole (hfailure hnone)

theorem Watched.later {number : ℕ} {viewer : Viewer} {first : Replay}
    {outsides : List Simulation.Outside} {ticks : List ReplayTick}
    (h : Watched parse vecLength events s number viewer first outsides ticks)
    (event : ReplayServerEvent) :
    Watched parse vecLength (events ++ [event]) s number viewer first outsides ticks :=
  ⟨h.found.later event, h.begun, h.stepped, h.ended, h.told, h.whole⟩

/-- Each Join of a capture is a player of its Replay, and where it was. -/
theorem length_entered {characters : Table String Prediction.Clips} {joins : List Capture.Join}
    {replay replay' : Replay}
    (h : joins.foldlM (Replay.enter characters) replay = some replay') :
    replay'.start.length = replay.start.length + joins.length ∧
      replay'.spawns.length = replay.spawns.length + joins.length := by
  induction joins generalizing replay with
  | nil =>
      cases h
      exact ⟨rfl, rfl⟩
  | cons join rest ih =>
      rw [List.foldlM_cons] at h
      obtain ⟨entered, hentered, hrest⟩ := Option.bind_eq_some_iff.mp h
      obtain ⟨clips, -, hentered⟩ := Option.bind_eq_some_iff.mp hentered
      cases hentered
      obtain ⟨hstart, hspawns⟩ := ih hrest
      simp only [List.length_append, List.length_singleton] at hstart hspawns
      simp only [List.length_cons]
      omega

/-- One of a capture of more Joins than a Match start can carry is not sent its own. -/
theorem Watched.few {number : ℕ} {viewer : Viewer} {first : Replay}
    {outsides : List Simulation.Outside} {ticks : List ReplayTick}
    (h : Watched parse vecLength events s number viewer first outsides ticks)
    (hnone : s.invariantFailure = none) :
    first.capture.joins.length ≤ Limits.kMaxPlayers := by
  obtain ⟨outgoing, hsent⟩ := (h.whole hnone).1 _ (List.mem_cons_of_mem _ List.mem_cons_self)
  have hlength := Link.length_of_encodeMatchStart hsent
  obtain ⟨hstart, hspawns⟩ := length_entered h.begun
  simp only [List.length_nil, Nat.zero_add] at hstart hspawns
  simpa [matchStartToLink, hstart, hspawns] using hlength

theorem Replays.later (h : Replays parse vecLength events s) (event : ReplayServerEvent) :
    Replays parse vecLength (events ++ [event]) s := by
  refine ⟨h.owners, h.tags, fun number viewer hviewer => ?_, h.taken⟩
  obtain ⟨hready, first, outsides, ticks, hwatched, hends⟩ := h.tended number viewer hviewer
  exact ⟨hready, first, outsides, ticks, hwatched.later event, hends⟩

theorem greetings_aside (haside : Aside s s') (replay : Replay) :
    s'.greetings replay = s.greetings replay := by
  rw [greetings, greetings, haside.rate, haside.parameters]

/-- What is sent to no viewer is no Replay's. -/
theorem filter_untagged {told sent : List ToldViewer} (hsent : ∀ told ∈ sent, told.replay = none)
    (number : ℕ) :
    (told ++ sent).filter (fun told => decide (told.replay = some number)) =
      told.filter fun told => decide (told.replay = some number) := by
  have hnone : sent.filter (fun told => decide (told.replay = some number)) = [] := by
    rw [List.filter_eq_nil_iff]
    intro told htold
    simp [hsent told htold]
  rw [List.filter_append, hnone, List.append_nil]

theorem replays_aside (h : Replays parse vecLength events s) (haside : Aside s s') :
    Replays parse vecLength events s' := by
  obtain ⟨sent, hsent, hnone⟩ := haside.told
  refine ⟨fun peer number hviewer => ?_, fun told htold number htag => ?_,
    fun number viewer hviewer => ?_, ?_⟩
  · rw [haside.made]
    exact h.owners peer number (haside.viewers peer number hviewer)
  · rw [hsent] at htold
    rw [haside.made]
    rcases List.mem_append.mp htold with hin | hin
    · exact h.tags told hin number htag
    · cases (hnone told hin).symm.trans htag
  · rw [haside.made] at hviewer
    obtain ⟨hready, first, outsides, ticks, hwatched, hends⟩ := h.tended number viewer hviewer
    refine ⟨hready, first, outsides, ticks, ?_, hends⟩
    refine hwatched.moved haside.client (greetings_aside haside first) haside.terms haside.newWorld
      haside.characters ?_ haside.failure
    rw [hsent, filter_untagged hnone]
  · rw [haside.stepping]
    refine ⟨h.taken.nodup, ?_, ?_, fun peer number viewer hviewer => ?_⟩
    · rw [haside.made]
      exact h.taken.yetToStep
    · rw [haside.made]
      exact h.taken.stopped
    · rw [haside.made]
      exact h.taken.running peer number viewer (haside.viewers peer number hviewer)

/-- A tick takes each Replay running once. -/
theorem replays_beginTick (h : Replays parse vecLength events s) (hidle : s.stepping = .idle)
    {watching : List (PeerId × ℕ)} (hwatching : watching.Perm s.viewerList) :
    Replays parse vecLength events { s with stepping := .stepping watching [] } := by
  have htaken := h.taken
  rw [hidle] at htaken
  have hviewer {entry : PeerId × ℕ} (hentry : entry ∈ s.viewerList) :
      s.viewers.lookup entry.1 = some entry.2 := by
    obtain ⟨stored, hstored, rfl⟩ := List.mem_map.mp hentry
    exact AList.mem_entries_iff.mp hstored
  refine ⟨h.owners, h.tags, fun number viewer hmade => ?_, ?_, fun entry hentry => ?_,
    fun entry hentry => ?_, htaken.running⟩
  · obtain ⟨hready, first, outsides, ticks, hwatched, hends⟩ := h.tended number viewer hmade
    exact ⟨hready, first, outsides, ticks, hwatched.moved rfl rfl rfl rfl rfl rfl id, hends⟩
  · rw [Stepping.ended, List.append_nil]
    refine ((hwatching.map Prod.snd).nodup_iff).mpr ?_
    have hnodup : s.viewerList.Nodup := by
      refine List.Nodup.of_map Prod.fst ?_
      have hkeys := s.viewers.nodupKeys
      rw [List.NodupKeys, List.keys] at hkeys
      simpa [viewerList, Function.comp_def] using hkeys
    refine hnodup.map_on fun a ha b hb hsame => Prod.ext ?_ hsame
    obtain ⟨first, hfirst, hpeer⟩ := h.owners a.1 a.2 (hviewer ha)
    obtain ⟨second, hsecond, hpeer'⟩ := h.owners b.1 b.2 (hviewer hb)
    rw [hsame, hsecond] at hfirst
    cases hfirst
    exact hpeer.symm.trans hpeer'
  · have hlookup := hviewer (hwatching.mem_iff.mp hentry)
    obtain ⟨viewer, hmade, hpeer⟩ := h.owners entry.1 entry.2 hlookup
    refine ⟨viewer, hmade, hpeer, ?_⟩
    cases hended : viewer.replay.ended with
    | false => rfl
    | true => exact absurd (htaken.running _ _ _ hlookup hmade hended) List.not_mem_nil
  · exact absurd hentry List.not_mem_nil

/-- What is sent for one Replay is no other's. -/
theorem filter_tagged (told : List ToldViewer) (peer : PeerId) (number other : ℕ)
    (messages : List Outgoing) :
    (told ++ messages.map fun message => (⟨peer, some number, message⟩ : ToldViewer)).filter
        (fun told => decide (told.replay = some other)) =
      told.filter (fun told => decide (told.replay = some other)) ++
        if number = other then messages.map fun message => ⟨peer, some number, message⟩ else [] := by
  rw [List.filter_append]
  congr 1
  split_ifs with hsame
  · rw [List.filter_eq_self]
    intro sent hsent
    obtain ⟨message, -, rfl⟩ := List.mem_map.mp hsent
    simp [hsame]
  · rw [List.filter_eq_nil_iff]
    intro sent hsent
    obtain ⟨message, -, rfl⟩ := List.mem_map.mp hsent
    simpa using hsame

/-- Of a tick all is sent that is, and whether one of its messages failed is kept. -/
theorem sendTick_eq (s : ReplayServer) (peer : PeerId) (number : ℕ) (tick : ReplayTick) :
    ∃ invariantFailure, s.sendTick peer number tick =
        { s with
          told := s.told ++ (sentOf tick).map fun message => ⟨peer, some number, message⟩
          invariantFailure } ∧
      (invariantFailure = none → s.invariantFailure = none ∧
        ∃ messages, viewerMessages tick = .ok messages) := by
  rw [sendTick, sentOf]
  cases hmessages : viewerMessages tick with
  | ok messages => exact ⟨s.invariantFailure, rfl, fun hnone => ⟨hnone, messages, rfl⟩⟩
  | error error =>
      refine ⟨_, ?_, fun hnone => absurd hnone (@record_none s error)⟩
      simp [record]

/-- So of several messages to one connection. -/
theorem sendAll_eq (s : ReplayServer) (peer : PeerId) (replay : Option ℕ)
    (messages : List (Except EncodeError Outgoing)) :
    ∃ invariantFailure, messages.foldl (fun server => server.send peer replay) s =
        { s with
          told := s.told ++ (messages.filterMap Except.toOption).map fun message =>
            ⟨peer, replay, message⟩
          invariantFailure } ∧
      (invariantFailure = none → s.invariantFailure = none ∧
        ∀ message ∈ messages, ∃ outgoing, message = .ok outgoing) := by
  induction messages generalizing s with
  | nil => exact ⟨s.invariantFailure, by simp, fun hnone => ⟨hnone, by simp⟩⟩
  | cons message rest ih =>
      obtain ⟨failure, hrest, hnone⟩ := ih (s.send peer replay message)
      refine ⟨failure, ?_, fun hfailure => ?_⟩
      · rw [List.foldl_cons, hrest]
        cases message with
        | ok outgoing => simp [send, Except.toOption]
        | error error =>
            have hnothing : (Except.error error : Except EncodeError Outgoing).toOption = none := rfl
            simp [send, record, List.filterMap_cons_none hnothing]
      · obtain ⟨hsent, hall⟩ := hnone hfailure
        cases message with
        | ok outgoing => exact ⟨hsent, List.forall_mem_cons.mpr ⟨⟨outgoing, rfl⟩, hall⟩⟩
        | error error => exact absurd hsent record_none

/-- A Replay that is yet to step of the tick: it steps, and its viewer is told of it. -/
theorem replays_stepViewer (h : Replays parse vecLength events s) {number : ℕ}
    {watching ended : List (PeerId × ℕ)}
    (hstepping : s.stepping = .stepping ((peer, number) :: watching) ended)
    (outside : Simulation.Outside) :
    ∃ ticked, s.tickViewer vecLength outside peer number = some ticked ∧
      Replays parse vecLength events { ticked.2 with
        stepping := .stepping watching (if ticked.1 then ended ++ [(peer, number)] else ended) } := by
  obtain ⟨hnodup, hyet, hstopped, hrunning⟩ := h.taken
  rw [hstepping] at hnodup hyet hstopped hrunning
  simp only [Stepping.watching, Stepping.ended, List.cons_append, List.map_cons,
    List.nodup_cons] at hnodup hyet hstopped hrunning
  obtain ⟨viewer, hmade, hpeer, hgoing⟩ := hyet (peer, number) List.mem_cons_self
  simp only at hmade hpeer
  obtain ⟨hready, first, outsides, ticks, hwatched, hends⟩ := h.tended number viewer hmade
  obtain ⟨tick, replay, hstep, hready', -, -, -, -, -, hended'⟩ :=
    @Replay.step_ready vecLength viewer.replay hready outside
  have hnumber : number < s.made.length := (List.getElem?_eq_some_iff.mp hmade).1
  -- the other Replays are as they were
  have hset (other : ℕ) : (s.made.set number { viewer with replay })[other]? =
      if number = other then some { viewer with replay } else s.made[other]? := by
    rw [List.getElem?_set]
    split_ifs
    · rfl
    · rfl
  have hother {entry : PeerId × ℕ} (hentry : entry ∈ watching ++ ended) : ¬ number = entry.2 := by
    intro hsame
    exact hnodup.1 (List.mem_map.mpr ⟨entry, hentry, hsame.symm⟩)
  obtain ⟨failure, hsent, hfailure⟩ :=
    sendTick_eq { s with made := s.made.set number { viewer with replay } } peer number tick
  refine ⟨(tick.end_.isSome, _), by
    rw [tickViewer, hmade, Option.bind_eq_bind, Option.bind_some, hstep]
    exact congrArg (fun server => some (tick.end_.isSome, server)) hsent,
    fun other number' hviewer => ?_, fun told htold number' htag => ?_,
    fun number' viewer' hviewer => ?_, ?_, fun entry hentry => ?_, fun entry hentry => ?_,
    fun other number' viewer' hlookup hviewer hover => ?_⟩
  · simp only [hset]
    obtain ⟨viewer', hmade', hpeer'⟩ := h.owners other number' hviewer
    split_ifs with hsame
    · subst hsame
      cases hmade.symm.trans hmade'
      exact ⟨_, rfl, hpeer'⟩
    · exact ⟨viewer', hmade', hpeer'⟩
  · simp only [List.length_set]
    rcases List.mem_append.mp htold with hin | hin
    · exact h.tags told hin number' htag
    · obtain ⟨message, -, rfl⟩ := List.mem_map.mp hin
      cases htag
      exact hnumber
  · simp only [hset] at hviewer
    split_ifs at hviewer with hsame
    · subst hsame
      cases hviewer
      refine ⟨hready', first, outsides ++ [outside], ticks ++ [tick], ⟨hwatched.found,
        hwatched.begun, Replay.ticks_concat hwatched.stepped hstep, ?_, ?_, fun hnone => ?_⟩, ?_⟩
      · -- it had not ended before this tick
        have hnone : ∀ before ∈ ticks, before.end_ = none := by
          intro before hbefore
          have hany := List.any_eq_false.mp (hends.symm.trans hgoing) before hbefore
          simpa using hany
        refine List.pairwise_append.mpr ⟨hwatched.ended, List.pairwise_singleton _ _, ?_⟩
        exact fun before hbefore _ _ => hnone before hbefore
      · have htold := filter_tagged s.told peer number number (sentOf tick)
        rw [if_pos rfl, hwatched.told] at htold
        refine htold.trans ?_
        rw [hpeer, ← List.map_append, List.flatMap_append, List.flatMap_singleton,
          List.append_assoc]
        rfl
      · obtain ⟨hbefore, hmessages⟩ := hfailure hnone
        obtain ⟨hgreeted, htold⟩ := hwatched.whole hbefore
        refine ⟨hgreeted, fun told hin => ?_⟩
        rcases List.mem_append.mp hin with hold | hnew
        · exact htold told hold
        · obtain rfl := List.mem_singleton.mp hnew
          exact hmessages
      · simp only [hended', List.any_append, ← hends, hgoing, List.any_cons, List.any_nil,
          Bool.or_false, Bool.false_or]
    · obtain ⟨hready, first, outsides, ticks, hwatched, hends⟩ := h.tended number' viewer' hviewer
      refine ⟨hready, first, outsides, ticks,
        hwatched.moved rfl rfl rfl rfl rfl ?_ fun hnone => (hfailure hnone).1, hends⟩
      have htold := filter_tagged s.told peer number number' (sentOf tick)
      rw [if_neg hsame, List.append_nil] at htold
      exact htold
  · simp only [Stepping.watching, Stepping.ended]
    split_ifs
    · have hperm : (watching ++ (ended ++ [(peer, number)])).Perm
          ((peer, number) :: (watching ++ ended)) := by
        rw [← List.append_assoc]
        exact List.perm_append_singleton _ _
      rw [(hperm.map Prod.snd).nodup_iff, List.map_cons]
      exact List.nodup_cons.mpr hnodup
    · exact hnodup.2
  · simp only [hset, if_neg (hother (List.mem_append_left ended hentry))]
    exact hyet entry (List.mem_cons_of_mem _ hentry)
  · simp only [Stepping.ended] at hentry
    have hbefore (hin : entry ∈ ended) : ∃ viewer',
        (s.made.set number { viewer with replay })[entry.2]? = some viewer' ∧
          viewer'.peer = entry.1 ∧ viewer'.replay.ended = true := by
      rw [hset, if_neg (hother (List.mem_append_right watching hin))]
      exact hstopped entry hin
    split_ifs at hentry with hnow
    · rcases List.mem_append.mp hentry with hin | hin
      · exact hbefore hin
      · obtain rfl := List.mem_singleton.mp hin
        refine ⟨{ viewer with replay }, ?_, hpeer, ?_⟩
        · simp only [hset, if_true]
        · exact hended'.trans hnow
    · exact hbefore hentry
  · simp only [hset] at hviewer
    simp only [Stepping.ended]
    split_ifs at hviewer with hsame
    · subst hsame
      cases hviewer
      obtain ⟨owner, howner, hthis⟩ := h.owners other number hlookup
      cases hmade.symm.trans howner
      rw [hended'] at hover
      rw [if_pos hover, ← hpeer, ← hthis]
      exact List.mem_append_right _ (List.mem_singleton_self _)
    · have hin := hrunning other number' viewer' hlookup hviewer hover
      split_ifs
      · exact List.mem_append_left _ hin
      · exact hin

/-! ### The end of a tick -/

theorem closeEnded_cons (s : ReplayServer) (peer : PeerId) (number : ℕ)
    (ended : List (PeerId × ℕ)) : s.closeEnded ((peer, number) :: ended) =
      (if s.viewers.lookup peer = some number then s.close peer else s).closeEnded ended := rfl

/-- Whoever's Replay ended is closed, unless the connection is another's by now. -/
structure Closed (s : ReplayServer) (ended : List (PeerId × ℕ)) (s' : ReplayServer) : Prop where
  aside : Aside s s'
  linked : Linked s'
  handling : s'.handling = s.handling
  gone : ∀ entry ∈ ended, s'.viewers.lookup entry.1 ≠ some entry.2
  closed : ∃ closings, s'.closed = s.closed ++ closings ∧ ∀ peer, peer ∈ closings ↔
    ∃ number, s.viewers.lookup peer = some number ∧ (peer, number) ∈ ended

theorem closed_closeEnded (h : Linked s) (ended : List (PeerId × ℕ)) :
    Closed s ended (s.closeEnded ended) := by
  induction ended generalizing s with
  | nil => exact ⟨.refl s, h, rfl, by simp, [], by simp [closeEnded], by simp⟩
  | cons entry rest ih =>
      obtain ⟨peer, number⟩ := entry
      rw [closeEnded_cons]
      by_cases hviewer : s.viewers.lookup peer = some number
      · rw [if_pos hviewer]
        have hlinked : Linked (s.close peer) := by
          refine linked_close h fun handling hhandling hsame => ?_
          refine (h.asks handling hhandling).2.1 (AList.mem_iff_lookup.mpr ⟨number, ?_⟩)
          rw [hsame]
          exact hviewer
        obtain ⟨haside, hlinked', hhandling, hgone, closings, hclosed, hclosings⟩ := ih hlinked
        have hlookup (other : PeerId) (held : ℕ) : (s.close peer).viewers.lookup other = some held ↔
            other ≠ peer ∧ s.viewers.lookup other = some held := by
          simp only [close, forget, AList.lookup_erase_eq]
          split_ifs with hsame
          · simp [hsame]
          · simp [hsame]
        refine ⟨(aside_close s peer).trans haside, hlinked', hhandling, fun other hother => ?_,
          peer :: closings, ?_, fun other => ?_⟩
        · rcases List.mem_cons.mp hother with rfl | hlater
          · intro hstill
            exact ((hlookup _ _).mp (haside.viewers _ _ hstill)).1 rfl
          · exact hgone other hlater
        · rw [hclosed]
          simp [close, forget]
        · rw [List.mem_cons, hclosings]
          constructor
          · rintro (rfl | ⟨held, hheld, hin⟩)
            · exact ⟨number, hviewer, List.mem_cons_self⟩
            · exact ⟨held, ((hlookup _ _).mp hheld).2, List.mem_cons_of_mem _ hin⟩
          · rintro ⟨held, hheld, hin⟩
            by_cases hsame : other = peer
            · exact .inl hsame
            · rcases List.mem_cons.mp hin with heq | hlater
              · exact absurd (congrArg Prod.fst heq) hsame
              · exact .inr ⟨held, (hlookup _ _).mpr ⟨hsame, hheld⟩, hlater⟩
      · rw [if_neg hviewer]
        obtain ⟨haside, hlinked', hhandling, hgone, closings, hclosed, hclosings⟩ := ih h
        refine ⟨haside, hlinked', hhandling, fun other hother => ?_, closings, hclosed,
          fun other => ?_⟩
        · rcases List.mem_cons.mp hother with rfl | hlater
          · exact fun hstill => hviewer (haside.viewers _ _ hstill)
          · exact hgone other hlater
        · rw [hclosings]
          refine exists_congr fun held => and_congr_right fun hheld => ?_
          rw [List.mem_cons]
          refine ⟨.inr, ?_⟩
          rintro (heq | hlater)
          · cases heq
            exact absurd hheld hviewer
          · exact hlater

/-- After a tick no Replay that has ended is a viewer's. -/
theorem replays_endTick (h : Replays parse vecLength events s) (hlinked : Linked s)
    {ended : List (PeerId × ℕ)} (hstepping : s.stepping = .stepping [] ended) :
    Replays parse vecLength events { s.closeEnded ended with stepping := .idle } := by
  obtain ⟨haside, -, -, hgone, -⟩ := closed_closeEnded hlinked ended
  have hreplays := replays_aside h haside
  have hrunning := h.taken.running
  rw [hstepping] at hrunning
  refine ⟨hreplays.owners, hreplays.tags, fun number viewer hmade => ?_, List.nodup_nil,
    fun entry hentry => absurd hentry List.not_mem_nil,
    fun entry hentry => absurd hentry List.not_mem_nil,
    fun peer number viewer hlookup hmade hover => ?_⟩
  · obtain ⟨hready, first, outsides, ticks, hwatched, hends⟩ := hreplays.tended number viewer hmade
    exact ⟨hready, first, outsides, ticks, hwatched.moved rfl rfl rfl rfl rfl rfl id, hends⟩
  · have hmade' : s.made[number]? = some viewer := by
      rw [← haside.made]
      exact hmade
    exact absurd hlookup (hgone _ (hrunning peer number viewer (haside.viewers _ _ hlookup) hmade'
      hover))

/-! ### A new viewer -/

/-- The Replay built for a capture found: it begins, its viewer told so first. -/
theorem replays_built (h : Replays parse vecLength events s) (hviewer : peer ∉ s.viewers)
    {name : Protocol.Text} {capture : MatchCapture} {first : Replay}
    {invariantFailure : Option EncodeError}
    (hfound : Found parse s.terms s.catalog.terms events peer name capture)
    (hbegun : Replay.new capture s.newWorld s.characters = some first) (hready : first.Ready)
    (hcapture : first.capture = capture) (hgoing : first.ended = false)
    (hfailure : invariantFailure = none → s.invariantFailure = none ∧
      ∀ greeting ∈ s.greetings first, ∃ message, greeting = .ok message) :
    Replays parse vecLength events { s with
      handling := none
      gate := s.gate.admitted peer
      told := s.told ++ ((s.greetings first).filterMap Except.toOption).map fun message =>
        ⟨peer, some s.made.length, message⟩
      invariantFailure
      viewers := s.viewers.emplace peer s.made.length
      made := s.made ++ [⟨peer, name, first⟩] } := by
  have hlookup (other : PeerId) : (s.viewers.emplace peer s.made.length).lookup other =
      if other = peer then some s.made.length else s.viewers.lookup other := by
    rw [AList.emplace, if_neg hviewer, AList.lookup_insert_eq]
  have hold {number : ℕ} {viewer : Viewer} (hmade : s.made[number]? = some viewer) :
      (s.made ++ [⟨peer, name, first⟩])[number]? = some viewer := by
    rw [List.getElem?_append_left (List.getElem?_eq_some_iff.mp hmade).1]
    exact hmade
  have hcases {number : ℕ} {viewer : Viewer}
      (hmade : (s.made ++ [⟨peer, name, first⟩])[number]? = some viewer) :
      s.made[number]? = some viewer ∨ number = s.made.length ∧ viewer = ⟨peer, name, first⟩ := by
    rw [List.getElem?_append] at hmade
    split_ifs at hmade with hless
    · exact .inl hmade
    · obtain ⟨hzero, hsame⟩ := List.getElem?_eq_some_iff.mp hmade
      simp only [List.length_singleton] at hzero
      have hnumber : number = s.made.length := by omega
      subst hnumber
      simp only [Nat.sub_self, List.getElem_cons_zero] at hsame
      exact .inr ⟨rfl, hsame.symm⟩
  have htold (number : ℕ) := filter_tagged s.told peer s.made.length number
    ((s.greetings first).filterMap Except.toOption)
  refine ⟨fun other number hheld => ?_, fun told htold number htag => ?_,
    fun number viewer hmade => ?_, h.taken.nodup, fun entry hentry => ?_, fun entry hentry => ?_,
    fun other number viewer hheld hmade hover => ?_⟩
  · simp only [hlookup] at hheld
    split_ifs at hheld with hsame
    · cases hheld
      exact ⟨⟨peer, name, first⟩, List.getElem?_concat_length, hsame.symm⟩
    · obtain ⟨viewer, hmade, hpeer⟩ := h.owners other number hheld
      exact ⟨viewer, hold hmade, hpeer⟩
  · simp only [List.length_append, List.length_singleton]
    rcases List.mem_append.mp htold with hin | hin
    · exact Nat.lt_succ_of_lt (h.tags told hin number htag)
    · obtain ⟨message, -, rfl⟩ := List.mem_map.mp hin
      cases htag
      exact Nat.lt_succ_self _
  · rcases hcases hmade with hmade | ⟨rfl, rfl⟩
    · obtain ⟨hready, begun, outsides, ticks, hwatched, hends⟩ := h.tended number viewer hmade
      have hnumber : ¬ s.made.length = number :=
        fun hsame => by
          have hless := (List.getElem?_eq_some_iff.mp hmade).1
          omega
      refine ⟨hready, begun, outsides, ticks,
        hwatched.moved rfl rfl rfl rfl rfl ?_ fun hnone => (hfailure hnone).1, hends⟩
      refine (htold number).trans ?_
      rw [if_neg hnumber, List.append_nil]
    · refine ⟨hready, first, [], [], ⟨?_, ?_, rfl, List.Pairwise.nil, ?_,
        fun hnone => ⟨(hfailure hnone).2, by simp⟩⟩, hgoing⟩
      · rw [hcapture]
        exact hfound
      · rw [hcapture]
        exact hbegun
      · refine (htold s.made.length).trans ?_
        have hnone : s.told.filter (fun told => decide (told.replay = some s.made.length)) = [] := by
          rw [List.filter_eq_nil_iff]
          intro told hin
          simp only [decide_eq_true_eq]
          exact fun htag => absurd (h.tags told hin _ htag) (Nat.lt_irrefl _)
        rw [if_pos rfl, hnone, List.flatMap_nil, List.append_nil]
        rfl
  · obtain ⟨viewer, hmade, hrest⟩ := h.taken.yetToStep entry hentry
    exact ⟨viewer, hold hmade, hrest⟩
  · obtain ⟨viewer, hmade, hrest⟩ := h.taken.stopped entry hentry
    exact ⟨viewer, hold hmade, hrest⟩
  · rcases hcases hmade with hmade | ⟨rfl, rfl⟩
    · simp only [hlookup] at hheld
      split_ifs at hheld
      · cases hheld
        have hless := (List.getElem?_eq_some_iff.mp hmade).1
        omega
      · exact h.taken.running other number viewer hheld hmade hover
    · cases hgoing.symm.trans hover

/-! ### Its steps -/

/-- Whoever's request is being handled asked for it; and there is room for the Replay being built,
    of a capture found. -/
structure Handled (parse : Bytes → Option Protocol.Pb.CaptureRecord)
    (events : List ReplayServerEvent) (s : ReplayServer) : Prop where
  finding : ∀ peer name, s.handling = some (.finding peer name) → Asked s.terms events peer name
  building : ∀ peer name capture, s.handling = some (.building peer name capture) →
    s.viewers.size < s.maxViewers ∧
      Found parse s.terms s.catalog.terms events peer name capture

theorem handled_idle (h : s.handling = none) : Handled parse events s where
  finding := by
    intro peer name hhandling
    cases h.symm.trans hhandling
  building := by
    intro peer name capture hhandling
    cases h.symm.trans hhandling

/-- The Simulation thread's steps are between. -/
theorem Handled.tick (h : Handled parse events s) (haside : Aside s s')
    (hhandling : s'.handling = s.handling) {event : ReplayServerEvent}
    (htick : event.ofTick = true) : Handled parse (events ++ [event]) s' where
  finding := by
    intro peer name hfinding
    rw [haside.client]
    exact (h.finding peer name (hhandling ▸ hfinding)).later htick
  building := by
    intro peer name capture hbuilding
    obtain ⟨hroom, hfound⟩ := h.building peer name capture (hhandling ▸ hbuilding)
    rw [haside.client, haside.terms, haside.maxViewers]
    exact ⟨lt_of_le_of_lt haside.size hroom, hfound.later event⟩

/-- What it was built with. -/
structure Configured (config : ReplayServerConfig) (s : ReplayServer) : Prop where
  rate : s.tickRateHz = config.tickRateHz
  parameters : s.parameters = config.parameters
  maxViewers : s.maxViewers = config.maxViewers
  client : s.terms = { engineVersion := config.engineVersion, clientPack := config.clientPack }
  terms : s.catalog.terms =
    ⟨config.serverPack, config.tickRateHz, config.characters.map (·.1)⟩
  characters : s.characters = charactersToSimulation config.characters
  newWorld : s.newWorld = { parameters := config.parameters, collision := config.collision }

theorem Configured.moved (h : Configured config s) (hrate : s'.tickRateHz = s.tickRateHz)
    (hparameters : s'.parameters = s.parameters) (hmaxViewers : s'.maxViewers = s.maxViewers)
    (hclient : s'.terms = s.terms) (hterms : s'.catalog.terms = s.catalog.terms)
    (hcharacters : s'.characters = s.characters) (hworld : s'.newWorld = s.newWorld) :
    Configured config s' :=
  ⟨hrate.trans h.rate, hparameters.trans h.parameters, hmaxViewers.trans h.maxViewers,
    hclient.trans h.client, hterms.trans h.terms, hcharacters.trans h.characters,
    hworld.trans h.newWorld⟩

/-- Every Character it takes captures of is one of its own. -/
theorem Configured.known (h : Configured config s) :
    ∀ character ∈ s.catalog.terms.characters, character ∈ s.characters := by
  rw [h.terms, h.characters]
  exact fun character hcharacter => mem_charactersToSimulation.mpr hcharacter

structure Kept (config : ReplayServerConfig) (parse : Bytes → Option Protocol.Pb.CaptureRecord)
    (vecLength : Math.Vec3 → Lib.Binary32) (events : List ReplayServerEvent) (s : ReplayServer) :
    Prop extends Linked s, Replays parse vecLength events s, Handled parse events s where
  configured : Configured config s
  count : s.viewers.size ≤ s.maxViewers

/-- A step that leaves the viewers alone. -/
theorem kept_aside (h : Kept config parse vecLength events s) (event : ReplayServerEvent)
    (haside : Aside s s') (hlinked : Linked s') (hhandled : Handled parse (events ++ [event]) s') :
    Kept config parse vecLength (events ++ [event]) s' where
  toLinked := hlinked
  toReplays := replays_aside (h.toReplays.later event) haside
  toHandled := hhandled
  configured := h.configured.moved haside.rate haside.parameters haside.maxViewers haside.client
    haside.terms haside.characters haside.newWorld
  count := by
    rw [haside.maxViewers]
    exact haside.size.trans h.count

/-- One that is in no handler. -/
theorem kept_unhandled (h : Kept config parse vecLength events s) (event : ReplayServerEvent)
    (haside : Aside s s') (hlinked : Linked s') (hidle : s'.handling = none) :
    Kept config parse vecLength (events ++ [event]) s' :=
  kept_aside h event haside hlinked (handled_idle hidle)

theorem handling_judge (s : ReplayServer) (peer : PeerId) (rejection : PeerRejection) (now : ℤ) :
    (s.judge peer rejection now).handling = s.handling := by
  rcases judge_cases s peer rejection now with h | h
  · rw [h]
  · rw [h]
    rfl

theorem handling_refuse (s : ReplayServer) (peer : PeerId) (reason : JoinRefusal) (now : ℤ) :
    (s.refuse peer reason now).handling = s.handling :=
  (handling_judge _ peer .joinRefused now).trans (send_rest s peer none _).2

/-- A message starts nothing being built, and only what it asks for being found. -/
theorem handling_onMessage (s : ReplayServer) (from_ : PeerId) (said : ViewerSaid) (now : ℤ)
    (hidle : s.handling = none) :
    (s.onMessage from_ said now).handling = none ∨
      (s.onMessage from_ said now).handling = some (.listing from_) ∨
      ∃ request, said = .replayRequest request ∧
        refusalOfClient request.engineVersion request.clientPack s.terms = none ∧
        (s.onMessage from_ said now).handling = some (.finding from_ request.capture) := by
  have hjudged (rejection : PeerRejection) : (s.judge from_ rejection now).handling = none :=
    (handling_judge s from_ rejection now).trans hidle
  rw [onMessage]
  split_ifs
  · exact .inl hidle
  · cases said with
    | undecodable => exact .inl (hjudged .undecodable)
    | debugSubscribe => exact .inl hidle
    | notAClientMessage => exact .inl (hjudged .notAClientMessage)
    | replayListRequest =>
        simp only [handleMessage]
        split_ifs
        · exact .inl (hjudged .notAClientMessage)
        · exact .inr (.inl rfl)
    | replayRequest request =>
        simp only [handleMessage, handleReplayRequest]
        split_ifs
        · exact .inl (hjudged .notAClientMessage)
        · cases hrefusal : refusalOfClient request.engineVersion request.clientPack s.terms with
          | some refusal => exact .inl ((handling_refuse s from_ refusal now).trans hidle)
          | none => exact .inr (.inr ⟨request, rfl, hrefusal, rfl⟩)
    | joinRequest =>
        simp only [handleMessage]
        split_ifs
        · exact .inl (hjudged .notAClientMessage)
        · exact .inl ((handling_refuse s from_ .replayServer now).trans hidle)
    | other => exact .inl (hjudged .notAClientMessage)

/-- What a message asks for is asked for now. -/
theorem handled_onMessage (s : ReplayServer) (from_ : PeerId) (said : ViewerSaid) (now : ℤ)
    (hidle : s.handling = none) :
    Handled parse (events ++ [.message from_ said]) (s.onMessage from_ said now) := by
  rcases handling_onMessage s from_ said now hidle with hnone | hlisting |
    ⟨request, rfl, hrefusal, hfinding⟩
  · exact handled_idle hnone
  · refine ⟨fun peer name hhandling => ?_, fun peer name capture hhandling => ?_⟩
    · cases hlisting.symm.trans hhandling
    · cases hlisting.symm.trans hhandling
  · refine ⟨fun peer name hhandling => ?_, fun peer name capture hhandling => ?_⟩
    · cases hfinding.symm.trans hhandling
      rw [(aside_onMessage s from_ (.replayRequest request) now).client]
      exact ⟨events, request, [], rfl, rfl, hrefusal, rfl⟩
    · cases hfinding.symm.trans hhandling

/-- A handler goes on from its look at the directory. -/
theorem kept_onLooked (h : Kept config parse vecLength events s) {handling : Handling}
    (hhandling : s.handling = some handling) (directory : Directory)
    (hlooked : s.onLooked parse handling directory = some s') :
    Kept config parse vecLength (events ++ [.looked directory]) s' := by
  obtain ⟨hpeer, hviewer, from_, hpumping⟩ := h.asks handling hhandling
  have hwaiting : Linked { s with handling := none } :=
    ⟨h.gone, h.batch, fun _ hnone => by cases hnone⟩
  cases handling with
  | listing peer =>
      cases hlooked
      have haside : Aside s { s with
          catalog := (s.catalog.list parse directory).2, handling := none } :=
        ⟨rfl, rfl, rfl, rfl, rfl, rfl, rfl, rfl, rfl, fun _ _ h => h, le_rfl,
          ⟨[], by simp, by simp⟩, id⟩
      obtain ⟨-, hsent⟩ := send_rest { s with
        catalog := (s.catalog.list parse directory).2, handling := none } peer none
        (encodeReplayList (listedOf (s.catalog.list parse directory).1))
      refine kept_unhandled h _ ((haside.trans (aside_send _ peer _)).trans (aside_close _ peer)) ?_
        hsent
      refine linked_close (linked_send ?_ _ _) fun asked hasked => by cases hsent.symm.trans hasked
      exact ⟨h.gone, h.batch, fun _ hnone => by cases hnone⟩
  | finding peer name =>
      have hrefused (reason : JoinRefusal) : Kept config parse vecLength
          (events ++ [.looked directory])
          ({ s with handling := none }.refuse peer reason s.now) :=
        kept_unhandled h _ ((aside_rest s _ _ _ _ _ _).trans (aside_refuse _ peer _ _))
          (linked_refuse hwaiting hpeer rfl _ _) (handling_refuse _ peer _ _)
      rw [onLooked] at hlooked
      cases hfound : s.catalog.find parse directory name with
      | none =>
          simp only [hfound] at hlooked
          cases hlooked
          exact hrefused .unknownCapture
      | some capture =>
          simp only [hfound] at hlooked
          split_ifs at hlooked with hfull
          · cases hlooked
            exact hrefused .lobbyFull
          · cases hlooked
            refine kept_aside h _ (aside_rest s _ _ _ _ _ _)
              (linked_handling h.toLinked hpeer hviewer hpumping)
              ⟨fun _ _ hfinding => ?_, fun _ _ _ hbuilding => ?_⟩
            · cases hfinding
            · cases hbuilding
              -- what is kept of a file is not looked at to find it
              exact ⟨not_le.mp hfull, events, directory, [], h.finding _ _ hhandling, rfl, hfound⟩
  | building peer name capture => cases hlooked

/-- The Replay of a capture found is built, and its viewer comes. -/
theorem kept_onBuilt (h : Kept config parse vecLength events s) {peer : PeerId}
    {name : Protocol.Text} {capture : MatchCapture}
    (hhandling : s.handling = some (.building peer name capture)) :
    ∃ s', s.onBuilt (.building peer name capture) = some s' ∧
      Kept config parse vecLength (events ++ [.built]) s' := by
  obtain ⟨hpeer, hviewer, -⟩ := h.asks _ hhandling
  change peer ∈ s.connections at hpeer
  change peer ∉ s.viewers at hviewer
  obtain ⟨hroom, hfound⟩ := h.building peer name capture hhandling
  obtain ⟨-, directory, -, -, -, hread⟩ := hfound
  obtain ⟨⟨stream, hread⟩, hknown⟩ := known_of_find hread
  obtain ⟨first, hbegun, hready, hcapture, -, -, hgoing, -⟩ :=
    Replay.ready_new hread (fun join hjoin => h.configured.known _ (hknown join hjoin)) s.newWorld
  obtain ⟨failure, hsent, hfailure⟩ :=
    sendAll_eq { s with handling := none, gate := s.gate.admitted peer } peer (some s.made.length)
      (s.greetings first)
  have hreplays := replays_built (h.toReplays.later .built) hviewer
    ((h.building peer name capture hhandling).2.later .built) hbegun hready hcapture hgoing hfailure
  refine ⟨_, ?_, ⟨⟨fun other hother => ?_, ?_, ?_⟩, hreplays, handled_idle rfl,
    h.configured.moved rfl rfl rfl rfl rfl rfl rfl, ?_⟩⟩
  · rw [onBuilt, hbegun, Option.map_some]
    simp only [hsent]
  · have hne : other ≠ peer := by
      rintro rfl
      exact hother hpeer
    obtain ⟨hnone, hgate⟩ := h.gone other hother
    refine ⟨?_, fun hknows => hgate (PeerGate.knows_admitted hknows)⟩
    simp only [AList.emplace, if_neg hviewer, AList.mem_insert, not_or]
    exact ⟨hne, hnone⟩
  · exact h.batch
  · intro handling hnone
    cases hnone
  · simp only [AList.emplace, if_neg hviewer, AList.size_insert hviewer]
    exact hroom

theorem handling_foldl_close (peers : List PeerId) (s : ReplayServer) :
    (peers.foldl close s).handling = s.handling := by
  induction peers generalizing s with
  | nil => rfl
  | cons peer rest ih => exact ih _

theorem tickViewer_some {outside : Simulation.Outside} {number : ℕ} {ticked : Bool × ReplayServer}
    (h : s.tickViewer vecLength outside peer number = some ticked) :
    ∃ made told invariantFailure, ticked.2 = { s with made, told, invariantFailure } := by
  obtain ⟨viewer, -, h⟩ := Option.bind_eq_some_iff.mp h
  obtain ⟨stepped, -, h⟩ := Option.bind_eq_some_iff.mp h
  cases h
  obtain ⟨failure, hsent, -⟩ := sendTick_eq
    { s with made := s.made.set number { viewer with replay := stepped.2 } } peer number stepped.1
  exact ⟨_, _, failure, hsent⟩

/-! ### What each step can do -/

theorem message_cases {from_ : PeerId} {said : ViewerSaid}
    (hstep : s.step parse vecLength (.message from_ said) = some s') :
    ∃ batch, s.pumping = .messages batch ∧ s.handling = none ∧ from_ ∈ batch ∧
      s' = s.onMessage from_ said s.now := by
  simp only [step] at hstep
  split at hstep
  · next batch hpumping hidle =>
      split_ifs at hstep with hfrom
      cases hstep
      exact ⟨batch, hpumping, hidle, hfrom, rfl⟩
  · cases hstep

theorem finishRound_cases (hstep : s.step parse vecLength .finishRound = some s') :
    s.handling = none ∧ s' = s.finishRound := by
  simp only [step] at hstep
  split at hstep
  · next batch hpumping hidle =>
      cases hstep
      exact ⟨hidle, rfl⟩
  · cases hstep

theorem beginTick_cases {watching : List (PeerId × ℕ)}
    (hstep : s.step parse vecLength (.beginTick watching) = some s') :
    s.stepping = .idle ∧ watching.Perm s.viewerList ∧
      s' = { s with stepping := .stepping watching [] } := by
  simp only [step] at hstep
  split at hstep
  · next hidle =>
      split_ifs at hstep with hperm
      cases hstep
      exact ⟨hidle, hperm, rfl⟩
  · cases hstep

theorem stepViewer_cases {outside : Simulation.Outside}
    (hstep : s.step parse vecLength (.stepViewer outside) = some s') :
    ∃ peer number watching ended ticked,
      s.stepping = .stepping ((peer, number) :: watching) ended ∧
      s.tickViewer vecLength outside peer number = some ticked ∧
      s' = { ticked.2 with
        stepping := .stepping watching
          (if ticked.1 then ended ++ [(peer, number)] else ended) } := by
  simp only [step] at hstep
  split at hstep
  · next peer number watching ended hstepping =>
      obtain ⟨ticked, hticked, hsame⟩ := Option.map_eq_some_iff.mp hstep
      exact ⟨peer, number, watching, ended, ticked, hstepping, hticked, hsame.symm⟩
  · cases hstep

theorem endTick_cases (hstep : s.step parse vecLength .endTick = some s') :
    ∃ ended, s.stepping = .stepping [] ended ∧
      s' = { s.closeEnded ended with stepping := .idle } := by
  simp only [step] at hstep
  split at hstep
  · next ended hstepping =>
      cases hstep
      exact ⟨ended, hstepping, rfl⟩
  · cases hstep

theorem kept_step (h : Kept config parse vecLength events s) {event : ReplayServerEvent}
    (hstep : s.step parse vecLength event = some s') :
    Kept config parse vecLength (events ++ [event]) s' := by
  have hrunning {handling : Handling} (hhandling : s.handling = some handling)
      (hnot : ∀ from_, s.pumping ≠ .messages from_) : False := by
    obtain ⟨-, -, from_, hpumping⟩ := h.asks handling hhandling
    exact hnot from_ hpumping
  have hquiet (hnot : ∀ from_, s.pumping ≠ .messages from_) : s.handling = none := by
    cases hhandling : s.handling with
    | none => rfl
    | some handling => exact (hrunning hhandling hnot).elim
  cases event with
  | round now =>
      simp only [step] at hstep
      split_ifs at hstep with hready
      cases hstep
      have hidle := hquiet fun from_ hpumping => by cases hready.1.symm.trans hpumping
      refine kept_unhandled h _ (aside_rest s _ _ _ _ _ _) ⟨h.gone, fun from_ hpumping => ?_,
        fun handling hhandling => ?_⟩ hidle
      · cases hpumping
      · cases hidle.symm.trans hhandling
  | connected peer =>
      simp only [step] at hstep
      split_ifs at hstep with hready
      cases hstep
      have hidle := hquiet fun from_ hpumping => by cases hready.1.symm.trans hpumping
      exact kept_unhandled h _ (aside_rest s _ _ _ _ _ _) (linked_connected h.toLinked hready.1)
        hidle
  | disconnected peer =>
      simp only [step] at hstep
      split_ifs at hstep with hready
      cases hstep
      have hidle := hquiet fun from_ hpumping => by cases hready.symm.trans hpumping
      exact kept_unhandled h _ ((aside_rest s _ _ _ _ _ _).trans (aside_forget _ peer))
        (linked_disconnected h.toLinked hready) hidle
  | received from_ =>
      simp only [step] at hstep
      split_ifs at hstep with hready
      cases hstep
      have hidle := hquiet fun from_ hpumping => by cases hready.1.symm.trans hpumping
      refine kept_unhandled h _ (aside_rest s _ _ _ _ _ _)
        ⟨h.gone, fun batch hpumping peer hpeer => ?_, fun handling hhandling => ?_⟩ hidle
      · cases hpumping
        exact .inl (List.contains_iff_mem.mp (List.all_eq_true.mp hready.2 peer hpeer))
      · cases hidle.symm.trans hhandling
  | receiveFailed =>
      simp only [step] at hstep
      split_ifs at hstep with hready
      cases hstep
      have hidle := hquiet fun from_ hpumping => by cases hready.symm.trans hpumping
      refine kept_unhandled h _ (aside_rest s _ _ _ _ _ _) ⟨h.gone, fun from_ hpumping => ?_,
        fun handling hhandling => ?_⟩ hidle
      · cases hpumping
      · cases hidle.symm.trans hhandling
  | message from_ said =>
      obtain ⟨batch, hpumping, hidle, hfrom, rfl⟩ := message_cases hstep
      exact kept_aside h _ (aside_onMessage s from_ said _)
        (linked_onMessage h.toLinked hpumping hfrom hidle said _)
        (handled_onMessage s from_ said _ hidle)
  | looked directory =>
      obtain ⟨handling, hhandling, hlooked⟩ := Option.bind_eq_some_iff.mp hstep
      exact kept_onLooked h hhandling directory hlooked
  | built =>
      obtain ⟨handling, hhandling, hbuilt⟩ := Option.bind_eq_some_iff.mp hstep
      cases handling with
      | building peer name capture =>
          obtain ⟨last, hlast, hkept⟩ := kept_onBuilt h hhandling
          cases hbuilt.symm.trans hlast
          exact hkept
      | _ => cases hbuilt
  | finishRound =>
      obtain ⟨hidle, rfl⟩ := finishRound_cases hstep
      refine kept_unhandled h _ ?_ (linked_finishRound h.toLinked hidle) ?_
      · exact ((aside_rest s _ _ _ _ _ _).trans (aside_foldl_close _ _)).trans
          (aside_rest _ _ _ _ _ _ _)
      · exact (handling_foldl_close _ _).trans hidle
  | beginTick watching =>
      obtain ⟨hidle, hperm, rfl⟩ := beginTick_cases hstep
      have hhandled : Handled parse (events ++ [.beginTick watching]) s :=
        h.toHandled.tick (.refl s) rfl rfl
      exact ⟨⟨h.gone, h.batch, h.asks⟩, replays_beginTick (h.toReplays.later _) hidle hperm,
        ⟨hhandled.finding, hhandled.building⟩, h.configured.moved rfl rfl rfl rfl rfl rfl rfl,
        h.count⟩
  | stepViewer outside =>
      obtain ⟨peer, number, watching, ended, ticked, hstepping, hticked, rfl⟩ :=
        stepViewer_cases hstep
      obtain ⟨last, hlast, hreplays⟩ :=
        replays_stepViewer (h.toReplays.later (.stepViewer outside)) hstepping outside
      cases hticked.symm.trans hlast
      obtain ⟨made, told, failure, hsame⟩ := tickViewer_some hticked
      have hhandled : Handled parse (events ++ [.stepViewer outside]) s :=
        h.toHandled.tick (.refl s) rfl rfl
      rw [hsame] at hreplays ⊢
      exact ⟨⟨h.gone, h.batch, h.asks⟩, hreplays, ⟨hhandled.finding, hhandled.building⟩,
        h.configured.moved rfl rfl rfl rfl rfl rfl rfl, h.count⟩
  | endTick =>
      obtain ⟨ended, hstepping, rfl⟩ := endTick_cases hstep
      obtain ⟨haside, hlinked, hhandling, -, -⟩ := closed_closeEnded h.toLinked ended
      have hreplays := replays_endTick (h.toReplays.later .endTick) h.toLinked hstepping
      have hkept := kept_aside h .endTick haside hlinked (h.toHandled.tick haside hhandling rfl)
      exact ⟨⟨hlinked.gone, hlinked.batch, hlinked.asks⟩, hreplays,
        ⟨hkept.finding, hkept.building⟩, hkept.configured.moved rfl rfl rfl rfl rfl rfl rfl,
        hkept.count⟩

theorem kept_start (config : ReplayServerConfig) (now : ℤ) :
    Kept config parse vecLength [] (start config now) where
  gone := by
    intro peer _
    refine ⟨AList.notMem_empty peer, ?_⟩
    rintro (h | h)
    · exact AList.notMem_empty peer h
    · exact AList.notMem_empty peer h
  batch := by
    intro from_ hpumping
    cases hpumping
  asks := by
    intro handling hhandling
    cases hhandling
  owners := by
    intro peer number hviewer
    cases hviewer
  tags := by
    intro told htold
    cases htold
  tended := by
    intro number viewer hmade
    cases hmade
  taken := by
    refine ⟨List.nodup_nil, fun entry hentry => ?_, fun entry hentry => ?_,
      fun peer number viewer hviewer => ?_⟩
    · cases hentry
    · cases hentry
    · cases hviewer
  configured := ⟨rfl, rfl, rfl, rfl, rfl, rfl, rfl⟩
  count := Nat.zero_le _
  finding := by
    intro peer name hhandling
    cases hhandling
  building := by
    intro peer name capture hhandling
    cases hhandling

/-- What is kept holds of every run. -/
theorem kept_run {now : ℤ} (hrun : (start config now).run parse vecLength events = some s) :
    Kept config parse vecLength events s := by
  induction events using List.reverseRecOn generalizing s with
  | nil =>
      cases hrun
      exact kept_start config now
  | append_singleton events event ih =>
      obtain ⟨before, hbefore, hstep⟩ := Lib.run.concat_eq_some.mp hrun
      exact kept_step (ih hbefore) hstep

/-! ### The law -/

/-- CORRECT: whatever peers ask in whatever rounds, and wherever the steps of a tick come between:
    no more Replays run than may; each made is of a capture its viewer asked for, as the directory
    read then had it by that name, stepped from its first tick, never after one that ended it, and
    its viewer told so, then tick after tick, all but what cannot be encoded, as the Match start of
    a capture of too many Joins; of a connection that is over nothing is kept; no lookup fails; and
    a tick's end closes just those whose own Replay ended. -/
theorem viewer_law (config : ReplayServerConfig) (now : ℤ) (events : List ReplayServerEvent)
    (hrun : (start config now).run parse vecLength events = some s) :
    Configured config s ∧ s.viewers.size ≤ config.maxViewers ∧
    (∀ number viewer, s.made[number]? = some viewer →
      ∃ first outsides ticks, Watched parse vecLength events s number viewer first outsides ticks ∧
        (s.invariantFailure = none → first.capture.joins.length ≤ Limits.kMaxPlayers)) ∧
    (∀ peer number, s.viewers.lookup peer = some number → peer ∈ s.connections ∧
      ∃ viewer, s.made[number]? = some viewer ∧ viewer.peer = peer) ∧
    (∀ peer ∉ s.connections, peer ∉ s.viewers ∧ ¬ s.gate.Knows peer) ∧
    (∀ peer name capture, s.handling = some (.building peer name capture) →
      (s.step parse vecLength .built).isSome = true) ∧
    (∀ entry watching ended outside, s.stepping = .stepping (entry :: watching) ended →
      (s.step parse vecLength (.stepViewer outside)).isSome = true) ∧
    ∀ s', s.step parse vecLength .endTick = some s' → ∃ closings,
      s'.closed = s.closed ++ closings ∧ ∀ peer, peer ∈ closings ↔ ∃ number viewer,
        s.viewers.lookup peer = some number ∧ s.made[number]? = some viewer ∧
          viewer.replay.ended = true := by
  have h : Kept config parse vecLength events s := kept_run hrun
  refine ⟨h.configured, h.configured.maxViewers ▸ h.count, fun number viewer hmade => ?_,
    fun peer number hviewer => ⟨?_, ?_⟩, h.gone, fun peer name capture hhandling => ?_,
    fun entry watching ended outside hstepping => ?_, fun s' hstep => ?_⟩
  · obtain ⟨-, first, outsides, ticks, hwatched, -⟩ := h.tended number viewer hmade
    exact ⟨first, outsides, ticks, hwatched, hwatched.few⟩
  · by_contra hout
    exact (h.gone peer hout).1 (AList.mem_iff_lookup.mpr ⟨number, hviewer⟩)
  · exact h.owners peer number hviewer
  · obtain ⟨last, hlast, -⟩ := kept_onBuilt h hhandling
    simp only [step, hhandling, Option.bind_some, hlast, Option.isSome_some]
  · obtain ⟨peer, number⟩ := entry
    obtain ⟨ticked, hticked, -⟩ := replays_stepViewer h.toReplays hstepping outside
    simp only [step, hstepping, hticked, Option.map_some, Option.isSome_some]
  · obtain ⟨ended, hstepping, rfl⟩ := endTick_cases hstep
    obtain ⟨-, -, -, -, closings, hclosed, hclosings⟩ := closed_closeEnded h.toLinked ended
    have htaken := h.taken
    rw [hstepping] at htaken
    refine ⟨closings, hclosed, fun peer => ?_⟩
    rw [hclosings]
    constructor
    · rintro ⟨number, hviewer, hin⟩
      obtain ⟨viewer, hmade, -, hended⟩ := htaken.stopped _ hin
      exact ⟨number, viewer, hviewer, hmade, hended⟩
    · rintro ⟨number, viewer, hviewer, hmade, hended⟩
      exact ⟨number, hviewer, htaken.running peer number viewer hviewer hmade hended⟩

/-! One who watches to the end, and one there is no room for. -/

def soloServer : ReplayServerConfig where
  tickRateHz := 0
  parameters := Simulation.duelWorld.parameters
  engineVersion := "1"
  clientPack := Vector.replicate 32 0
  serverPack := Vector.replicate 32 0
  collision := Simulation.duelWorld.collision
  characters := [("", { strideLength := fun _ _ _ => .one, transitions := {} })]
  maxViewers := 1

def soloRequest : ViewerSaid := .replayRequest ⟨"1", Vector.replicate 32 0, captureName⟩

def soloTick : List ReplayServerEvent :=
  [.beginTick [(1, 0)], .stepViewer Simulation.duelGround, .endTick]

def soloViewing : List ReplayServerEvent :=
  [.round 0, .connected 1, .connected 2, .received [1, 2], .message 1 soloRequest,
    .looked (oneFile wholeFile), .built, .beginTick [(1, 0)], .message 2 soloRequest,
    .stepViewer Simulation.duelGround, .looked (oneFile wholeFile), .endTick, .finishRound] ++
    soloTick ++ soloTick ++ soloTick

set_option synthInstance.maxSize 256 in
theorem viewer_law_solo : ∃ s viewer first outsides ticks,
    (start soloServer 0).run Replay.parseNumbered (fun _ => .zero) soloViewing = some s ∧
      s.closed = [1] ∧ s.connections = [2] ∧ (1 : PeerId) ∉ s.viewers ∧ ¬ s.gate.Knows 1 ∧
      s.made[0]? = some viewer ∧ viewer.peer = 1 ∧ viewer.capture = captureName ∧
      Watched Replay.parseNumbered (fun _ => .zero) soloViewing s 0 viewer first outsides ticks ∧
      s.invariantFailure = none := by
  have hends : ((start soloServer 0).run Replay.parseNumbered (fun _ => .zero) soloViewing).map
      (fun s => (s.closed, s.connections, s.made.map fun viewer => (viewer.peer, viewer.capture),
        s.invariantFailure.isNone)) =
      some ([1], [2], [(1, captureName)], true) := by
    decide +kernel
  obtain ⟨s, hrun, hends⟩ := Option.map_eq_some_iff.mp hends
  simp only [Prod.mk.injEq] at hends
  obtain ⟨hclosed, hconnections, hmade, hfailure⟩ := hends
  obtain ⟨-, -, hwatched, -, hgone, -⟩ :=
    @viewer_law Replay.parseNumbered (fun _ => .zero) s soloServer 0 soloViewing hrun
  obtain ⟨viewer, hviewer, hnamed⟩ := List.map_eq_singleton_iff.mp hmade
  obtain ⟨hpeer, hcapture⟩ := Prod.mk.inj hnamed
  have hmade : s.made[0]? = some viewer := by rw [hviewer]; rfl
  obtain ⟨first, outsides, ticks, hwatched, -⟩ := hwatched 0 viewer hmade
  have hout : (1 : PeerId) ∉ s.connections := by
    rw [hconnections]
    decide
  obtain ⟨hnone, hknows⟩ := hgone 1 hout
  exact ⟨s, viewer, first, outsides, ticks, hrun, hclosed, hconnections, hnone, hknows, hmade,
    hpeer, hcapture, hwatched, Option.isNone_iff_eq_none.mp hfailure⟩

end ReplayServer
end Augusta.Host
