import Augusta.Host.HostLaw

/-! `augusta::host::PumpPeers`: a live server's rounds of Network I/O, with steps of its Simulation
    thread between any two holds of the lock.

      waiting ── round ──▶ events ── received ──▶ messages ── finishRound ──▶ waiting
                           connected              message
                           disconnected ── receiveFailed ──▶ stopped

    The transport has messages only of connections that are not over: one is over once its departure
    has been reported, or this side has closed it. -/

namespace Augusta.Host
open Lib (Table)

/-- Where the Network I/O thread is in its round. -/
inductive Pumping
  | waiting
  | events
  /-- It has received messages from these. -/
  | messages (from_ : List PeerId)
  /-- A failure to receive ended the last round. -/
  | stopped
  deriving DecidableEq

structure Served where
  hosting : Hosting
  pumping : Pumping := .waiting
  /-- The time of the round. -/
  now : ℤ
  /-- When each connection that is not over was accepted. -/
  connections : Table PeerId ℤ := ∅

inductive RoundEvent
  | round (now : ℤ)
  | connected (peer : PeerId)
  | disconnected (peer : PeerId)
  | received (from_ : List PeerId)
  | receiveFailed
  | message (from_ : PeerId) (said : PeerSaid)
  | finishRound
  /-- The Simulation thread goes on with its tick. -/
  | goOn (around : Around)
  | endMatch

namespace Served
variable (ids : ℕ → SessionId) (vecLength : Math.Vec3 → Lib.Binary32)

/-- Without the connections this side has closed on the way to `hosting`. -/
def closing (s : Served) (hosting : Hosting) : Served :=
  { s with
    hosting
    connections := s.connections.filter fun peer _ =>
      !(hosting.host.closed.drop s.hosting.host.closed.length).contains peer }

def step (s : Served) : RoundEvent → Option Served
  | .round now =>
      if s.pumping = .waiting ∧ s.now ≤ now then some { s with pumping := .events, now } else none
  | .connected peer =>
      if s.pumping = .events ∧ peer ∉ s.connections then
        (s.hosting.step ids vecLength (.connected peer s.now)).map fun hosting =>
          { s with hosting, connections := s.connections.insert peer s.now }
      else none
  | .disconnected peer =>
      if s.pumping = .events then
        (s.hosting.step ids vecLength (.disconnected peer)).map fun hosting =>
          { s with hosting, connections := s.connections.erase peer }
      else none
  | .received from_ =>
      if s.pumping = .events ∧ from_.all fun peer => decide (peer ∈ s.connections) then
        some { s with pumping := .messages from_ }
      else none
  | .receiveFailed => if s.pumping = .events then some { s with pumping := .stopped } else none
  | .message from_ said =>
      match s.pumping with
      | .messages batch =>
          if from_ ∈ batch then
            (s.hosting.step ids vecLength (.message from_ said s.now)).map s.closing
          else none
      | _ => none
  | .finishRound =>
      match s.pumping with
      | .messages _ =>
          (s.hosting.step ids vecLength (.finishRound s.now)).map fun hosting =>
            { s.closing hosting with pumping := .waiting }
      | _ => none
  | .goOn around =>
      (s.hosting.step ids vecLength (.goOn around)).map s.closing
  | .endMatch => (s.hosting.step ids vecLength .endMatch).map s.closing

def run (s : Served) (events : List RoundEvent) : Option Served :=
  Lib.run (step ids vecLength) s events

/-- A server nothing has happened to. -/
def start (config : HostConfig) (now : ℤ) : Served := { hosting := .start config, now }

end Served

namespace Impl
variable {ids : ℕ → SessionId} {vecLength : Math.Vec3 → Lib.Binary32}
variable {host host' host'' : Impl} {peer other : PeerId} {now : ℤ}

/-- Nothing is kept of `peer`. -/
structure Forgotten (host : Impl) (peer : PeerId) : Prop where
  gate : ¬ host.gate.Knows peer
  subscription : peer ∉ host.debugSubscriptions.peers
  member : host.match_.sessionOf peer = none

/-- `peer` is waited for as long as before, unless it is a member. -/
structure Retained (host host' : Impl) (peer : PeerId) : Prop where
  member : host.match_.sessionOf peer ≠ none → host'.match_.sessionOf peer ≠ none
  waiting : ∀ since, host.gate.waitingSince peer = some since →
    host'.match_.sessionOf peer ≠ none ∨ host'.gate.waitingSince peer = some since

/-- What something `spoke` did makes of the peers: those whose connections `ended` are forgotten,
    and nothing is now kept of anyone else it was not kept of before. -/
structure Handled (spoke : Option PeerId) (ended : List PeerId) (host host' : Impl) : Prop where
  gone : ∀ peer ∈ ended, Forgotten host' peer
  forgotten : ∀ peer, spoke ≠ some peer → Forgotten host peer → Forgotten host' peer
  retained : ∀ peer ∉ ended, Retained host host' peer

/-- `closings` are closed from this side. -/
structure Closes (closings : List PeerId) (host host' : Impl) : Prop where
  closed : host'.closed = host.closed ++ closings
  expelled : ∀ peer, peer ∈ host'.gate.expelled ↔ peer ∈ closings ∨ peer ∈ host.gate.expelled

theorem Retained.trans (h : Retained host host' peer) (h' : Retained host' host'' peer) :
    Retained host host'' peer where
  member := fun hmember => h'.member (h.member hmember)
  waiting := by
    intro since hsince
    rcases h.waiting since hsince with hmember | hwaiting
    · exact .inl (h'.member hmember)
    · exact h'.waiting since hwaiting

/-- After something that ended no connection. -/
theorem Handled.after {spoke : Option PeerId} {ended : List PeerId}
    (h : Handled spoke [] host host') (h' : Handled spoke ended host' host'') :
    Handled spoke ended host host'' where
  gone := h'.gone
  forgotten := fun peer hspoke hforgotten =>
    h'.forgotten peer hspoke (h.forgotten peer hspoke hforgotten)
  retained := fun peer hpeer => (h.retained peer List.not_mem_nil).trans (h'.retained peer hpeer)

/-- One after the other, when no one spoke. -/
theorem Handled.append {ended ended' : List PeerId} (h : Handled none ended host host')
    (h' : Handled none ended' host' host'') : Handled none (ended ++ ended') host host'' where
  gone := by
    intro peer hpeer
    rcases List.mem_append.mp hpeer with hover | hover
    · exact h'.forgotten peer (Option.some_ne_none peer).symm (h.gone peer hover)
    · exact h'.gone peer hover
  forgotten := fun peer hspoke hforgotten =>
    h'.forgotten peer hspoke (h.forgotten peer hspoke hforgotten)
  retained := by
    intro peer hpeer
    simp only [List.mem_append, not_or] at hpeer
    exact (h.retained peer hpeer.1).trans (h'.retained peer hpeer.2)

theorem Handled.spoken {ended : List PeerId} (h : Handled none ended host host')
    (spoke : Option PeerId) : Handled spoke ended host host' where
  gone := h.gone
  forgotten := fun peer _ hforgotten => h.forgotten peer (Option.some_ne_none peer).symm hforgotten
  retained := h.retained

theorem Closes.refl (host : Impl) : Closes [] host host := ⟨by simp, by simp⟩

theorem Closes.append {closings closings' : List PeerId} (h : Closes closings host host')
    (h' : Closes closings' host' host'') : Closes (closings ++ closings') host host'' where
  closed := by rw [h'.closed, h.closed, List.append_assoc]
  expelled := by
    intro peer
    rw [h'.expelled, h.expelled, List.mem_append]
    tauto

/-- What is no one's: the peers are as they were. -/
structure Beside (host host' : Impl) : Prop where
  gate : host'.gate = host.gate
  debugSubscriptions : host'.debugSubscriptions = host.debugSubscriptions
  closed : host'.closed = host.closed
  session : ∀ peer, host'.match_.sessionOf peer = host.match_.sessionOf peer

theorem Beside.refl (host : Impl) : Beside host host := ⟨rfl, rfl, rfl, fun _ => rfl⟩

theorem Beside.trans (h : Beside host host') (h' : Beside host' host'') : Beside host host'' :=
  ⟨h'.gate.trans h.gate, h'.debugSubscriptions.trans h.debugSubscriptions, h'.closed.trans h.closed,
    fun peer => (h'.session peer).trans (h.session peer)⟩

theorem Beside.handled (h : Beside host host') : Handled none [] host host' where
  gone := fun _ hpeer => absurd hpeer List.not_mem_nil
  forgotten := by
    intro peer _ hforgotten
    refine ⟨?_, ?_, ?_⟩
    · rw [h.gate]
      exact hforgotten.gate
    · rw [h.debugSubscriptions]
      exact hforgotten.subscription
    · rw [h.session]
      exact hforgotten.member
  retained := by
    intro peer _
    refine ⟨fun hmember => ?_, fun since hsince => .inr ?_⟩
    · rw [h.session]
      exact hmember
    · rw [h.gate]
      exact hsince

theorem Beside.closes (h : Beside host host') : Closes [] host host' where
  closed := by simp [h.closed]
  expelled := by simp [h.gate]

/-! ### Sending -/

theorem sendTo_some {sessions : List SessionId} {message : Told}
    (h : host.sendTo sessions message = some host') : ∃ told, host' = { host with told } := by
  obtain ⟨players, -, hhost⟩ := Option.bind_eq_some_iff.mp h
  cases hhost
  exact ⟨_, rfl⟩

/-! ### Departures -/

/-- All there is of `peer` is erased. -/
theorem handleDisconnect_erases (h : host.handleDisconnect peer = some host') :
    host'.gate = host.gate.left peer ∧
      host'.debugSubscriptions = host.debugSubscriptions.forget peer ∧
      host'.closed = host.closed ∧ ∀ other, host'.match_.sessionOf other =
        if other = peer then none else host.match_.sessionOf other := by
  rw [handleDisconnect] at h
  cases hsession : host.match_.sessionOf peer with
  | none =>
      rw [hsession] at h
      cases h
      refine ⟨rfl, rfl, rfl, fun other => ?_⟩
      split_ifs with hsame
      · rw [hsame, hsession]
      · rfl
  | some session =>
      simp only [hsession] at h
      have hleft := host.match_.sessionOf_leave peer
      revert h hleft
      generalize host.match_.leave peer = departed
      intro h hleft
      obtain ⟨departure, left⟩ := departed
      cases departure with
      | none =>
          cases h
          exact ⟨rfl, rfl, rfl, hleft⟩
      | fromMatch =>
          cases h
          exact ⟨rfl, rfl, rfl, hleft⟩
      | endedMatch =>
          cases h
          exact ⟨rfl, rfl, rfl, hleft⟩
      | fromLobby =>
          obtain ⟨told, rfl⟩ := sendTo_some h
          exact ⟨rfl, rfl, rfl, hleft⟩

theorem handled_handleDisconnect (h : host.handleDisconnect peer = some host') :
    Handled none [peer] host host' ∧ Closes [] host host' := by
  obtain ⟨hgate, hsubscriptions, hclosed, hsession⟩ := handleDisconnect_erases h
  have hsubscribed {other : PeerId} (hin : other ∈ host'.debugSubscriptions.peers) :
      other ≠ peer ∧ other ∈ host.debugSubscriptions.peers := by
    rw [hsubscriptions] at hin
    exact AList.mem_erase.mp hin
  refine ⟨⟨fun gone hgone => ?_, fun other _ hforgotten => ?_, fun other hother => ?_⟩, ?_, ?_⟩
  · obtain rfl := List.mem_singleton.mp hgone
    refine ⟨?_, fun hin => (hsubscribed hin).1 rfl, ?_⟩
    · rw [hgate]
      exact PeerGate.not_knows_left
    · rw [hsession, if_pos rfl]
  · refine ⟨fun hknows => ?_, fun hin => hforgotten.subscription (hsubscribed hin).2, ?_⟩
    · rw [hgate] at hknows
      exact hforgotten.gate (PeerGate.knows_left hknows)
    · rw [hsession]
      split_ifs
      · rfl
      · exact hforgotten.member
  · have hne : other ≠ peer := fun hsame => hother (List.mem_singleton.mpr hsame)
    refine ⟨fun hmember => ?_, fun since hsince => .inr ?_⟩
    · rwa [hsession, if_neg hne]
    · rw [hgate, PeerGate.waitingSince_left, if_neg hne]
      exact hsince
  · simp [hclosed]
  · simp [hgate, PeerGate.left]

theorem handled_expel (h : host.expel peer = some host') :
    Handled none [peer] host host' ∧ Closes [peer] host host' := by
  obtain ⟨hhandled, hcloses⟩ := handled_handleDisconnect h
  refine ⟨⟨hhandled.gone, fun other hspoke hforgotten => ?_, fun other hother => ?_⟩, ?_,
    fun other => ?_⟩
  · obtain ⟨hgate, hsubscription, hmember⟩ := hforgotten
    exact hhandled.forgotten other hspoke ⟨hgate, hsubscription, hmember⟩
  · obtain ⟨hmember, hwaiting⟩ := hhandled.retained other hother
    exact ⟨hmember, hwaiting⟩
  · rw [hcloses.closed, List.append_nil]
  · rw [hcloses.expelled]
    simp [PeerGate.expel]

/-! ### Misbehaviour -/

theorem judge_some {rejection : PeerRejection} {verdict : Verdict}
    (h : host.judge peer rejection now = some (verdict, host')) :
    (verdict = .keep ∧ host' = { host with gate := (host.gate.judge peer rejection now).2 }) ∨
      (verdict = .disconnect ∧
        { host with gate := (host.gate.judge peer rejection now).2 }.expel peer = some host') := by
  rw [judge] at h
  revert h
  generalize host.gate.judge peer rejection now = judged
  intro h
  obtain ⟨said, gate⟩ := judged
  cases said with
  | keep =>
      cases h
      exact .inl ⟨rfl, rfl⟩
  | disconnect =>
      obtain ⟨last, hlast, hsame⟩ := Option.map_eq_some_iff.mp h
      cases hsame
      exact .inr ⟨rfl, hlast⟩

/-- Being judged, a peer is only counted against. -/
theorem handled_counted (rejection : PeerRejection) :
    Handled (some peer) [] host { host with gate := (host.gate.judge peer rejection now).2 } ∧
      Closes [] host { host with gate := (host.gate.judge peer rejection now).2 } := by
  refine ⟨⟨fun _ hgone => absurd hgone List.not_mem_nil, fun other hspoke hforgotten => ?_,
    fun other _ => ⟨id, fun since hsince => .inr hsince⟩⟩, by simp, by simp [PeerGate.judge]⟩
  refine ⟨fun hknows => ?_, hforgotten.subscription, hforgotten.member⟩
  rcases PeerGate.knows_judge hknows with rfl | hknew
  · exact hspoke rfl
  · exact hforgotten.gate hknew

/-- What a handler of something `peer` sent does: it ends that connection, or none. -/
def Answers (peer : PeerId) (host host' : Impl) : Prop :=
  ∃ ended, (ended = [] ∨ ended = [peer]) ∧ Handled (some peer) ended host host' ∧
    Closes ended host host'

theorem Answers.after (h : Handled (some peer) [] host host') (hcloses : Closes [] host host')
    (h' : Answers peer host' host'') : Answers peer host host'' := by
  obtain ⟨ended, hover, hhandled, hcloses'⟩ := h'
  exact ⟨ended, hover, h.after hhandled, hcloses.append hcloses'⟩

theorem Beside.answers (h : Beside host host') : Answers peer host host' :=
  ⟨[], .inl rfl, h.handled.spoken _, h.closes⟩

theorem answers_judge {rejection : PeerRejection} {verdict : Verdict}
    (h : host.judge peer rejection now = some (verdict, host')) : Answers peer host host' := by
  obtain ⟨hcounted, hcloses⟩ := @handled_counted host peer now rejection
  rcases judge_some h with ⟨-, rfl⟩ | ⟨-, hexpel⟩
  · exact ⟨[], .inl rfl, hcounted, hcloses⟩
  · obtain ⟨hexpelled, hcloses'⟩ := handled_expel hexpel
    exact Answers.after hcounted hcloses ⟨[peer], .inr rfl, hexpelled.spoken _, hcloses'⟩

theorem answers_judged {rejection : PeerRejection}
    (h : host.judged peer rejection now = some host') : Answers peer host host' := by
  obtain ⟨⟨verdict, last⟩, hjudge, rfl⟩ := Option.map_eq_some_iff.mp h
  exact answers_judge hjudge

/-! ### Messages -/

/-- A peer admitted is waited for no more. -/
theorem handled_admitted {request : JoinRequest} {admission : Admission} {joined : Match}
    (hjoin : host.match_.join ids peer request = (.ok admission, joined))
    (hgate : host'.gate = host.gate.admitted peer) (hmatch : host'.match_ = joined)
    (hsubscriptions : host'.debugSubscriptions = host.debugSubscriptions) :
    Handled (some peer) [] host host' where
  gone := fun _ hgone => absurd hgone List.not_mem_nil
  forgotten := by
    intro other hspoke hforgotten
    have hne : other ≠ peer := fun hsame => hspoke (congrArg some hsame.symm)
    refine ⟨fun hknows => ?_, ?_, ?_⟩
    · rw [hgate] at hknows
      exact hforgotten.gate (PeerGate.knows_admitted hknows)
    · rw [hsubscriptions]
      exact hforgotten.subscription
    · rw [hmatch, Match.sessionOf_join hjoin, if_neg hne]
      exact hforgotten.member
  retained := by
    intro other _
    refine ⟨fun hmember => ?_, fun since hsince => ?_⟩
    · rw [hmatch, Match.sessionOf_join hjoin]
      split_ifs
      · simp
      · exact hmember
    · by_cases hsame : other = peer
      · left
        rw [hmatch, Match.sessionOf_join hjoin, if_pos hsame]
        simp
      · right
        rw [hgate, PeerGate.waitingSince_admitted, if_neg hsame]
        exact hsince

theorem answers_reply (peer : PeerId) (message : Told)
    (h : Answers peer (host.reply peer message) host') : Answers peer host host' :=
  have hbeside : Beside host (host.reply peer message) := ⟨rfl, rfl, rfl, fun _ => rfl⟩
  Answers.after (hbeside.handled.spoken _) hbeside.closes h

theorem answers_handleJoinRequest {request : JoinRequest}
    (h : host.handleJoinRequest ids peer request now = some host') : Answers peer host host' := by
  cases hjoin : host.match_.join ids peer request with
  | mk answer joined =>
      cases answer with
      | error refusal =>
          rw [handleJoinRequest, hjoin] at h
          exact answers_reply peer _ (answers_judged h)
      | ok admission =>
          obtain ⟨admitted, hadmitted, hanswer⟩ :=
            @handleJoinRequest_ok ids host peer request now _ _ hjoin
          rw [hanswer] at h
          have hhandled : Handled (some peer) [] host admitted := by
            refine handled_admitted hjoin ?_ ?_ ?_ <;> rw [hadmitted]
          have hcloses : Closes [] host admitted := by
            rw [hadmitted]
            exact ⟨by simp, by simp [PeerGate.admitted]⟩
          refine Answers.after hhandled hcloses ?_
          split_ifs at h
          · cases h
            exact (Beside.refl _).answers
          · obtain ⟨told, rfl⟩ := sendTo_some h
            exact Beside.answers ⟨rfl, rfl, rfl, fun _ => rfl⟩

theorem answers_handleReady {version : UInt32}
    (h : host.handleReady peer version now = some host') : Answers peer host host' := by
  rw [handleReady] at h
  have hsession := Match.sessionOf_ready host.match_ peer version
  revert h hsession
  generalize host.match_.ready peer version = counted
  intro h hsession
  obtain ⟨taken, ready⟩ := counted
  cases taken with
  | false => exact answers_judged h
  | true =>
      cases h
      exact Beside.answers ⟨rfl, rfl, rfl, hsession⟩

theorem answers_takeIn {session : SessionId} {commands : List Link.SequencedCommand}
    (h : takeIn vecLength peer session now commands host = some host') :
    Answers peer host host' := by
  induction commands generalizing host with
  | nil =>
      cases h
      exact (Beside.refl _).answers
  | cons command rest ih =>
      rw [takeIn] at h
      obtain ⟨player, -, h⟩ := Option.bind_eq_some_iff.mp h
      cases htaken : player.commands.tryEnqueue vecLength command with
      | ok taken =>
          rw [htaken] at h
          have hbeside : Beside host { host with
              players := host.players.insert session { player with commands := taken.2 } } :=
            ⟨rfl, rfl, rfl, fun _ => rfl⟩
          exact Answers.after (hbeside.handled.spoken _) hbeside.closes (ih h)
      | error rejection =>
          rw [htaken] at h
          obtain ⟨⟨verdict, judged⟩, hjudge, h⟩ := Option.bind_eq_some_iff.mp h
          cases verdict with
          | disconnect =>
              cases h
              exact answers_judge hjudge
          | keep =>
              rcases judge_some hjudge with ⟨-, rfl⟩ | ⟨hkeep, -⟩
              · obtain ⟨hcounted, hcloses⟩ := handled_counted (toPeerRejection rejection)
                exact Answers.after hcounted hcloses (ih h)
              · cases hkeep

theorem answers_handleCommands {commands : List Link.SequencedCommand}
    (h : host.handleCommands vecLength peer commands now = some host') :
    Answers peer host host' := by
  rw [handleCommands] at h
  cases hsession : host.match_.sessionOf peer with
  | none =>
      rw [hsession] at h
      exact answers_judged h
  | some session =>
      simp only [hsession] at h
      split_ifs at h
      · exact answers_judged h
      · obtain ⟨-, -, h⟩ := Option.bind_eq_some_iff.mp h
        exact answers_takeIn h

/-- What is heard of a peer's debug streams is kept of it. -/
theorem handled_subscribed (flags : UInt8) : Handled (some peer) [] host
    { host with debugSubscriptions := (host.debugSubscriptions.subscribe peer flags).2 } where
  gone := fun _ hgone => absurd hgone List.not_mem_nil
  forgotten := by
    intro other hspoke hforgotten
    refine ⟨hforgotten.gate, fun hin => ?_, hforgotten.member⟩
    rcases (AList.mem_insert _).mp hin with rfl | hold
    · exact hspoke rfl
    · exact hforgotten.subscription hold
  retained := fun other _ => ⟨id, fun since hsince => .inr hsince⟩

theorem answers_refuseAsNoReplayServer (h : host.refuseAsNoReplayServer peer now = some host') :
    Answers peer host host' :=
  answers_reply peer _ (answers_judged h)

theorem answers_handleMessage {said : PeerSaid}
    (h : host.handleMessage ids vecLength peer said now = some host') :
    Answers peer host host' := by
  cases said with
  | undecodable => exact answers_judged h
  | notAClientMessage => exact answers_judged h
  | joinRequest request => exact answers_handleJoinRequest h
  | commands commands => exact answers_handleCommands h
  | ready version => exact answers_handleReady h
  | replayListRequest => exact answers_refuseAsNoReplayServer h
  | replayRequest => exact answers_refuseAsNoReplayServer h
  | debugSubscribe flags =>
      cases h
      exact ⟨[], .inl rfl, handled_subscribed flags, by simp, by simp⟩

/-! ### The end of a round -/

theorem handled_expelAll {peers : List PeerId}
    (h : peers.foldlM (fun (host : Impl) peer => host.expel peer) host = some host') :
    Handled none peers host host' ∧ Closes peers host host' := by
  induction peers generalizing host with
  | nil =>
      cases h
      exact ⟨(Beside.refl _).handled, .refl _⟩
  | cons peer rest ih =>
      rw [List.foldlM_cons] at h
      obtain ⟨next, hnext, hrest⟩ := Option.bind_eq_some_iff.mp h
      obtain ⟨hhandled, hcloses⟩ := handled_expel hnext
      obtain ⟨hhandled', hcloses'⟩ := ih hrest
      exact ⟨hhandled.append hhandled', hcloses.append hcloses'⟩

/-- Those overdue are closed, and no one is expelled any more. -/
theorem handled_finishRound (h : host.finishRound now = some host') :
    Handled none (host.gate.takeOverdue now).1 host host' ∧
      host'.closed = host.closed ++ (host.gate.takeOverdue now).1 := by
  obtain ⟨last, hlast, rfl⟩ := Option.map_eq_some_iff.mp h
  obtain ⟨hhandled, hcloses⟩ := handled_expelAll hlast
  refine ⟨⟨fun peer hpeer => ?_, fun peer hspoke hforgotten => ?_, fun peer hpeer => ?_⟩,
    hcloses.closed⟩
  · obtain ⟨hgate, hsubscription, hmember⟩ := hhandled.gone peer hpeer
    exact ⟨hgate, hsubscription, hmember⟩
  · obtain ⟨hgate, hsubscription, hmember⟩ := hhandled.forgotten peer hspoke
      ⟨fun hknows => hforgotten.gate (PeerGate.knows_takeOverdue hknows), hforgotten.subscription,
        hforgotten.member⟩
    exact ⟨hgate, hsubscription, hmember⟩
  · obtain ⟨hmember, hwaiting⟩ := hhandled.retained peer hpeer
    refine ⟨hmember, fun since hsince => hwaiting since (PeerGate.waitingSince_takeOverdue.mpr
      ⟨hsince, not_le.mp fun hdue => hpeer (PeerGate.mem_takeOverdue.mpr ⟨since, hsince, hdue⟩)⟩)⟩

/-! ### The Simulation thread -/

theorem beside_endMatch {winner : Option SessionId} (h : host.endMatch winner = some host') :
    Beside host host' := by
  rw [endMatch] at h
  have hsession := Match.sessionOf_endMatch host.match_ winner
  revert h hsession
  generalize host.match_.endMatch winner = ending
  intro h hsession
  obtain ⟨ended, lobby⟩ := ending
  cases ended with
  | none =>
      cases h
      exact .refl host
  | some ended =>
      obtain ⟨next, hnext, hlast⟩ := Option.bind_eq_some_iff.mp h
      obtain ⟨told, rfl⟩ := sendTo_some hnext
      obtain ⟨told', rfl⟩ := sendTo_some hlast
      exact ⟨rfl, rfl, rfl, hsession⟩

theorem beside_startMatchIfReady {assigns : Policy.MatchView → ℕ → Option (List ℕ)} {started : ℤ}
    (h : host.startMatchIfReady ids assigns started = some host') : Beside host host' := by
  rw [startMatchIfReady] at h
  have hsession := Match.sessionOf_tryStart ids host.match_
  revert h hsession
  generalize host.match_.tryStart ids = starting
  intro h hsession
  obtain ⟨start, inMatch⟩ := starting
  cases start with
  | none =>
      cases h
      exact .refl host
  | some start =>
      simp only [Option.bind_eq_bind, Option.bind_eq_some_iff] at h
      obtain ⟨entrants, -, afresh, hafresh, h⟩ := h
      have hstarts : Beside { host with match_ := inMatch } afresh := by
        refine @Lib.run.relation _ _ (fun (host : Impl) session => host.startAfresh session) Beside
          Beside.refl Beside.trans (fun {host session host'} hstep => ?_) _ _ _ hafresh
        obtain ⟨player, -, hhost⟩ := Option.bind_eq_some_iff.mp hstep
        cases hhost
        exact ⟨rfl, rfl, rfl, fun _ => rfl⟩
      rw [capture_eq] at h
      obtain ⟨told, rfl⟩ := sendTo_some h
      exact ⟨hstarts.gate, hstarts.debugSubscriptions, hstarts.closed,
        fun peer => (hstarts.session peer).trans (hsession peer)⟩

theorem beside_takeCommand {input input' : TickInput} {session : SessionId}
    (h : host.takeCommand input session = some (input', host')) : Beside host host' := by
  obtain ⟨player, hplayer, hrest⟩ := Option.bind_eq_some_iff.mp h
  obtain ⟨entity, hentity, -⟩ := Option.bind_eq_some_iff.mp hrest
  rw [takeCommand_eq hplayer hentity] at h
  cases h
  exact ⟨rfl, rfl, rfl, fun _ => rfl⟩

theorem beside_readied (stored : BodyOrder) : Beside host (host.readied stored) := by
  obtain ⟨out, hout⟩ : ∃ out, out = if host.simulatingMatch ∧ ¬ host.match_.inMatch then
      host.takeOutEndedMatch stored else host := ⟨_, rfl⟩
  have hbefore : Beside host out := by
    rw [hout]
    split_ifs
    · obtain ⟨captured, heq⟩ := @takeOutEndedMatch_eq host stored
      rw [heq]
      exact ⟨rfl, rfl, rfl, fun _ => rfl⟩
    · exact .refl host
  have hready : host.readied stored =
      { out.eraseBodies stored with match_ := (out.eraseBodies stored).match_.tick } := by
    rw [readied, hout]
  refine hbefore.trans ?_
  rw [hready, eraseBodies_eq]
  exact ⟨rfl, rfl, rfl, Match.sessionOf_tick out.match_⟩

theorem beside_prepareTick {stored : BodyOrder} {assigns : Policy.MatchView → ℕ → Option (List ℕ)}
    {started : ℤ} {input : TickInput}
    (h : host.prepareTick ids stored assigns started = some (input, host')) :
    Beside host host' := by
  rw [prepareTick_eq] at h
  obtain ⟨begun, hbegun, htaken⟩ := Option.bind_eq_some_iff.mp h
  have hfold : Lib.run
      (fun (taken : TickInput × Impl) session => taken.2.takeCommand taken.1 session) ({}, begun)
      begun.match_.playing = some (input, host') := htaken
  have htakes : Beside begun host' := by
    refine @Lib.run.relation _ _ _ (fun a b : TickInput × Impl => Beside a.2 b.2)
      (fun taken => .refl taken.2) (fun hab hbc => hab.trans hbc) (fun {a session b} hstep => ?_)
      _ _ _ hfold
    exact beside_takeCommand hstep
  exact ((beside_readied stored).trans (beside_startMatchIfReady hbegun)).trans htakes

end Impl

/-! ### Every step -/

namespace Hosting
variable {ids : ℕ → SessionId} {vecLength : Math.Vec3 → Lib.Binary32} {s s' : Hosting}

/-- The Simulation thread leaves the peers alone. -/
theorem beside_goOn {around : Around} (h : s.step ids vecLength (.goOn around) = some s') :
    s.host.Beside s'.host := by
  rw [step] at h
  cases hdoing : s.doing with
  | between =>
      rw [hdoing] at h
      obtain ⟨⟨input, host'⟩, hprepared, rfl⟩ := Option.map_eq_some_iff.mp h
      exact Impl.beside_prepareTick hprepared
  | ticking input =>
      rw [hdoing] at h
      obtain rfl := Option.some.inj h
      change s.host.Beside (s.host.simulate input around.deltaTime around.outside).2
      rw [Impl.simulate_eq]
      exact ⟨rfl, rfl, rfl, fun _ => rfl⟩
  | acting actions =>
      rw [hdoing] at h
      cases actions with
      | nil =>
          cases h
          exact .refl _
      | cons action rest =>
          cases action with
          | matchEnd winner =>
              obtain ⟨host', hended, rfl⟩ := Option.map_eq_some_iff.mp h
              exact Impl.beside_endMatch hended

end Hosting

namespace Served
variable {ids : ℕ → SessionId} {vecLength : Math.Vec3 → Lib.Binary32} {s s' : Served}

/-- What holds of a server and the connections that are not over, at any hold of the lock. -/
structure Known (ids : ℕ → SessionId) (s : Served) : Prop where
  enrolled : s.hosting.host.Enrolled ids
  embodied : s.hosting.host.Embodied
  forgotten : ∀ peer, peer ∉ s.connections → s.hosting.host.Forgotten peer
  waited : ∀ peer since, s.connections.lookup peer = some since → since ≤ s.now ∧
    (s.hosting.host.match_.sessionOf peer ≠ none ∨
      s.hosting.host.gate.waitingSince peer = some since)

/-- What holds of its round besides. -/
structure Kept (ids : ℕ → SessionId) (s : Served) : Prop extends Known ids s where
  inTime : s.pumping = .waiting → ∀ peer since, s.connections.lookup peer = some since →
    s.hosting.host.match_.sessionOf peer ≠ none ∨ s.now - since < kAdmissionDeadline
  batch : ∀ from_, s.pumping = .messages from_ → ∀ peer ∈ from_,
    peer ∈ s.connections ∨ peer ∈ s.hosting.host.gate.expelled

theorem mem_closing {hosting : Hosting} {closings : List PeerId}
    (hclosed : hosting.host.closed = s.hosting.host.closed ++ closings) {peer : PeerId}
    {since : ℤ} :
    (s.closing hosting).connections.lookup peer = some since ↔
      s.connections.lookup peer = some since ∧ peer ∉ closings := by
  simp only [closing, hclosed, List.drop_left, AList.lookup_filter, Option.filter_eq_some_iff]
  simp

theorem known_closing (h : Known ids s) {hosting : Hosting} (henrolled : hosting.host.Enrolled ids)
    (hembodied : hosting.host.Embodied) {spoke : Option PeerId} {ended : List PeerId}
    (hspoke : ∀ peer, spoke = some peer → peer ∈ s.connections)
    (hhandled : Impl.Handled spoke ended s.hosting.host hosting.host)
    (hclosed : hosting.host.closed = s.hosting.host.closed ++ ended) :
    Known ids (s.closing hosting) where
  enrolled := henrolled
  embodied := hembodied
  forgotten := by
    intro peer hpeer
    by_cases hover : peer ∈ ended
    · exact hhandled.gone peer hover
    · have hout : peer ∉ s.connections := by
        intro hin
        obtain ⟨since, hsince⟩ := AList.mem_iff_lookup.mp hin
        exact hpeer (AList.mem_iff_lookup.mpr ⟨since, (mem_closing hclosed).mpr ⟨hsince, hover⟩⟩)
      exact hhandled.forgotten peer (fun hsame => hout (hspoke peer hsame)) (h.forgotten peer hout)
  waited := by
    intro peer since hsince
    obtain ⟨hconnected, hover⟩ := (mem_closing hclosed).mp hsince
    obtain ⟨hle, hmember | hwaiting⟩ := h.waited peer since hconnected
    · exact ⟨hle, .inl ((hhandled.retained peer hover).member hmember)⟩
    · exact ⟨hle, (hhandled.retained peer hover).waiting since hwaiting⟩

/-- Whoever sent something is still connected, or expelled. -/
theorem batch_closing {from_ : List PeerId}
    (h : ∀ peer ∈ from_, peer ∈ s.connections ∨ peer ∈ s.hosting.host.gate.expelled)
    {hosting : Hosting} {ended : List PeerId}
    (hcloses : Impl.Closes ended s.hosting.host hosting.host) :
    ∀ peer ∈ from_, peer ∈ (s.closing hosting).connections ∨ peer ∈ hosting.host.gate.expelled := by
  intro peer hpeer
  rcases h peer hpeer with hin | hexpelled
  · by_cases hover : peer ∈ ended
    · exact .inr ((hcloses.expelled peer).mpr (.inl hover))
    · obtain ⟨since, hsince⟩ := AList.mem_iff_lookup.mp hin
      exact .inl (AList.mem_iff_lookup.mpr
        ⟨since, (mem_closing hcloses.closed).mpr ⟨hsince, hover⟩⟩)
  · exact .inr ((hcloses.expelled peer).mpr (.inr hexpelled))

/-- A step of the Simulation thread. -/
theorem kept_beside (h : Kept ids s) {hosting : Hosting} (henrolled : hosting.host.Enrolled ids)
    (hembodied : hosting.host.Embodied) (hbeside : s.hosting.host.Beside hosting.host) :
    Kept ids (s.closing hosting) where
  toKnown := known_closing h.toKnown henrolled hembodied
    (fun peer hnone => absurd hnone.symm (Option.some_ne_none peer)) hbeside.handled
    hbeside.closes.closed
  inTime := by
    intro hwaiting peer since hsince
    obtain ⟨hconnected, hover⟩ := (mem_closing hbeside.closes.closed).mp hsince
    rcases h.inTime hwaiting peer since hconnected with hmember | htime
    · exact .inl ((hbeside.handled.retained peer hover).member hmember)
    · exact .inr htime
  batch := fun from_ hpumping => batch_closing (h.batch from_ hpumping) hbeside.closes

/-- Of what a message does, only its sender's connection can be over; of what one that is over sent
    before, nothing is handled. -/
theorem message_cases (h : Kept ids s) {from_ : PeerId} {said : PeerSaid} {hosting : Hosting}
    {batch : List PeerId} (hpumping : s.pumping = .messages batch) (hfrom : from_ ∈ batch)
    (hstep : s.hosting.step ids vecLength (.message from_ said s.now) = some hosting) :
    (hosting = s.hosting ∧ s.hosting.host.gate.wasExpelled from_ = true) ∨
      from_ ∈ s.connections ∧ Impl.Answers from_ s.hosting.host hosting.host := by
  obtain ⟨host, hhost, rfl⟩ := Option.map_eq_some_iff.mp hstep
  rw [Impl.onMessage] at hhost
  split_ifs at hhost with hexpelled
  · cases hhost
    exact .inl ⟨rfl, hexpelled⟩
  · refine .inr ⟨?_, Impl.answers_handleMessage hhost⟩
    rcases h.batch batch hpumping from_ hfrom with hin | hin
    · exact hin
    · rw [PeerGate.wasExpelled, List.contains_iff_mem] at hexpelled
      exact absurd hin hexpelled

theorem kept_connected (h : Kept ids s) {peer : PeerId} {hosting : Hosting}
    (hevents : s.pumping = .events) (henrolled : hosting.host.Enrolled ids)
    (hembodied : hosting.host.Embodied)
    (hstep : s.hosting.step ids vecLength (.connected peer s.now) = some hosting) :
    Kept ids { s with hosting, connections := s.connections.insert peer s.now } := by
  cases hstep
  refine ⟨⟨henrolled, hembodied, fun other hother => ?_, fun other since hsince => ?_⟩,
    fun hwaiting => ?_, fun from_ hmessages => ?_⟩
  · simp only [AList.mem_insert, not_or] at hother
    obtain ⟨hgate, hsubscription, hmember⟩ := h.forgotten other hother.2
    refine ⟨fun hknows => ?_, hsubscription, hmember⟩
    rcases PeerGate.knows_connected hknows with hsame | hold
    · exact hother.1 hsame
    · exact hgate hold
  · simp only [AList.lookup_insert_eq] at hsince
    simp only [PeerGate.waitingSince_connected]
    split_ifs at hsince with hsame
    · cases hsince
      exact ⟨le_rfl, .inr (if_pos hsame)⟩
    · rw [if_neg hsame]
      exact h.waited other since hsince
  · cases hevents.symm.trans hwaiting
  · cases hevents.symm.trans hmessages

theorem kept_disconnected (h : Kept ids s) {peer : PeerId} {hosting : Hosting}
    (hevents : s.pumping = .events) (henrolled : hosting.host.Enrolled ids)
    (hembodied : hosting.host.Embodied)
    (hstep : s.hosting.step ids vecLength (.disconnected peer) = some hosting) :
    Kept ids { s with hosting, connections := s.connections.erase peer } := by
  obtain ⟨host, hleft, rfl⟩ := Option.map_eq_some_iff.mp hstep
  obtain ⟨hhandled, -⟩ := Impl.handled_handleDisconnect hleft
  refine ⟨⟨henrolled, hembodied, fun other hother => ?_, fun other since hsince => ?_⟩,
    fun hwaiting => ?_, fun from_ hmessages => ?_⟩
  · by_cases hsame : other = peer
    · exact hhandled.gone other (List.mem_singleton.mpr hsame)
    · refine hhandled.forgotten other (Option.some_ne_none other).symm (h.forgotten other ?_)
      exact fun hin => hother (AList.mem_erase.mpr ⟨hsame, hin⟩)
  · simp only [AList.lookup_erase_eq] at hsince
    split_ifs at hsince with hsame
    obtain ⟨hle, hmember | hwaits⟩ := h.waited other since hsince
    all_goals
      have hretained := hhandled.retained other fun hin => hsame (List.mem_singleton.mp hin)
    · exact ⟨hle, .inl (hretained.member hmember)⟩
    · exact ⟨hle, hretained.waiting since hwaits⟩
  · cases hevents.symm.trans hwaiting
  · cases hevents.symm.trans hmessages

theorem kept_finishRound (h : Kept ids s) {hosting : Hosting}
    (henrolled : hosting.host.Enrolled ids) (hembodied : hosting.host.Embodied)
    (hstep : s.hosting.step ids vecLength (.finishRound s.now) = some hosting) :
    Kept ids { s.closing hosting with pumping := .waiting } := by
  obtain ⟨host, hfinished, rfl⟩ := Option.map_eq_some_iff.mp hstep
  obtain ⟨hhandled, hclosed⟩ := Impl.handled_finishRound hfinished
  obtain ⟨-, -, hforgotten, hwaited⟩ := @known_closing ids s h.toKnown { s.hosting with host }
    henrolled hembodied none _
    (fun peer hnone => absurd hnone.symm (Option.some_ne_none peer)) hhandled hclosed
  refine ⟨⟨henrolled, hembodied, hforgotten, hwaited⟩, fun _ peer since hsince => ?_,
    fun from_ hmessages => ?_⟩
  · obtain ⟨hconnected, hover⟩ := (mem_closing hclosed).mp hsince
    obtain ⟨-, hmember | hwaits⟩ := h.waited peer since hconnected
    · exact .inl ((hhandled.retained peer hover).member hmember)
    · exact .inr (not_le.mp fun hdue =>
        hover (PeerGate.mem_takeOverdue.mpr ⟨since, hwaits, hdue⟩))
  · cases hmessages

theorem kept_step (hids : Function.Injective ids) (h : Kept ids s) {event : RoundEvent}
    (hstep : s.step ids vecLength event = some s') : Kept ids s' := by
  have hkeeps {event : HostEvent} {hosting : Hosting}
      (hhosting : s.hosting.step ids vecLength event = some hosting) :
      hosting.host.Enrolled ids ∧ hosting.host.Embodied := by
    obtain ⟨last, hlast, hends⟩ :=
      @Hosting.kept_step ids vecLength hids s.hosting h.enrolled h.embodied event
    cases hhosting.symm.trans hlast
    exact hends
  cases event with
  | round now =>
      simp only [step] at hstep
      split_ifs at hstep with hready
      cases hstep
      refine ⟨⟨h.enrolled, h.embodied, h.forgotten, fun peer since hsince => ?_⟩,
        fun hwaiting => ?_, fun from_ hmessages => ?_⟩
      · obtain ⟨hle, hwaits⟩ := h.waited peer since hsince
        exact ⟨hle.trans hready.2, hwaits⟩
      · cases hwaiting
      · cases hmessages
  | connected peer =>
      simp only [step] at hstep
      split_ifs at hstep with hready
      obtain ⟨hosting, hhosting, rfl⟩ := Option.map_eq_some_iff.mp hstep
      exact kept_connected h hready.1 (hkeeps hhosting).1 (hkeeps hhosting).2 hhosting
  | disconnected peer =>
      simp only [step] at hstep
      split_ifs at hstep with hready
      obtain ⟨hosting, hhosting, rfl⟩ := Option.map_eq_some_iff.mp hstep
      exact kept_disconnected h hready (hkeeps hhosting).1 (hkeeps hhosting).2 hhosting
  | received from_ =>
      simp only [step] at hstep
      split_ifs at hstep with hready
      cases hstep
      refine ⟨⟨h.enrolled, h.embodied, h.forgotten, h.waited⟩, fun hwaiting => ?_,
        fun batch hmessages peer hpeer => ?_⟩
      · cases hwaiting
      · cases hmessages
        exact .inl (of_decide_eq_true (List.all_eq_true.mp hready.2 peer hpeer))
  | receiveFailed =>
      simp only [step] at hstep
      split_ifs at hstep with hready
      cases hstep
      refine ⟨⟨h.enrolled, h.embodied, h.forgotten, h.waited⟩, fun hwaiting => ?_,
        fun from_ hmessages => ?_⟩
      · cases hwaiting
      · cases hmessages
  | message from_ said =>
      cases hpumping : s.pumping with
      | messages batch =>
          simp only [step, hpumping] at hstep
          split_ifs at hstep with hfrom
          obtain ⟨hosting, hhosting, rfl⟩ := Option.map_eq_some_iff.mp hstep
          obtain ⟨henrolled, hembodied⟩ := hkeeps hhosting
          rcases message_cases h hpumping hfrom hhosting with ⟨rfl, -⟩ |
            ⟨hin, ended, -, hhandled, hcloses⟩
          · exact kept_beside h henrolled hembodied (.refl _)
          · refine ⟨known_closing h.toKnown henrolled hembodied (fun peer hspoke => ?_) hhandled
              hcloses.closed, fun hwaiting => ?_,
              fun from_ hmessages => batch_closing (h.batch from_ hmessages) hcloses⟩
            · cases hspoke
              exact hin
            · cases hpumping.symm.trans hwaiting
      | _ =>
          simp only [step, hpumping] at hstep
          cases hstep
  | finishRound =>
      cases hpumping : s.pumping with
      | messages batch =>
          simp only [step, hpumping] at hstep
          obtain ⟨hosting, hhosting, rfl⟩ := Option.map_eq_some_iff.mp hstep
          exact kept_finishRound h (hkeeps hhosting).1 (hkeeps hhosting).2 hhosting
      | _ =>
          simp only [step, hpumping] at hstep
          cases hstep
  | goOn around =>
      obtain ⟨hosting, hhosting, rfl⟩ := Option.map_eq_some_iff.mp hstep
      exact kept_beside h (hkeeps hhosting).1 (hkeeps hhosting).2 (Hosting.beside_goOn hhosting)
  | endMatch =>
      obtain ⟨hosting, hhosting, rfl⟩ := Option.map_eq_some_iff.mp hstep
      obtain ⟨host, hended, rfl⟩ := Option.map_eq_some_iff.mp hhosting
      exact kept_beside h (hkeeps hhosting).1 (hkeeps hhosting).2 (Impl.beside_endMatch hended)

theorem kept_start (config : HostConfig) (now : ℤ) : Kept ids (start config now) where
  enrolled := Impl.enrolled_ofConfig ids config
  embodied := Impl.embodied_ofConfig config
  forgotten := by
    intro peer _
    refine ⟨?_, AList.notMem_empty peer, rfl⟩
    rintro (h | h)
    · exact AList.notMem_empty peer h
    · exact AList.notMem_empty peer h
  waited := by
    intro peer since hsince
    cases hsince
  inTime := by
    intro _ peer since hsince
    cases hsince
  batch := by
    intro from_ hmessages
    cases hmessages

/-! ### The law -/

/-- CORRECT: whatever the peers do in whatever rounds, and wherever the Simulation thread's steps
    come between them: of a connection that is over nothing is kept, and nothing it had sent is
    handled; and after a round everyone connected is a member, or connected less than the deadline
    ago. -/
theorem nothing_left_behind (hids : Function.Injective ids) (config : HostConfig) (now : ℤ)
    (events : List RoundEvent) (hrun : (start config now).run ids vecLength events = some s) :
    (∀ peer, peer ∉ s.connections → s.hosting.host.Forgotten peer ∧
      ∀ session player, s.hosting.host.players.lookup session = some player → player.peer ≠ peer) ∧
    (∀ peer said s', peer ∉ s.connections → s.step ids vecLength (.message peer said) = some s' →
      s'.hosting = s.hosting) ∧
    (s.pumping = .waiting → ∀ peer since, s.connections.lookup peer = some since →
      s.hosting.host.match_.sessionOf peer ≠ none ∨ s.now - since < kAdmissionDeadline) := by
  have h : Kept ids s := @Lib.run.invariant _ _ _ (Kept ids)
    (fun h hstep => kept_step hids h hstep) _ _ _ (kept_start config now) hrun
  refine ⟨fun peer hover => ⟨h.forgotten peer hover, ?_⟩, ?_, h.inTime⟩
  · rintro session player hplayer rfl
    obtain ⟨owner, howner⟩ := h.enrolled.only session (AList.mem_iff_lookup.mpr ⟨player, hplayer⟩)
    obtain ⟨held, hheld, hpeer⟩ := h.enrolled.held owner session howner
    rw [hplayer] at hheld
    cases hheld
    rw [← hpeer, (h.forgotten player.peer hover).member] at howner
    cases howner
  · intro peer said s' hover hstep
    cases hpumping : s.pumping with
    | messages batch =>
        simp only [step, hpumping] at hstep
        split_ifs at hstep with hfrom
        obtain ⟨hosting, hhosting, rfl⟩ := Option.map_eq_some_iff.mp hstep
        rcases message_cases h hpumping hfrom hhosting with ⟨hsame, -⟩ | ⟨hin, -⟩
        · exact hsame
        · exact absurd hin hover
    | _ =>
        simp only [step, hpumping] at hstep
        cases hstep

/-! One who joins and one who says nothing for half a minute. -/

def silentRounds : List RoundEvent :=
  [.round 0, .connected 1, .connected 2, .received [1], .message 1 (.joinRequest duelRequest),
    .finishRound, .round 30000000000, .received [2, 1], .message 1 (.ready 1), .finishRound]

theorem nothing_left_behind_silent : ∃ s,
    (start Hosting.duelServer 0).run id (fun _ => .zero) silentRounds = some s ∧
      s.connections.keys = [1] ∧ s.hosting.host.closed = [2] ∧ s.hosting.host.Forgotten 2 := by
  obtain ⟨s, hrun, hends⟩ : ∃ s,
      (start Hosting.duelServer 0).run id (fun _ => .zero) silentRounds = some s ∧
        (s.connections.keys, s.hosting.host.closed) = ([1], [2]) := by
    refine ⟨_, rfl, ?_⟩
    rfl
  obtain ⟨hkeys, hclosed⟩ := Prod.mk.inj hends
  obtain ⟨hforgotten, -⟩ :=
    @nothing_left_behind id (fun _ => .zero) s Function.injective_id Hosting.duelServer 0
      silentRounds hrun
  have hover : (2 : PeerId) ∉ s.connections := by
    intro hin
    have hkey := AList.mem_keys.mp hin
    rw [hkeys] at hkey
    exact absurd hkey (by decide)
  exact ⟨s, hrun, hkeys, hclosed, (hforgotten 2 hover).1⟩

end Served
end Augusta.Host
