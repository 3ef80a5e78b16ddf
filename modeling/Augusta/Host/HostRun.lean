import Augusta.Host.Membership
import Augusta.Lib.Run
import Augusta.Simulation.Presence

/-! A live server's run: its Network I/O thread and its Simulation thread, each step one hold of the
    lock, in any order.

      Network I/O   connected, disconnected, message, finishRound
      Simulation    between ── goOn: PrepareTick ─▶ ticking ── goOn: the World ─▶ acting
                       ▲                                        goOn: Act, for each action │
                       └───────────────────────────────────────────────────────────────────┘

    `EndMatch` may come from anywhere. -/

namespace Augusta.Host
open Lib (Table)

/-- 5 seconds. -/
def kMatchPause : ℕ := 5

/-- The ticks of `kMatchPause`: a whole number at every rate, so nothing is rounded up. -/
def pauseTicks (tickRateHz : UInt8) : UInt32 := UInt32.ofNat (kMatchPause * tickRateHz.toNat)

structure HostConfig where
  tickRateHz : UInt8
  parameters : Parameters
  engineVersion : String
  clientPack : PackHash
  collision : Physics.Collision
  characters : List (String × Prediction.Clips)
  spawnPoints : List Math.Vec3
  reenactments : Bool := false
  /-- Whether there is a directory to capture Matches into. -/
  capturing : Bool := false
  /-- The debug streams served. -/
  served : UInt8 := 0

/-- `ToSimulation` of the scenario's characters, by path: the first of a path stays. -/
def charactersToSimulation (characters : List (String × Prediction.Clips)) :
    Table String Prediction.Clips :=
  characters.foldl (fun table character => table.emplace character.1 character.2) ∅

namespace Impl

def ofConfig (config : HostConfig) : Impl where
  tickRateHz := config.tickRateHz
  characters := charactersToSimulation config.characters
  spawnPoints := config.spawnPoints
  simulation := { parameters := config.parameters, collision := config.collision }
  capturing := config.capturing
  match_ := .ofConfig
    { engineVersion := config.engineVersion
      clientPack := config.clientPack
      characters := config.characters.map (·.1)
      playerCount := config.parameters.playerCount.toNat
      pauseTicks := pauseTicks config.tickRateHz
      reenactments := config.reenactments }
  debugSubscriptions := { served := config.served }

end Impl

/-! ### Its threads -/

/-- What is outside the server while a tick is prepared and run. -/
structure Around where
  stored : Impl.BodyOrder
  assigns : Policy.MatchView → ℕ → Option (List ℕ)
  started : ℤ
  deltaTime : Lib.Binary32
  outside : Simulation.Outside

/-- Where the Simulation thread is in its tick. -/
inductive Simulating
  | between
  | ticking (input : Impl.TickInput)
  | acting (actions : List Policy.Action)

structure Hosting where
  host : Impl
  doing : Simulating := .between

inductive HostEvent
  | connected (peer : PeerId) (now : ℤ)
  | disconnected (peer : PeerId)
  | message (from_ : PeerId) (said : PeerSaid) (now : ℤ)
  | finishRound (now : ℤ)
  /-- The Simulation thread goes on with its tick. -/
  | goOn (around : Around)
  /-- `Host::EndMatch`. -/
  | endMatch

namespace Hosting
variable (ids : ℕ → SessionId) (vecLength : Math.Vec3 → Lib.Binary32)

/-- What an event makes of the server; none where a lookup of the code finds nothing. -/
def step (s : Hosting) : HostEvent → Option Hosting
  | .connected peer now =>
      some { s with host := { s.host with gate := s.host.gate.connected peer now } }
  | .disconnected peer => (s.host.handleDisconnect peer).map fun host => { s with host }
  | .message from_ said now =>
      (s.host.onMessage ids vecLength from_ said now).map fun host => { s with host }
  | .finishRound now => (s.host.finishRound now).map fun host => { s with host }
  | .goOn around =>
      match s.doing with
      | .between =>
          (s.host.prepareTick ids around.stored around.assigns around.started).map
            fun prepared => ⟨prepared.2, .ticking prepared.1⟩
      | .ticking input =>
          let (actions, host) := s.host.simulate input around.deltaTime around.outside
          some ⟨host, .acting actions⟩
      | .acting [] => some { s with doing := .between }
      | .acting (.matchEnd winner :: rest) =>
          (s.host.endMatch winner).map fun host => ⟨host, .acting rest⟩
  | .endMatch => (s.host.endMatch none).map fun host => { s with host }

def run (s : Hosting) (events : List HostEvent) : Option Hosting :=
  Lib.run (step ids vecLength) s events

/-- A server nothing has happened to. -/
def start (config : HostConfig) : Hosting := ⟨.ofConfig config, .between⟩

end Hosting

/-! ### What the Network I/O thread keeps -/

namespace Impl
variable {ids : ℕ → SessionId}

/-- The players are the members: each its own connection's, and no other. -/
structure Enrolled (ids : ℕ → SessionId) (host : Impl) : Prop where
  booked : Match.Booked ids host.match_
  held : ∀ peer session, host.match_.sessionOf peer = some session → ∃ player,
    host.players.lookup session = some player ∧ player.peer = peer
  only : ∀ session, session ∈ host.players → ∃ peer, host.match_.sessionOf peer = some session

/-- What is only the Simulation thread's is as it was, and no one came into the Match. -/
structure Aside (host host' : Impl) : Prop where
  config : host'.tickRateHz = host.tickRateHz ∧ host'.characters = host.characters ∧
    host'.spawnPoints = host.spawnPoints ∧ host'.capturing = host.capturing ∧
    host'.match_.characters = host.match_.characters ∧
    host'.match_.playerCount = host.match_.playerCount
  simulation : host'.simulation = host.simulation
  captured : host'.captured = host.captured
  bodies : host'.bodies = host.bodies
  simulatingMatch : host'.simulatingMatch = host.simulatingMatch
  tick : host'.tick = host.tick
  idsTaken : host.match_.idsTaken ≤ host'.match_.idsTaken
  playing : host'.match_.inMatch = true → host.match_.inMatch = true ∧ ∀ peer session,
    host'.match_.sessionOf peer = some session → host.match_.sessionOf peer = some session

theorem Aside.refl (host : Impl) : Aside host host :=
  ⟨⟨rfl, rfl, rfl, rfl, rfl, rfl⟩, rfl, rfl, rfl, rfl, rfl, le_rfl, fun h => ⟨h, fun _ _ h => h⟩⟩

theorem Aside.trans {a b c : Impl} (h : Aside a b) (h' : Aside b c) : Aside a c where
  config := by
    obtain ⟨h₁, h₂, h₃, h₄, h₅, h₆⟩ := h.config
    obtain ⟨h₁', h₂', h₃', h₄', h₅', h₆'⟩ := h'.config
    exact ⟨h₁'.trans h₁, h₂'.trans h₂, h₃'.trans h₃, h₄'.trans h₄, h₅'.trans h₅, h₆'.trans h₆⟩
  simulation := h'.simulation.trans h.simulation
  captured := h'.captured.trans h.captured
  bodies := h'.bodies.trans h.bodies
  simulatingMatch := h'.simulatingMatch.trans h.simulatingMatch
  tick := h'.tick.trans h.tick
  idsTaken := h.idsTaken.trans h'.idsTaken
  playing := by
    intro hmatch
    obtain ⟨hbefore, hsame⟩ := h'.playing hmatch
    obtain ⟨hfirst, hsame'⟩ := h.playing hbefore
    exact ⟨hfirst, fun peer session hpeer => hsame' peer session (hsame peer session hpeer)⟩

/-- A handler's answer: there is one, the members are still the players, and the Simulation thread's
    side is left alone. -/
def Stays (ids : ℕ → SessionId) (host : Impl) (answer : Option Impl) : Prop :=
  ∃ host', answer = some host' ∧ Enrolled ids host' ∧ Aside host host'

section
variable {host host' : Impl} {peer : PeerId} {answer : Option Impl}

theorem stays_bind {then_ : Impl → Option Impl} (h : Stays ids host answer)
    (hthen : ∀ host', Enrolled ids host' → Aside host host' → Stays ids host' (then_ host')) :
    Stays ids host (answer.bind then_) := by
  obtain ⟨host', rfl, henrolled, haside⟩ := h
  obtain ⟨last, hlast, hends, haside'⟩ := hthen host' henrolled haside
  exact ⟨last, hlast, hends, haside.trans haside'⟩

theorem stays_after (haside : Aside host host') (h : Stays ids host' answer) :
    Stays ids host answer := by
  obtain ⟨last, rfl, henrolled, haside'⟩ := h
  exact ⟨last, rfl, henrolled, haside.trans haside'⟩

/-- What neither the members nor the Simulation thread are in changes nothing of them. -/
theorem stays_same (h : Enrolled ids host) {host' : Impl}
    (hsame : host' = { host with
      matchWinner := host'.matchWinner
      gate := host'.gate
      debugSubscriptions := host'.debugSubscriptions
      told := host'.told
      closed := host'.closed }) : Enrolled ids host' ∧ Aside host host' := by
  rw [hsame]
  exact ⟨⟨h.booked, h.held, h.only⟩, ⟨rfl, rfl, rfl, rfl, rfl, rfl⟩, rfl, rfl, rfl, rfl, rfl, le_rfl,
    fun h => ⟨h, fun _ _ h => h⟩⟩

/-! ### Sending -/

theorem mapM_isSome {α β : Type} {f : α → Option β} {items : List α}
    (h : ∀ item ∈ items, ∃ b, f item = some b) : ∃ bs, items.mapM f = some bs := by
  induction items with
  | nil => exact ⟨[], rfl⟩
  | cons item rest ih =>
      obtain ⟨b, hb⟩ := h item List.mem_cons_self
      obtain ⟨bs, hbs⟩ := ih fun other hother => h other (List.mem_cons_of_mem _ hother)
      exact ⟨b :: bs, by rw [List.mapM_cons, hb, hbs]; rfl⟩

/-- Everyone there is to tell has a player. -/
theorem sendTo_eq (h : Enrolled ids host) {sessions : List SessionId} (message : Told)
    (hsessions : ∀ session ∈ sessions, ∃ peer, host.match_.sessionOf peer = some session) :
    ∃ told, host.sendTo sessions message = some { host with told } := by
  obtain ⟨players, hplayers⟩ : ∃ players,
      sessions.mapM (fun session => host.players.lookup session) = some players := by
    refine mapM_isSome fun session hsession => ?_
    obtain ⟨peer, hpeer⟩ := hsessions session hsession
    obtain ⟨player, hplayer, -⟩ := h.held peer session hpeer
    exact ⟨player, hplayer⟩
  refine ⟨host.told ++ players.map fun player => (player.peer, message), ?_⟩
  rw [sendTo, hplayers]
  rfl

theorem stays_sendTo (h : Enrolled ids host) {sessions : List SessionId} (message : Told)
    (hsessions : ∀ session ∈ sessions, ∃ peer, host.match_.sessionOf peer = some session) :
    Stays ids host (host.sendTo sessions message) := by
  obtain ⟨told, htold⟩ := sendTo_eq h message hsessions
  exact ⟨_, htold, stays_same h rfl⟩

theorem stays_sendRoster (h : Enrolled ids host) : Stays ids host host.sendRoster :=
  stays_sendTo h _ fun _ hsession => Match.mem_roster hsession

/-! ### Departures -/

theorem stays_handleDisconnect (h : Enrolled ids host) (peer : PeerId) :
    Stays ids host (host.handleDisconnect peer) := by
  rw [handleDisconnect]
  cases hsession : host.match_.sessionOf peer with
  | none => exact ⟨_, rfl, stays_same h rfl⟩
  | some session =>
      simp only
      have hleft (other : PeerId) := host.match_.sessionOf_leave peer other
      have hfewer := Match.fewer_leave host.match_ peer
      have hmatch : (host.match_.leave peer).2.inMatch = true → host.match_.inMatch = true := by
        rcases host.match_.leave_cases peer with ⟨-, h⟩ | ⟨hin, -⟩ | ⟨hin, -⟩ | ⟨hout, h⟩
        · rw [h]
          exact id
        · exact fun _ => hin
        · exact fun _ => hin
        · rw [h]
          intro hin
          rw [hout] at hin
          cases hin
      revert hleft hfewer hmatch
      generalize host.match_.leave peer = departed
      intro hleft hfewer hmatch
      obtain ⟨departure, left⟩ := departed
      have hgone : Enrolled ids { host with
          gate := host.gate.left peer, debugSubscriptions := host.debugSubscriptions.forget peer
          match_ := left, players := host.players.erase session } := by
        refine ⟨hfewer.booked h.booked, fun other held hother => ?_, fun held hheld => ?_⟩
        · simp only [hleft] at hother
          split_ifs at hother with hsame
          obtain ⟨player, hplayer, hpeer⟩ := h.held other held hother
          refine ⟨player, ?_, hpeer⟩
          rw [AList.lookup_erase_eq, if_neg]
          · exact hplayer
          · rintro rfl
            exact hsame (h.booked.apart other peer held hother hsession)
        · obtain ⟨hne, hin⟩ := AList.mem_erase.mp hheld
          obtain ⟨other, hother⟩ := h.only held hin
          refine ⟨other, ?_⟩
          simp only [hleft]
          rw [if_neg]
          · exact hother
          · rintro rfl
            rw [hsession] at hother
            exact hne (Option.some.inj hother).symm
      have haside : Aside host { host with
          gate := host.gate.left peer, debugSubscriptions := host.debugSubscriptions.forget peer
          match_ := left, players := host.players.erase session } := by
        refine ⟨⟨rfl, rfl, rfl, rfl, hfewer.characters, hfewer.playerCount⟩, rfl, rfl, rfl, rfl, rfl,
          hfewer.idsTaken, fun hin => ⟨hmatch hin, fun other held hother => hfewer.sessionOf hother⟩⟩
      cases departure with
      | none => exact ⟨_, rfl, hgone, haside⟩
      | fromMatch => exact ⟨_, rfl, hgone, haside⟩
      | fromLobby => exact stays_after haside (stays_sendRoster hgone)
      | endedMatch =>
          obtain ⟨hends, haside'⟩ := @stays_same ids _ hgone { host with
            gate := host.gate.left peer, debugSubscriptions := host.debugSubscriptions.forget peer
            match_ := left, players := host.players.erase session, matchWinner := none } rfl
          exact ⟨_, rfl, hends, haside.trans haside'⟩

theorem stays_expel (h : Enrolled ids host) (peer : PeerId) : Stays ids host (host.expel peer) := by
  obtain ⟨hends, haside⟩ := @stays_same ids host h
    { host with gate := host.gate.expel peer, closed := host.closed ++ [peer] } rfl
  exact stays_after haside (stays_handleDisconnect hends peer)

/-- A peer not expelled for what it did is where it was. -/
theorem stays_judge (h : Enrolled ids host) (peer : PeerId) (rejection : PeerRejection) (now : ℤ) :
    ∃ verdict host', host.judge peer rejection now = some (verdict, host') ∧ Enrolled ids host' ∧
      Aside host host' ∧
      (verdict = .keep → host'.match_ = host.match_ ∧ host'.players = host.players) := by
  rw [judge]
  generalize host.gate.judge peer rejection now = judged
  obtain ⟨verdict, gate⟩ := judged
  obtain ⟨hsame, haside⟩ := @stays_same ids host h { host with gate } rfl
  cases verdict with
  | keep => exact ⟨_, _, rfl, hsame, haside, fun _ => ⟨rfl, rfl⟩⟩
  | disconnect =>
      obtain ⟨host', hexpel, henrolled, haside'⟩ := stays_expel hsame peer
      refine ⟨.disconnect, host', ?_, henrolled, haside.trans haside', fun hkeep => ?_⟩
      · simp only [hexpel]
        rfl
      · cases hkeep

theorem stays_judged (h : Enrolled ids host) (peer : PeerId) (rejection : PeerRejection) (now : ℤ) :
    Stays ids host (host.judged peer rejection now) := by
  obtain ⟨verdict, host', hjudge, henrolled, haside, -⟩ := stays_judge h peer rejection now
  exact ⟨host', by rw [judged, hjudge]; rfl, henrolled, haside⟩

/-! ### Messages -/

theorem handleJoinRequest_ok {request : JoinRequest} {now : ℤ} {admission : Admission}
    {joined : Match} (hjoin : host.match_.join ids peer request = (.ok admission, joined)) :
    ∃ admitted : Impl, admitted = { host with
        match_ := joined
        gate := host.gate.admitted peer
        told := host.told ++ [(peer, .joinAccepted admission)] } ∧
      host.handleJoinRequest ids peer request now =
        if admission.session ∈ admitted.players then some admitted
        else sendRoster { admitted with
          players := admitted.players.insert admission.session ⟨peer, .new admitted.tickRateHz⟩ } :=
  ⟨_, rfl, by rw [handleJoinRequest, hjoin]; rfl⟩

theorem stays_handleJoinRequest (hids : Function.Injective ids) (h : Enrolled ids host)
    (peer : PeerId) (request : JoinRequest) (now : ℤ) :
    Stays ids host (host.handleJoinRequest ids peer request now) := by
  cases hjoin : host.match_.join ids peer request with
  | mk answer joined =>
      cases answer with
      | error refusal =>
          obtain ⟨hsame, haside⟩ := @stays_same ids host h
            (host.reply peer (.joinRefused refusal)) rfl
          rw [handleJoinRequest, hjoin]
          exact stays_after haside (stays_judged hsame peer .joinRefused now)
      | ok admission =>
          have hbooked := Match.booked_join hids h.booked hjoin
          obtain ⟨admitted, hadmitted, hanswer⟩ := @handleJoinRequest_ok ids host peer request now _ _
            hjoin
          have hplayers : admitted.players = host.players := by rw [hadmitted]
          rw [hanswer, hplayers]
          rcases Match.join_cases hjoin with ⟨rfl, hsession⟩ | ⟨hnone, hlobby, -, -, hsession, hjoined⟩
          · obtain ⟨player, hplayer, -⟩ := h.held peer _ hsession
            rw [if_pos (AList.mem_iff_lookup.mpr ⟨player, hplayer⟩)]
            exact ⟨_, rfl, stays_same h (by rw [hadmitted])⟩
          · have hfresh : admission.session ∉ host.players := by
              intro hin
              obtain ⟨other, hother⟩ := h.only _ hin
              obtain ⟨i, hi, hsame⟩ := h.booked.given other _ hother
              rw [hsession] at hsame
              exact absurd (hids hsame) (by omega)
            have hsessions (other : PeerId) : joined.sessionOf other =
                if other = peer then some admission.session else host.match_.sessionOf other := by
              rw [hjoined, Match.sessionOf_insert, hsession]
            rw [if_neg hfresh]
            obtain ⟨entered, hentered⟩ : ∃ entered : Impl, entered = { admitted with
                players := host.players.insert admission.session ⟨peer, .new admitted.tickRateHz⟩ } :=
              ⟨_, rfl⟩
            have hmatch : entered.match_ = joined := by rw [hentered, hadmitted]
            have henrolled : Enrolled ids entered := by
              refine ⟨hmatch ▸ hbooked, fun other held hother => ?_, fun held hheld => ?_⟩
              · rw [hmatch, hsessions] at hother
                simp only [hentered, AList.lookup_insert_eq]
                split_ifs at hother with hsame
                · cases hother
                  exact ⟨_, if_pos rfl, hsame.symm⟩
                · obtain ⟨player, hplayer, hpeer⟩ := h.held other held hother
                  refine ⟨player, ?_, hpeer⟩
                  rw [if_neg, hplayer]
                  rintro rfl
                  exact hfresh (AList.mem_iff_lookup.mpr ⟨player, hplayer⟩)
              · rw [hmatch]
                simp only [hentered] at hheld
                rcases (AList.mem_insert _).mp hheld with rfl | hin
                · exact ⟨peer, by rw [hsessions, if_pos rfl]⟩
                · obtain ⟨other, hother⟩ := h.only held hin
                  refine ⟨other, ?_⟩
                  rw [hsessions, if_neg, hother]
                  rintro rfl
                  rw [hnone] at hother
                  cases hother
            have haside : Aside host entered := by
              rw [hentered, hadmitted, hjoined]
              refine ⟨⟨rfl, rfl, rfl, rfl, rfl, rfl⟩, rfl, rfl, rfl, rfl, rfl, Nat.le_succ _,
                fun hin => ?_⟩
              rw [hlobby] at hin
              cases hin
            rw [← hentered]
            exact stays_after haside (stays_sendRoster henrolled)

theorem stays_handleReady (h : Enrolled ids host) (peer : PeerId) (version : UInt32) (now : ℤ) :
    Stays ids host (host.handleReady peer version now) := by
  rw [handleReady]
  have hfewer := Match.fewer_ready host.match_ peer version
  have hsession := Match.sessionOf_ready host.match_ peer version
  have hmatch : (host.match_.ready peer version).2.inMatch = host.match_.inMatch := by
    rw [Match.ready]
    split_ifs <;> rfl
  revert hfewer hsession hmatch
  generalize host.match_.ready peer version = counted
  intro hfewer hsession hmatch
  obtain ⟨taken, ready⟩ := counted
  cases taken with
  | false => exact stays_judged h peer .staleReady now
  | true =>
      refine ⟨_, rfl, ⟨hfewer.booked h.booked, fun other held hother => ?_, fun held hheld => ?_⟩,
        ⟨rfl, rfl, rfl, rfl, hfewer.characters, hfewer.playerCount⟩, rfl, rfl, rfl, rfl, rfl,
        hfewer.idsTaken, fun hin => ⟨hmatch ▸ hin, fun other held hother => hfewer.sessionOf hother⟩⟩
      · exact h.held other held (hsession other ▸ hother)
      · obtain ⟨other, hother⟩ := h.only held hheld
        exact ⟨other, (hsession other).trans hother⟩

/-- A player whose queue is another is enrolled as before. -/
theorem enrolled_commands (h : Enrolled ids host) {session : SessionId} {player : HostPlayer}
    (hplayer : host.players.lookup session = some player) (commands : CommandQueue) :
    Enrolled ids { host with
      players := host.players.insert session { player with commands } } := by
  refine ⟨h.booked, fun other held hother => ?_, fun held hheld => ?_⟩
  · obtain ⟨old, hold, hpeer⟩ := h.held other held hother
    rw [AList.lookup_insert_eq]
    split_ifs with hsame
    · rw [hsame, hplayer] at hold
      cases hold
      exact ⟨_, rfl, hpeer⟩
    · exact ⟨old, hold, hpeer⟩
  · rcases (AList.mem_insert _).mp hheld with rfl | hin
    · exact h.only held (AList.mem_iff_lookup.mpr ⟨player, hplayer⟩)
    · exact h.only held hin

theorem stays_takeIn (vecLength : Math.Vec3 → Lib.Binary32) (peer : PeerId) (session : SessionId)
    (now : ℤ) (commands : List Link.SequencedCommand) (h : Enrolled ids host)
    (hsession : host.match_.sessionOf peer = some session) :
    Stays ids host (takeIn vecLength peer session now commands host) := by
  induction commands generalizing host with
  | nil => exact ⟨host, rfl, h, .refl host⟩
  | cons command rest ih =>
      obtain ⟨player, hplayer, -⟩ := h.held peer session hsession
      rw [takeIn, hplayer, Option.bind_some]
      cases player.commands.tryEnqueue vecLength command with
      | ok taken =>
          have haside : Aside host { host with
              players := host.players.insert session { player with commands := taken.2 } } :=
            ⟨⟨rfl, rfl, rfl, rfl, rfl, rfl⟩, rfl, rfl, rfl, rfl, rfl, le_rfl,
              fun hin => ⟨hin, fun _ _ hother => hother⟩⟩
          exact stays_after haside (ih (enrolled_commands h hplayer taken.2) hsession)
      | error rejection =>
          obtain ⟨verdict, host', hjudge, henrolled, haside, hkeep⟩ :=
            stays_judge h peer (toPeerRejection rejection) now
          simp only [hjudge, Option.bind_some]
          cases verdict with
          | keep =>
              refine stays_after haside (ih henrolled ?_)
              rw [(hkeep rfl).1]
              exact hsession
          | disconnect => exact ⟨host', rfl, henrolled, haside⟩

theorem stays_handleCommands (vecLength : Math.Vec3 → Lib.Binary32) (h : Enrolled ids host)
    (peer : PeerId) (commands : List Link.SequencedCommand) (now : ℤ) :
    Stays ids host (host.handleCommands vecLength peer commands now) := by
  rw [handleCommands]
  cases hsession : host.match_.sessionOf peer with
  | none => exact stays_judged h peer .commandsBeforeJoining now
  | some session =>
      simp only
      split_ifs
      · exact stays_judged h peer .commandsOutsideMatch now
      · obtain ⟨player, hplayer, -⟩ := h.held peer session hsession
        rw [hplayer, Option.bind_some]
        exact stays_takeIn vecLength peer session now commands h hsession

theorem stays_onMessage (hids : Function.Injective ids) (vecLength : Math.Vec3 → Lib.Binary32)
    (h : Enrolled ids host) (from_ : PeerId) (said : PeerSaid) (now : ℤ) :
    Stays ids host (host.onMessage ids vecLength from_ said now) := by
  have hrefused : Stays ids host (host.refuseAsNoReplayServer from_ now) := by
    obtain ⟨hsame, haside⟩ := @stays_same ids host h
      (host.reply from_ (.joinRefused .notAReplayServer)) rfl
    exact stays_after haside (stays_judged hsame from_ .joinRefused now)
  rw [onMessage]
  split_ifs
  · exact ⟨host, rfl, h, .refl host⟩
  · cases said with
    | undecodable => exact stays_judged h from_ .undecodable now
    | notAClientMessage => exact stays_judged h from_ .notAClientMessage now
    | joinRequest request => exact stays_handleJoinRequest hids h from_ request now
    | commands commands => exact stays_handleCommands vecLength h from_ commands now
    | ready version => exact stays_handleReady h from_ version now
    | debugSubscribe flags => exact ⟨_, rfl, stays_same h rfl⟩
    | replayListRequest => exact hrefused
    | replayRequest => exact hrefused

/-! ### Rounds and Match ends -/

theorem stays_expelAll (h : Enrolled ids host) (peers : List PeerId) :
    Stays ids host (peers.foldlM (fun (host : Impl) peer => host.expel peer) host) := by
  induction peers generalizing host with
  | nil => exact ⟨host, rfl, h, .refl host⟩
  | cons peer rest ih => exact stays_bind (stays_expel h peer) fun host' henrolled _ => ih henrolled

theorem stays_finishRound (h : Enrolled ids host) (now : ℤ) :
    Stays ids host (host.finishRound now) := by
  obtain ⟨hsame, haside⟩ := @stays_same ids host h
    { host with gate := (host.gate.takeOverdue now).2 } rfl
  obtain ⟨host', hexpelled, henrolled, haside'⟩ :=
    stays_expelAll hsame (host.gate.takeOverdue now).1
  obtain ⟨hends, haside''⟩ := @stays_same ids host' henrolled
    { host' with gate := host'.gate.endRound } rfl
  refine ⟨_, ?_, hends, (haside.trans haside').trans haside''⟩
  rw [finishRound]
  simp only [hexpelled]
  rfl

theorem stays_endMatch (h : Enrolled ids host) (winner : Option SessionId) :
    Stays ids host (host.endMatch winner) := by
  rw [endMatch]
  have hfewer := Match.fewer_endMatch host.match_ winner
  have hsession := Match.sessionOf_endMatch host.match_ winner
  have hended : ∀ ended, (host.match_.endMatch winner).1 = some ended →
      ended.players = host.match_.playing ∧ (host.match_.endMatch winner).2.inMatch = false := by
    intro ended hended
    rw [Match.endMatch] at hended ⊢
    split_ifs at hended ⊢
    cases hended
    exact ⟨rfl, rfl⟩
  revert hfewer hsession hended
  generalize host.match_.endMatch winner = ending
  intro hfewer hsession hended
  obtain ⟨ended, lobby⟩ := ending
  cases ended with
  | none => exact ⟨host, rfl, h, .refl host⟩
  | some ended =>
      obtain ⟨hplayers, hlobby⟩ := hended ended rfl
      have henrolled : Enrolled ids { host with match_ := lobby } := by
        refine ⟨hfewer.booked h.booked, fun other held hother => ?_, fun held hheld => ?_⟩
        · exact h.held other held (hsession other ▸ hother)
        · obtain ⟨other, hother⟩ := h.only held hheld
          exact ⟨other, (hsession other).trans hother⟩
      have haside : Aside host { host with match_ := lobby } := by
        refine ⟨⟨rfl, rfl, rfl, rfl, hfewer.characters, hfewer.playerCount⟩, rfl, rfl, rfl, rfl, rfl,
          hfewer.idsTaken, fun hin => ?_⟩
        exact absurd (hlobby.symm.trans hin) Bool.false_ne_true
      have hmembers : ∀ session ∈ ended.players, ∃ peer, lobby.sessionOf peer = some session := by
        intro session hin
        rw [hplayers] at hin
        obtain ⟨peer, hpeer⟩ := (Match.mem_playing.mp hin).2
        exact ⟨peer, (hsession peer).trans hpeer⟩
      refine stays_after haside (stays_bind (stays_sendTo henrolled _ hmembers) ?_)
      intro host' henrolled' _
      obtain ⟨hsame, haside'⟩ := @stays_same ids host' henrolled'
        { host' with matchWinner := ended.winner } rfl
      exact stays_after haside' (stays_sendRoster hsame)

end
end Impl
end Augusta.Host
