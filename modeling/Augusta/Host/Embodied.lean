import Augusta.Host.HostRun

/-! The bodies of a Match, phase by phase of `PrepareTick`.

      takeOutEndedMatch   no bodies                          of a Match that ended
      eraseBodies         the bodies of who is playing       of the one in progress
      startMatchIfReady   a body for each                    of one that starts
      takeCommand …       one Command for each of them -/

namespace Augusta.Host
open Lib (Table)

namespace Impl
variable {ids : ℕ → SessionId} {host host' : Impl}

/-- Who plays has a body, of its own, and the World's players are those bodies. -/
structure Embodied (host : Impl) : Prop where
  few : host.match_.playerCount < 256
  known : ∀ character ∈ host.match_.characters, character ∈ host.characters
  underway : host.match_.inMatch = true → host.simulatingMatch = true
  idle : host.simulatingMatch = false → host.bodies = ∅
  bodied : host.match_.inMatch = true → ∀ peer session,
    host.match_.sessionOf peer = some session → session ∈ host.bodies
  apart : host.bodies.values.Nodup
  world : ∀ entity, entity ∈ host.simulation.players ↔ entity ∈ host.bodies.values

theorem Embodied.aside (h : Embodied host) (haside : Aside host host') : Embodied host' := by
  obtain ⟨-, hcharacters, -, -, hcast, hcount⟩ := haside.config
  refine ⟨hcount ▸ h.few, ?_, fun hin => ?_, fun hidle => ?_, fun hin peer session hpeer => ?_, ?_, ?_⟩
  · rw [hcharacters, hcast]
    exact h.known
  · rw [haside.simulatingMatch]
    exact h.underway (haside.playing hin).1
  · rw [haside.simulatingMatch] at hidle
    rw [haside.bodies]
    exact h.idle hidle
  · obtain ⟨hbefore, hsame⟩ := haside.playing hin
    rw [haside.bodies]
    exact h.bodied hbefore peer session (hsame peer session hpeer)
  · rw [haside.bodies]
    exact h.apart
  · rw [haside.bodies, haside.simulation]
    exact h.world

/-! ### Captures -/

@[simp] theorem capture_captured (events : List CaptureEvent) : (host.capture events).captured =
    if host.capturing then host.captured ++ events else host.captured := by
  rw [capture]
  split_ifs <;> rfl

/-- Capturing changes nothing but what the Capturer has been told. -/
theorem capture_eq (events : List CaptureEvent) :
    host.capture events = { host with captured := (host.capture events).captured } := by
  rw [capture]
  split_ifs <;> rfl

/-! ### An ended Match -/

theorem takeOutEndedMatch_eq (stored : BodyOrder) : ∃ captured,
    host.takeOutEndedMatch stored = { host with
      captured, simulation := host.simulation.endMatch, bodies := ∅, simulatingMatch := false } := by
  rw [takeOutEndedMatch]
  simp only
  rw [capture_eq]
  exact ⟨_, rfl⟩

theorem embodied_takeOutEndedMatch (h : Embodied host) (hended : host.match_.inMatch = false)
    (stored : BodyOrder) : Embodied (host.takeOutEndedMatch stored) := by
  obtain ⟨captured, heq⟩ := @takeOutEndedMatch_eq host stored
  rw [heq]
  have hlobby : ∀ {P : Prop}, host.match_.inMatch = true → P := fun hin => by
    rw [hended] at hin
    cases hin
  refine ⟨h.few, h.known, hlobby, fun _ => rfl, hlobby, List.nodup_nil, fun entity => ?_⟩
  constructor
  · exact fun hin => absurd hin (AList.notMem_empty entity)
  · exact fun hin => absurd hin List.not_mem_nil

/-! ### Bodies of players who left -/

/-- The bodies of those who do not play. -/
def leaving (host : Impl) (stored : BodyOrder) : List (SessionId × EntityId) :=
  (stored.order host.bodyList).filter fun body => !host.match_.isPlaying body.1

theorem mem_leaving {stored : BodyOrder} {session : SessionId} {entity : EntityId} :
    (session, entity) ∈ host.leaving stored ↔
      host.bodies.lookup session = some entity ∧ host.match_.isPlaying session = false := by
  simp only [leaving, List.mem_filter, (stored.perm _).mem_iff, bodyList, List.mem_map,
    Prod.mk.injEq, Bool.not_eq_true']
  refine and_congr_left fun _ => ?_
  rw [← AList.mem_entries_iff]
  constructor
  · rintro ⟨⟨_, _⟩, hentry, rfl, rfl⟩
    exact hentry
  · exact fun hentry => ⟨⟨session, entity⟩, hentry, rfl, rfl⟩

theorem eraseBodies_eq (stored : BodyOrder) : host.eraseBodies stored = { host with
    captured := (host.capture ((host.leaving stored).map fun body =>
      .leave (host.tick + 1) body.2)).captured
    simulation := { host.simulation with
      players := ((host.leaving stored).map (·.2)).foldl (fun players entity => players.erase entity)
        host.simulation.players }
    bodies := host.bodies.filter fun session _ => host.match_.isPlaying session } := by
  rw [eraseBodies]
  simp only
  rw [capture_eq, ← Simulation.removeAll_eq, List.foldl_map]
  rfl

/-- A body is one session's. -/
theorem session_of_body (h : Embodied host) {session other : SessionId} {entity : EntityId}
    (hsession : host.bodies.lookup session = some entity)
    (hother : host.bodies.lookup other = some entity) : session = other := by
  have hnodup := h.apart
  rw [AList.values] at hnodup
  have := List.inj_on_of_nodup_map hnodup (AList.mem_entries_iff.mpr hsession)
    (AList.mem_entries_iff.mpr hother) rfl
  exact congrArg Sigma.fst this

theorem embodied_eraseBodies (h : Embodied host) (stored : BodyOrder) :
    Embodied (host.eraseBodies stored) ∧
      ∀ session, session ∈ (host.eraseBodies stored).bodies →
        host.match_.isPlaying session = true := by
  rw [eraseBodies_eq]
  have hlookup (session : SessionId) (entity : EntityId) :
      (host.bodies.filter fun session _ => host.match_.isPlaying session).lookup session =
          some entity ↔
        host.bodies.lookup session = some entity ∧ host.match_.isPlaying session = true := by
    rw [AList.lookup_filter, Option.filter_eq_some_iff]
  refine ⟨⟨h.few, h.known, h.underway, fun hidle => ?_, fun hin peer session hpeer => ?_, ?_,
    fun entity => ?_⟩, fun session hsession => ?_⟩
  · simp only [h.idle hidle]
    rfl
  · obtain ⟨entity, hentity⟩ := AList.mem_iff_lookup.mp (h.bodied hin peer session hpeer)
    exact AList.mem_iff_lookup.mpr ⟨entity, (hlookup session entity).mpr
      ⟨hentity, Match.isPlaying_iff.mpr ⟨hin, peer, hpeer⟩⟩⟩
  · exact h.apart.sublist (List.filter_sublist.map _)
  · change entity ∈ List.foldl _ _ _ ↔ _
    rw [Simulation.mem_eraseAll, h.world, AList.mem_values_iff, AList.mem_values_iff]
    simp only [List.mem_map, Prod.exists, hlookup]
    constructor
    · rintro ⟨hstays, session, hsession⟩
      refine ⟨session, hsession, ?_⟩
      by_contra hgone
      rw [Bool.not_eq_true] at hgone
      exact hstays ⟨session, entity, mem_leaving.mpr ⟨hsession, hgone⟩, rfl⟩
    · rintro ⟨session, hsession, hplays⟩
      refine ⟨?_, session, hsession⟩
      rintro ⟨other, _, hleaving, rfl⟩
      obtain ⟨hother, hgone⟩ := mem_leaving.mp hleaving
      rw [session_of_body h hother hsession, hplays] at hgone
      cases hgone
  · obtain ⟨entity, hentity⟩ := AList.mem_iff_lookup.mp hsession
    exact ((hlookup session entity).mp hentity).2

/-! ### A Match that starts -/

theorem map_giveEntities {β : Type} (f : SessionId → String → Option Math.Vec3 → β)
    (members : List Member) : ∀ entity : EntityId,
      (Match.giveEntities entity members).map (fun player =>
          f player.session player.character player.spawn) =
        members.map fun member => f member.session member.character member.spawn := by
  induction members with
  | nil => exact fun _ => rfl
  | cons member rest ih =>
      intro entity
      rw [Match.giveEntities, List.map_cons, List.map_cons, ih]

/-- Fewer than 2³² in a row are each another. -/
theorem nodup_giveEntities {members : List Member} (hfew : members.length < 2 ^ 32)
    (entity : EntityId) : ((Match.giveEntities entity members).map (·.entity)).Nodup := by
  have hentity : UInt32.ofNat (entity.toNat + 2 ^ 32 - 1 + 1) = entity := by
    rw [Nat.sub_add_cancel (by omega), UInt32.ofNat_add, UInt32.ofNat_toNat]
    exact UInt32.add_zero entity
  have hcount := Match.giveEntities_entity members (entity.toNat + 2 ^ 32 - 1)
  rw [hentity] at hcount
  rw [hcount]
  refine List.Nodup.map_on (fun i hi j hj hij => ?_) List.nodup_range
  rw [List.mem_range] at hi hj
  have hmod := congrArg UInt32.toNat hij
  simp only [UInt32.toNat_ofNat'] at hmod
  omega

/-- What starts is the Lobby as it is: each member in it, in order of its session. -/
theorem tryStart_cases {m : Match} :
    m.tryStart ids = (none, m) ∨ (m.inMatch = false ∧ m.members.size = m.playerCount ∧
      m.tryStart ids = (some ⟨Match.giveEntities m.nextEntity m.membersBySession, ids m.idsTaken⟩,
        { m with
          inMatch := true
          nextEntity := m.nextEntity + UInt32.ofNat m.members.size
          idsTaken := m.idsTaken + 1 })) := by
  rw [Match.tryStart]
  split_ifs with hgate hready
  · exact .inl rfl
  · push Not at hgate
    exact .inr ⟨Bool.not_eq_true _ ▸ hgate.1, hgate.2.1, rfl⟩
  · exact .inl rfl

/-- A body added for each player of a start. -/
theorem emplaceAll {players : List MatchPlayer} {bodies : Table SessionId EntityId}
    (hsessions : (players.map (·.session)).Nodup)
    (hnew : ∀ player ∈ players, player.session ∉ bodies) :
    let given := players.foldl (fun bodies player => bodies.emplace player.session player.entity)
      bodies
    given.values = (players.map (·.entity)).reverse ++ bodies.values ∧
      ∀ session, session ∈ given ↔ session ∈ players.map (·.session) ∨ session ∈ bodies := by
  induction players generalizing bodies with
  | nil => simp
  | cons player rest ih =>
      rw [List.map_cons, List.nodup_cons] at hsessions
      have hout : player.session ∉ bodies := hnew player List.mem_cons_self
      have hinsert : bodies.emplace player.session player.entity =
          bodies.insert player.session player.entity := if_neg hout
      obtain ⟨hvalues, hkeys⟩ := @ih (bodies.emplace player.session player.entity) hsessions.2 (by
        intro other hother hin
        rw [hinsert] at hin
        rcases (AList.mem_insert _).mp hin with hsame | hold
        · exact hsessions.1 (hsame ▸ List.mem_map_of_mem hother)
        · exact hnew other (List.mem_cons_of_mem _ hother) hold)
      refine ⟨?_, fun session => ?_⟩
      · rw [List.foldl_cons, hvalues, hinsert, AList.values_insert hout]
        simp
      · rw [List.foldl_cons, hkeys session, hinsert, AList.mem_insert, List.map_cons, List.mem_cons]
        tauto

/-- Every player's Commands start afresh; no one else's are touched. -/
theorem startAfresh_all (h : Enrolled ids host) {sessions : List SessionId}
    (hsessions : ∀ session ∈ sessions, ∃ peer, host.match_.sessionOf peer = some session) :
    ∃ players, sessions.foldlM (fun (host : Impl) session => host.startAfresh session) host =
        some { host with players } ∧ Enrolled ids { host with players } := by
  induction sessions generalizing host with
  | nil => exact ⟨host.players, rfl, h⟩
  | cons session rest ih =>
      obtain ⟨peer, hpeer⟩ := hsessions session List.mem_cons_self
      obtain ⟨player, hplayer, -⟩ := h.held peer session hpeer
      obtain ⟨players, hplayers, henrolled⟩ := ih (enrolled_commands h hplayer (.new host.tickRateHz))
        fun other hother => hsessions other (List.mem_cons_of_mem _ hother)
      refine ⟨players, ?_, henrolled⟩
      rw [List.foldlM_cons, startAfresh, hplayer]
      exact hplayers

/-- What a Match's start makes of a server whose last one is out of its World. -/
structure Began (ids : ℕ → SessionId) (started : ℤ) (host host' : Impl) : Prop where
  lobby : host.match_.inMatch = false
  inMatch : host'.match_.inMatch = true
  few : host'.match_.members.size < 256
  idsTaken : host'.match_.idsTaken = host.match_.idsTaken + 1
  clock : host'.tick = host.tick ∧ host'.simulation.tick = host.simulation.tick
  bullets : host'.simulation.bullets = []
  simulating : host'.simulatingMatch = true ∧ host'.capturing = host.capturing
  captured : ∃ entrants : List CaptureEntrant,
    entrants.map (·.entity) = host'.bodies.values.reverse ∧
    entrants.map (·.session) = host'.match_.membersBySession.map (·.session) ∧
    host'.captured = (host.capture [.startMatch
      ⟨ids host.match_.idsTaken, entrants, host.tick + 1, started⟩]).captured

theorem mapM_map {α β γ : Type} {f : α → Option β} {g : β → γ} {g' : α → γ}
    (hf : ∀ a b, f a = some b → g b = g' a) {as : List α} {bs : List β} (h : as.mapM f = some bs) :
    bs.map g = as.map g' := by
  induction as generalizing bs with
  | nil =>
      cases h
      rfl
  | cons a rest ih =>
      rw [List.mapM_cons] at h
      obtain ⟨b, hb, h⟩ := Option.bind_eq_some_iff.mp h
      obtain ⟨bs', hbs, h⟩ := Option.bind_eq_some_iff.mp h
      cases h
      rw [List.map_cons, List.map_cons, hf a b hb, ih hbs]

/-- The entrants of a capture's Match start, where each spawned. -/
def captureEntrants (players : List MatchPlayer) (spawns : List Math.Vec3) : List CaptureEntrant :=
  List.zipWith (fun (player : MatchPlayer) spawn =>
    (⟨player.session, player.entity, player.character, spawn⟩ : CaptureEntrant)) players spawns

theorem captureEntrants_named {players : List MatchPlayer} {spawns : List Math.Vec3}
    (hlength : spawns.length = players.length) :
    (captureEntrants players spawns).map (·.entity) = players.map (·.entity) ∧
      (captureEntrants players spawns).map (·.session) = players.map (·.session) := by
  induction players generalizing spawns with
  | nil => exact ⟨rfl, rfl⟩
  | cons player rest ih =>
      cases spawns with
      | nil => cases hlength
      | cons spawn spawns =>
          obtain ⟨hentity, hsession⟩ := ih (Nat.succ.inj hlength)
          exact ⟨congrArg (player.entity :: ·) hentity, congrArg (player.session :: ·) hsession⟩

/-- The server a Match has just started on, before anyone is told. -/
def begun (host : Impl) (start : MatchStart) (inMatch : Match) (players : Table SessionId HostPlayer)
    (simulation : Simulation.World) (spawns : List Math.Vec3) (started : ℤ) : Impl :=
  { host with
    match_ := inMatch
    players, simulation
    bodies := start.players.foldl (fun bodies player => bodies.emplace player.session player.entity)
      host.bodies
    matchStartTick := host.tick + 1
    simulatingMatch := true
    matchId := start.name
    captured := (host.capture [.startMatch
      ⟨start.name, captureEntrants start.players spawns, host.tick + 1, started⟩]).captured }

theorem startMatchIfReady_eq {assigns : Policy.MatchView → ℕ → Option (List ℕ)} {started : ℤ}
    {start : MatchStart} {inMatch : Match} {entrants : List Simulation.World.Entrant}
    {players : Table SessionId HostPlayer}
    (hstart : host.match_.tryStart ids = (some start, inMatch))
    (hentrants : start.players.mapM host.entrantOf = some entrants)
    (hplayers : (start.players.map (·.session)).foldlM
      (fun (host : Impl) session => host.startAfresh session) { host with match_ := inMatch } =
        some { host with match_ := inMatch, players }) :
    host.startMatchIfReady ids assigns started =
      (host.begun start inMatch players
        (host.simulation.startMatch assigns entrants host.spawnPoints).1
        (host.simulation.startMatch assigns entrants host.spawnPoints).2 started).sendTo
          (start.players.map (·.session))
          (.matchStart start (host.simulation.startMatch assigns entrants host.spawnPoints).2
            (host.tick + 1)) := by
  rw [startMatchIfReady, hstart]
  simp only [hentrants, hplayers, Option.bind_eq_bind, Option.bind_some]
  rw [capture_eq]
  cases hcapturing : host.capturing <;> simp [begun, capture, hcapturing, captureEntrants]

theorem embodied_startMatchIfReady (h : Enrolled ids host) (hbodied : Embodied host)
    (hplaying : ∀ session, session ∈ host.bodies → host.match_.isPlaying session = true)
    (assigns : Policy.MatchView → ℕ → Option (List ℕ)) (started : ℤ) :
    ∃ host', host.startMatchIfReady ids assigns started = some host' ∧ Enrolled ids host' ∧
      Embodied host' ∧
      (∀ session, session ∈ host'.bodies → host'.match_.isPlaying session = true) ∧
      (host' = host ∨ Began ids started host host') := by
  rcases @tryStart_cases ids host.match_ with hnone | ⟨hlobby, hsize, hstart⟩
  · rw [startMatchIfReady, hnone]
    exact ⟨host, rfl, h, hbodied, hplaying, .inl rfl⟩
  · have hfewer := Match.fewer_tryStart ids host.match_
    have hsame := Match.sessionOf_tryStart ids host.match_
    rw [hstart] at hfewer hsame
    obtain ⟨start, hstarts⟩ : ∃ start : MatchStart, start =
        ⟨Match.giveEntities host.match_.nextEntity host.match_.membersBySession,
          ids host.match_.idsTaken⟩ := ⟨_, rfl⟩
    obtain ⟨inMatch, hinMatch⟩ : ∃ inMatch : Match, inMatch = { host.match_ with
        inMatch := true
        nextEntity := host.match_.nextEntity + UInt32.ofNat host.match_.members.size
        idsTaken := host.match_.idsTaken + 1 } := ⟨_, rfl⟩
    rw [← hstarts, ← hinMatch] at hstart
    rw [← hinMatch] at hfewer hsame
    have hsessions : start.players.map (·.session) =
        host.match_.membersBySession.map (·.session) := by
      rw [hstarts]
      exact map_giveEntities (fun session _ _ => session) _ _
    have hcast : start.players.map (·.character) =
        host.match_.membersBySession.map (·.character) := by
      rw [hstarts]
      exact map_giveEntities (fun _ character _ => character) _ _
    have hlength : start.players.length = host.match_.members.size := by
      rw [hstarts, Match.length_giveEntities, Match.length_membersBySession]
    have hfew := hbodied.few
    have hentities : (start.players.map (·.entity)).Nodup := by
      rw [hstarts]
      refine nodup_giveEntities ?_ _
      rw [Match.length_membersBySession, hsize]
      omega
    obtain ⟨entrants, hentrants⟩ : ∃ entrants, start.players.mapM host.entrantOf = some entrants := by
      refine mapM_isSome fun player hplayer => ?_
      have hin : player.character ∈ host.match_.membersBySession.map (·.character) :=
        hcast ▸ List.mem_map_of_mem hplayer
      obtain ⟨member, hmember, hcharacter⟩ := List.mem_map.mp hin
      rw [Match.membersBySession, List.mem_insertionSort, AList.mem_values_iff] at hmember
      obtain ⟨peer, hpeer⟩ := hmember
      obtain ⟨clips, hclips⟩ := AList.mem_iff_lookup.mp
        (hbodied.known _ (h.booked.cast peer member hpeer))
      rw [hcharacter] at hclips
      exact ⟨_, by rw [entrantOf, hclips]; rfl⟩
    have hnames : entrants.map (·.entity) = start.players.map (·.entity) := by
      refine mapM_map (fun player entrant hentrant => ?_) hentrants
      obtain ⟨clips, -, hmade⟩ := Option.bind_eq_some_iff.mp hentrant
      cases hmade
      rfl
    have henrolled : Enrolled ids { host with match_ := inMatch } := by
      refine ⟨hfewer.booked h.booked, fun peer session hpeer => ?_, fun session hin => ?_⟩
      · exact h.held peer session (hsame peer ▸ hpeer)
      · obtain ⟨peer, hpeer⟩ := h.only session hin
        exact ⟨peer, (hsame peer).trans hpeer⟩
    have hmembers : ∀ session ∈ start.players.map (·.session),
        ∃ peer, inMatch.sessionOf peer = some session := by
      intro session hin
      rw [hsessions] at hin
      obtain ⟨peer, hpeer⟩ := Match.mem_sessions.mp hin
      exact ⟨peer, (hsame peer).trans hpeer⟩
    obtain ⟨players, hplayers, hafresh⟩ := startAfresh_all henrolled hmembers
    obtain ⟨simulation, hsimulation⟩ : ∃ simulation, simulation =
        host.simulation.startMatch assigns entrants host.spawnPoints := ⟨_, rfl⟩
    obtain ⟨hpresent, hbullets, hclock, hspawned⟩ :=
      Simulation.startMatch_present host.simulation assigns entrants host.spawnPoints
    have heq := @startMatchIfReady_eq ids host assigns started _ _ _ _ hstart hentrants hplayers
    rw [← hsimulation] at heq hpresent hbullets hclock hspawned
    have hnone : ∀ session, session ∉ host.bodies := by
      intro session hin
      have hplays := (Match.isPlaying_iff.mp (hplaying session hin)).1
      rw [hlobby] at hplays
      cases hplays
    obtain ⟨hvalues, hkeys⟩ := @emplaceAll start.players host.bodies
      (hsessions ▸ Match.nodup_sessions h.booked) fun player _ => hnone player.session
    have hempty : host.bodies.values = [] := by
      refine List.eq_nil_iff_forall_not_mem.mpr fun entity hin => ?_
      obtain ⟨session, hsession⟩ := AList.mem_values_iff.mp hin
      exact hnone session (AList.mem_iff_lookup.mpr ⟨entity, hsession⟩)
    rw [hempty, List.append_nil] at hvalues
    obtain ⟨there, hthere⟩ : ∃ there, there =
        host.begun start inMatch players simulation.1 simulation.2 started := ⟨_, rfl⟩
    have hbodies : there.bodies.values = (start.players.map (·.entity)).reverse := by
      rw [hthere]
      exact hvalues
    have hlisted (session : SessionId) : session ∈ there.bodies ↔
        ∃ peer, inMatch.sessionOf peer = some session := by
      rw [hthere]
      refine (hkeys session).trans ⟨?_, ?_⟩
      · rintro (hin | hold)
        · exact hmembers session hin
        · exact absurd hold (hnone session)
      · rintro ⟨peer, hpeer⟩
        rw [hsessions]
        exact .inl (Match.mem_sessions.mpr ⟨peer, (hsame peer).symm.trans hpeer⟩)
    have hmatch : there.match_ = inMatch := by rw [hthere, begun]
    have hunderway : inMatch.inMatch = true := by rw [hinMatch]
    have hthereEnrolled : Enrolled ids there := by
      rw [hthere]
      exact ⟨hafresh.booked, hafresh.held, hafresh.only⟩
    have hthereEmbodied : Embodied there := by
      refine ⟨?_, ?_, fun _ => by rw [hthere, begun], fun hidle => ?_, fun _ peer session hpeer => ?_,
        ?_, fun entity => ?_⟩
      · rw [hmatch, hfewer.playerCount]
        exact hfew
      · rw [hmatch, hfewer.characters, hthere]
        exact hbodied.known
      · rw [hthere, begun] at hidle
        cases hidle
      · rw [hmatch] at hpeer
        exact (hlisted session).mpr ⟨peer, hpeer⟩
      · rw [hbodies]
        exact List.nodup_reverse.mpr hentities
      · rw [hbodies, List.mem_reverse, ← hnames, ← hpresent entity, hthere, begun]
    obtain ⟨told, htold⟩ := sendTo_eq hthereEnrolled
      (.matchStart start simulation.2 (host.tick + 1)) (hmatch.symm ▸ hmembers)
    rw [hthere] at htold
    rw [heq, htold, ← hthere]
    refine ⟨_, rfl, ⟨hthereEnrolled.booked, hthereEnrolled.held, hthereEnrolled.only⟩,
      ⟨hthereEmbodied.few, hthereEmbodied.known, hthereEmbodied.underway, hthereEmbodied.idle,
        hthereEmbodied.bodied, hthereEmbodied.apart, hthereEmbodied.world⟩, fun session hin => ?_,
      .inr ?_⟩
    · refine Match.isPlaying_iff.mpr ?_
      simp only [hmatch]
      exact ⟨hunderway, (hlisted session).mp hin⟩
    · have hspawns : simulation.2.length = start.players.length := by
        rw [hspawned, ← List.length_map (f := (·.entity)), hnames, List.length_map]
      obtain ⟨hentrants', hjoined⟩ := captureEntrants_named hspawns
      refine ⟨hlobby, ?_, ?_, ?_, ⟨?_, ?_⟩, ?_, ⟨?_, ?_⟩,
        captureEntrants start.players simulation.2, ?_, ?_, ?_⟩
      · simp only [hmatch, hunderway]
      · simp only [hmatch]
        refine hfewer.size.trans_lt ?_
        rw [hsize]
        exact hfew
      · simp only [hmatch, hinMatch]
      · simp only [hthere, begun]
      · simp only [hthere, begun, hclock]
      · simp only [hthere, begun, hbullets]
      · simp only [hthere, begun]
      · simp only [hthere, begun]
      · simp only [hbodies, hentrants', List.reverse_reverse]
      · simp only [hmatch, hjoined, hsessions]
        rw [hinMatch]
        rfl
      · simp only [hthere, begun, hstarts]

/-! ### One Command for each player -/

/-- The input of a tick so far: what each of `sessions` is handed, and who is told of it. -/
structure Handed (host : Impl) (sessions : List SessionId) (input : TickInput) : Prop where
  commands : List.Forall₂ (fun session command => host.bodies.lookup session = some command.1)
    sessions input.commands
  recipients : input.to_.recipients.map (·.entity) = input.commands.map (·.1)
  peers : ∀ session ∈ sessions, ∀ entity, host.bodies.lookup session = some entity → ∃ peer,
    host.match_.sessionOf peer = some session ∧ input.to_.peers.lookup entity = some peer
  told : ∀ entity ∈ input.to_.peers, ∃ session ∈ sessions, host.bodies.lookup session = some entity

theorem takeCommand_eq {input : TickInput} {session : SessionId} {player : HostPlayer}
    {entity : EntityId} (hplayer : host.players.lookup session = some player)
    (hentity : host.bodies.lookup session = some entity) :
    host.takeCommand input session = some
      (⟨input.commands ++ [(entity, player.commands.next.1.command)],
        { input.to_ with
          recipients := input.to_.recipients ++ [⟨entity, player.commands.next.1.acknowledgedSequence,
            UInt8.ofNat player.commands.next.2.queued.length⟩]
          peers := input.to_.peers.emplace entity player.peer }⟩,
      { host with
        players := host.players.insert session { player with commands := player.commands.next.2 }
        captured := if player.commands.next.1.sent then
            (host.capture [.command (host.tick + 1) entity player.commands.next.1.command]).captured
          else host.captured }) := by
  rw [takeCommand, hplayer]
  simp only [hentity, Option.bind_eq_bind, Option.bind_some]
  cases player.commands.next.1.sent with
  | false => rfl
  | true =>
      simp only [if_true, Option.some.injEq, Prod.mk.injEq, true_and]
      rw [capture_eq]
      simp only [capture_captured]

/-- What is handed to those before is handed to them still. -/
theorem handed_concat {input : TickInput} {sessions : List SessionId} {session : SessionId}
    {player : HostPlayer} {entity : EntityId} (h : Handed host sessions input)
    (hbodied : Embodied host) (hnew : session ∉ sessions)
    (hentity : host.bodies.lookup session = some entity)
    (hpeer : host.match_.sessionOf player.peer = some session) (next : TickCommand) (queued : UInt8)
    (host' : Impl) (hsame : host'.bodies = host.bodies ∧ host'.match_ = host.match_) :
    Handed host' (sessions ++ [session]) ⟨input.commands ++ [(entity, next.command)],
      { input.to_ with
        recipients := input.to_.recipients ++ [⟨entity, next.acknowledgedSequence, queued⟩]
        peers := input.to_.peers.emplace entity player.peer }⟩ := by
  obtain ⟨hbodies, hmatch⟩ := hsame
  have hout : entity ∉ input.to_.peers := by
    intro hin
    obtain ⟨other, hother, hlookup⟩ := h.told entity hin
    exact hnew (session_of_body hbodied hentity hlookup ▸ hother)
  have hpeers : input.to_.peers.emplace entity player.peer =
      input.to_.peers.insert entity player.peer := if_neg hout
  refine ⟨?_, ?_, fun other hother held hheld => ?_, fun held hheld => ?_⟩
  · rw [hbodies]
    exact List.rel_append h.commands (.cons hentity .nil)
  · rw [List.map_append, List.map_append, h.recipients]
    rfl
  · rw [hbodies] at hheld
    rw [hmatch]
    simp only [hpeers, AList.lookup_insert_eq]
    rcases List.mem_append.mp hother with hold | hlast
    · obtain ⟨peer, hsession, hlookup⟩ := h.peers other hold held hheld
      refine ⟨peer, hsession, ?_⟩
      rw [if_neg, hlookup]
      rintro rfl
      exact hout (AList.mem_iff_lookup.mpr ⟨peer, hlookup⟩)
    · rw [List.mem_singleton.mp hlast] at hheld ⊢
      rw [hentity] at hheld
      cases hheld
      exact ⟨player.peer, hpeer, if_pos rfl⟩
  · rw [hbodies]
    simp only [hpeers] at hheld
    rcases (AList.mem_insert _).mp hheld with rfl | hold
    · exact ⟨session, List.mem_append_right _ List.mem_cons_self, hentity⟩
    · obtain ⟨other, hother, hlookup⟩ := h.told held hold
      exact ⟨other, List.mem_append_left _ hother, hlookup⟩

/-- Whoever plays is handed a Command, and the server is otherwise as it was. -/
theorem takeCommands (done : List SessionId) {rest : List SessionId} {input : TickInput}
    (h : Enrolled ids host) (hbodied : Embodied host) (hhanded : Handed host done input)
    (hnodup : (done ++ rest).Nodup)
    (hplaying : ∀ session ∈ rest, session ∈ host.match_.playing) :
    ∃ input' players calls, rest.foldlM
        (fun (taken : TickInput × Impl) session => taken.2.takeCommand taken.1 session)
          (input, host) =
        some (input', { host with players, captured := (host.capture calls).captured }) ∧
      Enrolled ids { host with players, captured := (host.capture calls).captured } ∧
      Handed { host with players, captured := (host.capture calls).captured } (done ++ rest) input' ∧
      ∀ call ∈ calls, ∃ entity ∈ host.bodies.values, ∃ command,
        call = .command (host.tick + 1) entity command := by
  induction rest generalizing host done input with
  | nil =>
      rw [List.append_nil]
      have hsame : (host.capture []).captured = host.captured := by
        rw [capture_captured, List.append_nil, ite_self]
      refine ⟨input, host.players, [], ?_, ?_, ?_, fun _ hcall => absurd hcall List.not_mem_nil⟩
      · rw [hsame]
        rfl
      · exact ⟨h.booked, h.held, h.only⟩
      · exact ⟨hhanded.commands, hhanded.recipients, hhanded.peers, hhanded.told⟩
  | cons session rest ih =>
      obtain ⟨hmatch, peer, hpeer⟩ := Match.mem_playing.mp (hplaying session List.mem_cons_self)
      obtain ⟨player, hplayer, hown⟩ := h.held peer session hpeer
      obtain ⟨entity, hentity⟩ := AList.mem_iff_lookup.mp (hbodied.bodied hmatch peer session hpeer)
      rw [List.append_cons] at hnodup ⊢
      have hnew : session ∉ done := fun hin =>
        (List.nodup_append.mp (List.nodup_append.mp hnodup).1).2.2 session hin session
          List.mem_cons_self rfl
      have henrolled := enrolled_commands h hplayer player.commands.next.2
      obtain ⟨calls, hcalls, hsaid⟩ : ∃ calls, (if player.commands.next.1.sent then
            (host.capture [.command (host.tick + 1) entity player.commands.next.1.command]).captured
          else host.captured) = (host.capture calls).captured ∧
          ∀ call ∈ calls, ∃ entity ∈ host.bodies.values, ∃ command,
            call = .command (host.tick + 1) entity command := by
        split_ifs
        · refine ⟨_, rfl, fun call hcall => ?_⟩
          rw [List.mem_singleton.mp hcall]
          exact ⟨entity, AList.mem_values_iff.mpr ⟨session, hentity⟩, _, rfl⟩
        · refine ⟨[], ?_, fun _ hcall => absurd hcall List.not_mem_nil⟩
          rw [capture_captured, List.append_nil, ite_self]
      rw [List.foldlM_cons, takeCommand_eq hplayer hentity, hcalls]
      obtain ⟨input', players, others, hfold, hends, hlast, hothers⟩ := @ih { host with
          players := host.players.insert session { player with commands := player.commands.next.2 }
          captured := (host.capture calls).captured } (done ++ [session]) _
        ⟨henrolled.booked, henrolled.held, henrolled.only⟩
        ⟨hbodied.few, hbodied.known, hbodied.underway, hbodied.idle, hbodied.bodied, hbodied.apart,
          hbodied.world⟩
        (handed_concat hhanded hbodied hnew hentity (hown.symm ▸ hpeer) player.commands.next.1
          (UInt8.ofNat player.commands.next.2.queued.length) _ ⟨rfl, rfl⟩) hnodup
        fun other hother => hplaying other (List.mem_cons_of_mem _ hother)
      have hboth : ∀ players : Table SessionId HostPlayer,
          (Impl.capture { host with players, captured := (host.capture calls).captured }
            others).captured = (host.capture (calls ++ others)).captured := by
        intro players
        simp only [capture_captured]
        split_ifs
        · rw [List.append_assoc]
        · rfl
      rw [hboth] at hfold hends hlast
      refine ⟨input', players, calls ++ others, hfold, hends, hlast, fun call hcall => ?_⟩
      rcases List.mem_append.mp hcall with hfirst | hlater
      · exact hsaid call hfirst
      · exact hothers call hlater

/-! ### The whole of it -/

/-- A server about to look whether a Match can start. -/
def readied (host : Impl) (stored : BodyOrder) : Impl :=
  let out := if host.simulatingMatch ∧ ¬ host.match_.inMatch then host.takeOutEndedMatch stored
    else host
  let erased := out.eraseBodies stored
  { erased with match_ := erased.match_.tick }

theorem prepareTick_eq (stored : BodyOrder) (assigns : Policy.MatchView → ℕ → Option (List ℕ))
    (started : ℤ) : host.prepareTick ids stored assigns started =
      ((host.readied stored).startMatchIfReady ids assigns started).bind fun begun =>
        begun.match_.playing.foldlM
          (fun (taken : TickInput × Impl) session => taken.2.takeCommand taken.1 session)
          ({}, begun) :=
  rfl

theorem out_cases (h : Enrolled ids host) (hbodied : Embodied host) (stored : BodyOrder)
    {out : Impl} (hout : out = if host.simulatingMatch ∧ ¬ host.match_.inMatch then
      host.takeOutEndedMatch stored else host) :
    Enrolled ids out ∧ Embodied out ∧ out.match_ = host.match_ ∧ out.tick = host.tick := by
  rw [hout]
  split_ifs with hended
  · have hlobby : host.match_.inMatch = false := by simpa using hended.2
    obtain ⟨captured, heq⟩ := @takeOutEndedMatch_eq host stored
    refine ⟨?_, embodied_takeOutEndedMatch hbodied hlobby stored, ?_, ?_⟩ <;> rw [heq]
    exact ⟨h.booked, h.held, h.only⟩
  · exact ⟨h, hbodied, rfl, rfl⟩

theorem inMatch_tick (m : Match) : m.tick.inMatch = m.inMatch := by
  rw [Match.tick]
  split_ifs <;> rfl

theorem embodied_readied (h : Enrolled ids host) (hbodied : Embodied host) (stored : BodyOrder) :
    Enrolled ids (host.readied stored) ∧ Embodied (host.readied stored) ∧
      ∀ session, session ∈ (host.readied stored).bodies →
        (host.readied stored).match_.isPlaying session = true := by
  obtain ⟨out, hout⟩ : ∃ out, out = if host.simulatingMatch ∧ ¬ host.match_.inMatch then
      host.takeOutEndedMatch stored else host := ⟨_, rfl⟩
  obtain ⟨houtEnrolled, houtBodied, -, -⟩ := out_cases h hbodied stored hout
  obtain ⟨hembodied, hplaying⟩ := embodied_eraseBodies houtBodied stored
  have heq : host.readied stored = { out.eraseBodies stored with match_ := out.match_.tick } := by
    rw [hout, readied, eraseBodies_eq]
  have hfewer := Match.fewer_tick out.match_
  have hsame := Match.sessionOf_tick out.match_
  have hmatch := inMatch_tick out.match_
  have herased : (out.eraseBodies stored).match_ = out.match_ ∧
      (out.eraseBodies stored).players = out.players := by
    rw [eraseBodies_eq]
    exact ⟨rfl, rfl⟩
  have haside : Aside (out.eraseBodies stored)
      { out.eraseBodies stored with match_ := out.match_.tick } := by
    refine ⟨⟨rfl, rfl, rfl, rfl, ?_, ?_⟩, rfl, rfl, rfl, rfl, rfl, ?_, fun hin => ?_⟩
    · exact hfewer.characters.trans (congrArg Match.characters herased.1).symm
    · exact hfewer.playerCount.trans (congrArg Match.playerCount herased.1).symm
    · exact (Nat.le_of_eq (congrArg Match.idsTaken herased.1)).trans hfewer.idsTaken
    · rw [herased.1]
      exact ⟨hmatch ▸ hin, fun peer session hpeer => (hsame peer).symm.trans hpeer⟩
  rw [heq]
  refine ⟨⟨hfewer.booked houtEnrolled.booked, fun peer session hpeer => ?_, fun session hin => ?_⟩,
    hembodied.aside haside, fun session hin => ?_⟩
  · simp only [herased.2]
    exact houtEnrolled.held peer session ((hsame peer).symm.trans hpeer)
  · simp only [herased.2] at hin
    obtain ⟨peer, hpeer⟩ := houtEnrolled.only session hin
    exact ⟨peer, (hsame peer).trans hpeer⟩
  · obtain ⟨hin', peer, hpeer⟩ := Match.isPlaying_iff.mp (hplaying session hin)
    exact Match.isPlaying_iff.mpr ⟨hmatch.trans hin', peer, (hsame peer).trans hpeer⟩

/-- A tick prepared: who plays has a body and no one else, and each is handed one Command. -/
structure Prepared (ids : ℕ → SessionId) (host : Impl) (input : TickInput) : Prop where
  enrolled : Enrolled ids host
  embodied : Embodied host
  playing : ∀ session, session ∈ host.bodies → host.match_.isPlaying session = true
  handed : Handed host host.match_.playing input

theorem prepareTick_prepared (h : Enrolled ids host) (hbodied : Embodied host) (stored : BodyOrder)
    (assigns : Policy.MatchView → ℕ → Option (List ℕ)) (started : ℤ) :
    ∃ input host' begun, host.prepareTick ids stored assigns started = some (input, host') ∧
      Prepared ids host' input ∧ Embodied begun ∧
      (begun = host.readied stored ∨ Began ids started (host.readied stored) begun) ∧
      ∃ players calls,
        host' = { begun with players, captured := (begun.capture calls).captured } ∧
        ∀ call ∈ calls, ∃ entity ∈ begun.bodies.values, ∃ command,
          call = .command (begun.tick + 1) entity command := by
  obtain ⟨hready, hreadyBodied, hplaying⟩ := embodied_readied h hbodied stored
  obtain ⟨begun, hbegun, henrolled, hembodied, hplays, hbegan⟩ :=
    embodied_startMatchIfReady hready hreadyBodied hplaying assigns started
  have hnodup : begun.match_.playing.Nodup := by
    rw [Match.playing]
    split_ifs
    · exact Match.nodup_sessions henrolled.booked
    · exact List.nodup_nil
  have hnothing : Handed begun [] {} :=
    ⟨.nil, rfl, fun _ h => absurd h List.not_mem_nil, fun _ h => absurd h (AList.notMem_empty _)⟩
  obtain ⟨input, players, calls, hfold, hends, hhanded, hcalls⟩ :=
    takeCommands [] henrolled hembodied hnothing hnodup fun _ h => h
  refine ⟨input, _, begun, ?_, ⟨hends, ?_, hplays, hhanded⟩, hembodied, hbegan, players, calls, rfl,
    hcalls⟩
  · rw [prepareTick_eq, hbegun]
    exact hfold
  · exact ⟨hembodied.few, hembodied.known, hembodied.underway, hembodied.idle, hembodied.bodied,
      hembodied.apart, hembodied.world⟩

/-! ### A tick run -/

theorem simulate_eq (input : TickInput) (deltaTime : Lib.Binary32) (outside : Simulation.Outside) :
    host.simulate input deltaTime outside =
      ((host.simulation.ticked input.commands deltaTime outside).1.actions,
        { host with
          captured := (host.capture
            ((host.simulation.ticked input.commands deltaTime outside).1.state.deaths.map fun death =>
              .death (host.simulation.ticked input.commands deltaTime outside).1.state.tick
                death.victim death.killer)).captured
          simulation := (host.simulation.ticked input.commands deltaTime outside).2
          tick := (host.simulation.ticked input.commands deltaTime outside).1.state.tick }) := by
  rw [simulate]
  simp only
  rw [capture_eq]

theorem embodied_simulate (h : Enrolled ids host) (hbodied : Embodied host) (input : TickInput)
    (deltaTime : Lib.Binary32) (outside : Simulation.Outside) :
    Enrolled ids (host.simulate input deltaTime outside).2 ∧
      Embodied (host.simulate input deltaTime outside).2 := by
  have hstayed := Simulation.stayed_ticked host.simulation input.commands deltaTime outside
  rw [simulate_eq]
  refine ⟨⟨h.booked, h.held, h.only⟩, hbodied.few, hbodied.known, hbodied.underway, hbodied.idle,
    hbodied.bodied, hbodied.apart, fun entity => ?_⟩
  rw [← hbodied.world]
  exact (AList.mem_keys.trans (by rw [hstayed.keys])).trans AList.mem_keys.symm

end Impl
end Augusta.Host
