import Augusta.Host.CaptureLaw
import Augusta.Host.CaptureValues

/-! What a live server tells its Capturer, over any run.

      PrepareTick   ended Match:   leave …, endMatch     at the last tick run
                    who left:      leave …               at the tick about to run
                    a Match:       startMatch            from the tick about to run
                    its Commands:  command …             at the tick about to run
      the World     death …                              at the tick that ran

    Each body told of is one of the Match's, and the ticks never go back: the captures made of it are
    ones a reader accepts. -/

namespace Augusta.Host
open Lib (Table)
open Capture Link Protocol

/-- Told at `tick`, of some of `entities`. -/
def CaptureEvent.Tells (tick : Tick) (entities : List EntityId) : CaptureEvent → Prop
  | .command told entity _ | .leave told entity => told = tick ∧ entity ∈ entities
  | .death told victim killer => told = tick ∧ victim ∈ entities ∧ killer ∈ entities
  | _ => False

/-- Calls at one tick, no earlier than the last, are heard. -/
theorem hear_tells {tape : Tape} {tick : Tick} (hlast : tape.last ≤ tick)
    (hbound : tick.toNat < 2 ^ 63) {calls : List CaptureEvent}
    (hcalls : ∀ call ∈ calls, call.Tells tick tape.entities) :
    ∃ last, last ≤ tick ∧
      Lib.run Tape.hear (some tape) calls = some (some { tape with last }) := by
  induction calls generalizing tape with
  | nil => exact ⟨tape.last, hlast, rfl⟩
  | cons call rest ih =>
      have hfirst := hcalls call List.mem_cons_self
      have hhear : Tape.hear (some tape) call = some (some { tape with last := tick }) := by
        cases call with
        | command told entity command =>
            obtain ⟨rfl, hentity⟩ := hfirst
            exact if_pos ⟨hlast, hbound, by simpa using hentity⟩
        | leave told entity =>
            obtain ⟨rfl, hentity⟩ := hfirst
            exact if_pos ⟨hlast, hbound, by simpa using hentity⟩
        | death told victim killer =>
            obtain ⟨rfl, hvictim, hkiller⟩ := hfirst
            exact if_pos ⟨hlast, hbound, by simpa using ⟨hvictim, hkiller⟩⟩
        | _ => exact hfirst.elim
      obtain ⟨last, hle, hrest⟩ := @ih { tape with last := tick } (UInt64.le_refl tick)
        fun other hother => hcalls other (List.mem_cons_of_mem _ hother)
      refine ⟨last, hle, ?_⟩
      rw [Lib.run.cons, hhear]
      exact hrest

/-- What has been told, up to `reach`, and whom it may yet be of. -/
structure Impl.Filmed (host : Impl) (reach : Tick) (calls : List CaptureEvent)
    (open_ : Option Tape) : Prop where
  captured : host.captured = if host.capturing then calls else []
  heard : Lib.run Tape.hear none calls = some open_
  clock : host.simulation.tick = host.tick
  idle : host.simulatingMatch = false → open_ = none
  underway : host.simulatingMatch = true → ∃ tape, open_ = some tape ∧ tape.last ≤ reach ∧
    host.simulation.Among tape.entities

namespace Impl
variable {ids : ℕ → SessionId} {host host' : Impl} {reach tick : Tick} {calls : List CaptureEvent}
  {open_ : Option Tape}

theorem captured_more (h : host.Filmed reach calls open_) (new : List CaptureEvent) :
    (host.capture new).captured = if host.capturing then calls ++ new else [] := by
  rw [capture_captured, h.captured]
  split_ifs <;> rfl

theorem Filmed.aside (h : host.Filmed reach calls open_) (haside : Aside host host') :
    host'.Filmed reach calls open_ := by
  obtain ⟨-, -, -, hcapturing, -⟩ := haside.config
  refine ⟨?_, h.heard, ?_, ?_, ?_⟩
  · rw [haside.captured, hcapturing]
    exact h.captured
  · rw [haside.simulation, haside.tick]
    exact h.clock
  · rw [haside.simulatingMatch]
    exact h.idle
  · rw [haside.simulatingMatch, haside.simulation]
    exact h.underway

/-- More is told of the Match in progress, if there is one. -/
theorem filmed_tells (h : host.Filmed reach calls open_) (hreach : reach ≤ tick)
    (hbound : tick.toNat < 2 ^ 63) {new : List CaptureEvent}
    (hnew : ∀ call ∈ new, host.simulatingMatch = true ∧
      ∀ tape, open_ = some tape → call.Tells tick tape.entities)
    (hcaptured : host'.captured = (host.capture new).captured)
    (hcapturing : host'.capturing = host.capturing)
    (hclock : host'.simulation.tick = host'.tick)
    (hsimulating : host'.simulatingMatch = host.simulatingMatch)
    (hamong : ∀ entities, host.simulation.Among entities → host'.simulation.Among entities) :
    ∃ open', host'.Filmed tick (calls ++ new) open' := by
  cases hsim : host.simulatingMatch with
  | false =>
      have hnone : new = [] := by
        refine List.eq_nil_iff_forall_not_mem.mpr fun call hcall => ?_
        cases hsim.symm.trans (hnew call hcall).1
      refine ⟨none, ?_, ?_, hclock, fun _ => rfl, fun hother => ?_⟩
      · rw [hcaptured, captured_more h, hcapturing]
      · rw [hnone, List.append_nil, h.heard, h.idle hsim]
      · rw [hsimulating, hsim] at hother
        cases hother
  | true =>
      obtain ⟨tape, rfl, hlast, hthere⟩ := h.underway hsim
      obtain ⟨last, hle, hheard⟩ := hear_tells (UInt64.le_trans hlast hreach) hbound
        fun call hcall => (hnew call hcall).2 tape rfl
      refine ⟨some { tape with last }, ?_, ?_, hclock, fun hother => ?_,
        fun _ => ⟨{ tape with last }, rfl, hle, hamong _ hthere⟩⟩
      · rw [hcaptured, captured_more h, hcapturing]
      · rw [Lib.run.append, h.heard, Option.bind_some]
        exact hheard
      · rw [hsimulating, hsim] at hother
        cases hother

/-! ### A tick prepared -/

/-- A body is a player's in the World. -/
theorem among_body (hbodied : Embodied host) {entities : List EntityId}
    (h : host.simulation.Among entities) {session : SessionId} {entity : EntityId}
    (hbody : host.bodies.lookup session = some entity) : entity ∈ entities :=
  h.players entity (AList.mem_keys.mp ((hbodied.world entity).mpr
    (AList.mem_values_iff.mpr ⟨session, hbody⟩)))

/-- A Match that has ended is told to its end at the last tick run. -/
theorem filmed_out (h : host.Filmed host.tick calls open_) (hbodied : Embodied host)
    (hbound : host.tick.toNat < 2 ^ 63) (stored : BodyOrder)
    (hended : host.simulatingMatch = true) :
    ∃ calls', (host.takeOutEndedMatch stored).Filmed host.tick calls' none := by
  obtain ⟨tape, rfl, hlast, hthere⟩ := h.underway hended
  obtain ⟨leaves, hleaves⟩ : ∃ leaves : List CaptureEvent, leaves =
      (stored.order host.bodyList).filterMap fun body =>
        if body.1 ∈ host.players then none else some (CaptureEvent.leave host.tick body.2) := ⟨_, rfl⟩
  have hout : host.takeOutEndedMatch stored = { host with
      captured := (host.capture (leaves ++ [.endMatch host.tick host.matchWinner])).captured
      simulation := host.simulation.endMatch, bodies := ∅, simulatingMatch := false } := by
    rw [hleaves, takeOutEndedMatch]
    simp only
    rw [capture_eq]
  obtain ⟨last, hle, hheard⟩ := @hear_tells tape host.tick hlast hbound leaves (by
    intro call hcall
    rw [hleaves] at hcall
    obtain ⟨⟨session, entity⟩, hbody, hleft⟩ := List.mem_filterMap.mp hcall
    split_ifs at hleft
    cases hleft
    refine ⟨rfl, ?_⟩
    have hin := (stored.perm _).mem_iff.mp hbody
    obtain ⟨⟨_, _⟩, hentry, hsame⟩ := List.mem_map.mp hin
    cases hsame
    exact among_body hbodied hthere (AList.mem_entries_iff.mp hentry))
  refine ⟨calls ++ (leaves ++ [.endMatch host.tick host.matchWinner]), ?_⟩
  rw [hout]
  refine ⟨captured_more h _, ?_, h.clock, fun _ => rfl, fun hother => ?_⟩
  · rw [Lib.run.append, h.heard, Option.bind_some, Lib.run.append, hheard, Option.bind_some]
    have hend : Tape.hear (some { tape with last }) (.endMatch host.tick host.matchWinner) =
        some none := if_pos ⟨hle, hbound, fun _ hin => absurd hin List.not_mem_nil⟩
    rw [Lib.run.cons, hend]
    rfl
  · cases hother

/-- Whoever has left is told of at the tick about to run. -/
theorem filmed_eraseBodies (h : host.Filmed host.tick calls open_) (hbodied : Embodied host)
    (hnext : host.tick ≤ tick) (htick : tick = host.tick + 1) (hbound : tick.toNat < 2 ^ 63)
    (stored : BodyOrder) : ∃ calls' open', (host.eraseBodies stored).Filmed tick calls' open' := by
  have hbody {call : CaptureEvent} (hcall : call ∈ (host.leaving stored).map fun body =>
      CaptureEvent.leave (host.tick + 1) body.2) : ∃ session entity,
        host.bodies.lookup session = some entity ∧ call = .leave tick entity := by
    obtain ⟨⟨session, entity⟩, hleaving, rfl⟩ := List.mem_map.mp hcall
    exact ⟨session, entity, (mem_leaving.mp hleaving).1, by rw [htick]⟩
  have hcaptured : (host.eraseBodies stored).captured = (host.capture
      ((host.leaving stored).map fun body => CaptureEvent.leave (host.tick + 1) body.2)).captured := by
    rw [eraseBodies_eq]
  refine ⟨_, filmed_tells h hnext hbound (fun call hcall => ?_) hcaptured ?_ ?_ ?_
    fun entities hamong => ?_⟩
  · obtain ⟨session, entity, hlookup, rfl⟩ := hbody hcall
    constructor
    · by_contra hidle
      rw [hbodied.idle (by simpa using hidle)] at hlookup
      cases hlookup
    · rintro tape rfl
      obtain ⟨said, hsaid, -, hthere⟩ := h.underway (by
        by_contra hidle
        cases h.idle (by simpa using hidle))
      cases hsaid
      exact ⟨rfl, among_body hbodied hthere hlookup⟩
  · rw [eraseBodies_eq]
  · rw [eraseBodies_eq]
    exact h.clock
  · rw [eraseBodies_eq]
  · rw [eraseBodies_eq]
    refine ⟨fun entity hin => ?_, hamong.shooters⟩
    exact hamong.players entity (AList.mem_keys.mp
      (Simulation.mem_eraseAll.mp (AList.mem_keys.mpr hin)).2)

/-- A Match is told of from the tick about to run. -/
theorem filmed_began {started : ℤ} (h : host.Filmed reach calls open_) (hidle : open_ = none)
    (hbegan : Began ids started host host') (hbodied : Embodied host')
    (htick : tick = host.tick + 1) (hbound : tick.toNat < 2 ^ 63) :
    ∃ calls' open', host'.Filmed tick calls' open' := by
  obtain ⟨entrants, hentities, hsessions, hcaptured⟩ := hbegan.captured
  have hstarts : Tape.Starts ⟨ids host.match_.idsTaken, entrants, host.tick + 1, started⟩ := by
    refine ⟨?_, ?_, ?_⟩
    · simp only [hentities]
      exact List.nodup_reverse.mpr hbodied.apart
    · have hlength := congrArg List.length hsessions
      rw [List.length_map, List.length_map, Match.length_membersBySession] at hlength
      have hfew := hbegan.few
      simp only
      omega
    · simp only [← htick]
      exact hbound
  refine ⟨calls ++ [.startMatch ⟨ids host.match_.idsTaken, entrants, host.tick + 1, started⟩],
    some ⟨⟨ids host.match_.idsTaken, entrants, host.tick + 1, started⟩, host.tick + 1⟩, ?_, ?_, ?_,
    fun hother => ?_, fun _ => ⟨_, rfl, UInt64.le_of_eq htick.symm, ?_, ?_⟩⟩
  · rw [hcaptured, captured_more h, hbegan.simulating.2]
  · rw [Lib.run.append, h.heard, hidle, Option.bind_some, Lib.run.cons, Tape.hear, if_pos hstarts]
    rfl
  · rw [hbegan.clock.2, hbegan.clock.1]
    exact h.clock
  · rw [hbegan.simulating.1] at hother
    cases hother
  · intro entity hin
    have hbody := (hbodied.world entity).mp (AList.mem_keys.mpr hin)
    rw [Tape.entities, hentities, List.mem_reverse]
    exact hbody
  · rw [hbegan.bullets]
    exact fun bullet hin => absurd hin List.not_mem_nil

theorem toNat_succ {tick : Tick} (hbound : tick.toNat + 1 < 2 ^ 63) :
    (tick + 1).toNat = tick.toNat + 1 ∧ tick ≤ tick + 1 := by
  have hsucc : (tick + 1).toNat = tick.toNat + 1 := by
    rw [UInt64.toNat_add]
    exact Nat.mod_eq_of_lt (by have : (1 : UInt64).toNat = 1 := rfl; omega)
  exact ⟨hsucc, UInt64.le_iff_toNat_le.mpr (by omega)⟩

theorem filmed_prepareTick (h : Enrolled ids host) (hbodied : Embodied host)
    (hfilmed : host.Filmed host.tick calls open_) (hbound : host.tick.toNat + 1 < 2 ^ 63)
    (stored : BodyOrder) (assigns : Policy.MatchView → ℕ → Option (List ℕ)) (started : ℤ)
    {input : TickInput} (hprepared : host.prepareTick ids stored assigns started = some (input, host')) :
    (∃ calls' open', host'.Filmed (host.tick + 1) calls' open') ∧ host'.tick = host.tick := by
  obtain ⟨hsucc, hnext⟩ := toNat_succ hbound
  obtain ⟨input', last, begun, hsame, hinput, hbegunBodied, hbegan, players, told, hlast, htold⟩ :=
    prepareTick_prepared h hbodied stored assigns started
  rw [hprepared] at hsame
  cases hsame
  obtain ⟨out, hout⟩ : ∃ out, out = if host.simulatingMatch ∧ ¬ host.match_.inMatch then
      host.takeOutEndedMatch stored else host := ⟨_, rfl⟩
  obtain ⟨-, houtBodied, houtMatch, houtTick⟩ := out_cases h hbodied stored hout
  obtain ⟨calls₁, open₁, houtFilmed⟩ : ∃ calls₁ open₁, out.Filmed out.tick calls₁ open₁ := by
    rw [houtTick, hout]
    split_ifs with hended
    · obtain ⟨calls₁, hclosed⟩ := filmed_out hfilmed hbodied (by omega) stored hended.1
      exact ⟨calls₁, none, hclosed⟩
    · exact ⟨calls, open_, hfilmed⟩
  have hlobby : out.match_.inMatch = false → out.simulatingMatch = false := by
    rw [houtMatch, hout]
    intro hno
    split_ifs with hended
    · obtain ⟨captured, heq⟩ := @takeOutEndedMatch_eq host stored
      rw [heq]
    · by_contra hsim
      exact hended ⟨by simpa using hsim, by rw [hno]; exact Bool.false_ne_true⟩
  have hready : host.readied stored = { out.eraseBodies stored with match_ := out.match_.tick } := by
    rw [hout, readied, eraseBodies_eq]
  obtain ⟨calls₂, open₂, herased⟩ := filmed_eraseBodies houtFilmed houtBodied
    (by rw [houtTick]; exact hnext) rfl (by rw [houtTick]; omega) stored
  rw [houtTick] at herased
  have hreadied : (host.readied stored).Filmed (host.tick + 1) calls₂ open₂ := by
    rw [hready]
    exact ⟨herased.captured, herased.heard, herased.clock, herased.idle, herased.underway⟩
  have hreadyTick : (host.readied stored).tick = host.tick := by
    rw [hready, eraseBodies_eq]
    exact houtTick
  obtain ⟨calls₃, open₃, hbegunFilmed, hbegunTick⟩ : ∃ calls₃ open₃,
      begun.Filmed (host.tick + 1) calls₃ open₃ ∧ begun.tick = host.tick := by
    rcases hbegan with rfl | hbegan
    · exact ⟨calls₂, open₂, hreadied, hreadyTick⟩
    · have hidle : open₂ = none := by
        refine hreadied.idle ?_
        have hno := hbegan.lobby
        rw [hready, inMatch_tick] at hno
        rw [hready, eraseBodies_eq]
        exact hlobby hno
      have hfirst : host.tick + 1 = (host.readied stored).tick + 1 := by rw [hreadyTick]
      obtain ⟨calls₃, open₃, hfilmed'⟩ := filmed_began hreadied hidle hbegan hbegunBodied hfirst
        (by omega)
      exact ⟨calls₃, open₃, hfilmed', hbegan.clock.1.trans hreadyTick⟩
  rw [hlast]
  refine ⟨⟨calls₃ ++ told, ?_⟩, hbegunTick⟩
  refine filmed_tells hbegunFilmed (UInt64.le_refl _) (by omega) (fun call hcall => ?_) rfl rfl
    hbegunFilmed.clock rfl fun _ hamong => hamong
  obtain ⟨entity, hentity, command, rfl⟩ := htold call hcall
  obtain ⟨session, hsession⟩ := AList.mem_values_iff.mp hentity
  constructor
  · by_contra hidle
    rw [hbegunBodied.idle (by simpa using hidle)] at hsession
    cases hsession
  · rintro tape rfl
    obtain ⟨said, hsaid, -, hthere⟩ := hbegunFilmed.underway (by
      by_contra hidle
      cases hbegunFilmed.idle (by simpa using hidle))
    cases hsaid
    exact ⟨by rw [hbegunTick], among_body hbegunBodied hthere hsession⟩

/-! ### A tick run -/

/-- The deaths of a tick are the bodies' of the Match it ran. -/
theorem filmed_simulate (hbodied : Embodied host)
    (hfilmed : host.Filmed (host.tick + 1) calls open_) (hbound : host.tick.toNat + 1 < 2 ^ 63)
    (input : TickInput) (deltaTime : Lib.Binary32) (outside : Simulation.Outside) :
    (∃ calls' open', (host.simulate input deltaTime outside).2.Filmed (host.tick + 1) calls' open') ∧
      (host.simulate input deltaTime outside).2.tick = host.tick + 1 := by
  obtain ⟨hsucc, -⟩ := toNat_succ hbound
  have hstayed := Simulation.stayed_ticked host.simulation input.commands deltaTime outside
  have htold : (host.simulation.ticked input.commands deltaTime outside).1.state.tick =
      host.tick + 1 := by
    rw [hstayed.told, hfilmed.clock]
  rw [simulate_eq]
  refine ⟨⟨_, filmed_tells hfilmed (UInt64.le_refl _) (by omega) (fun call hcall => ?_) rfl rfl
    (hstayed.tick.trans hstayed.told.symm) rfl fun entities hamong => (hstayed.among entities hamong).1⟩,
    htold⟩
  obtain ⟨death, hdeath, rfl⟩ := List.mem_map.mp hcall
  have hvictim : ∀ entities, host.simulation.Among entities →
      death.victim ∈ host.simulation.players.keys ∧ death.killer ∈ entities :=
    fun entities hamong => (hstayed.among entities hamong).2 death hdeath
  constructor
  · by_contra hidle
    have hall : host.simulation.Among
        (host.simulation.players.keys ++ host.simulation.bullets.map (·.shooter)) :=
      ⟨fun entity hin => List.mem_append_left _ hin,
        fun bullet hin => List.mem_append_right _ (List.mem_map_of_mem hin)⟩
    have hbody := (hbodied.world _).mp (AList.mem_keys.mpr (hvictim _ hall).1)
    rw [hbodied.idle (by simpa using hidle)] at hbody
    cases hbody
  · rintro tape rfl
    obtain ⟨said, hsaid, -, hthere⟩ := hfilmed.underway (by
      by_contra hidle
      cases hfilmed.idle (by simpa using hidle))
    cases hsaid
    obtain ⟨hin, hkiller⟩ := hvictim tape.entities hthere
    exact ⟨htold, hthere.players _ hin, hkiller⟩

end Impl

/-! ### Every run -/

namespace Hosting
variable {ids : ℕ → SessionId} {vecLength : Math.Vec3 → Lib.Binary32}

/-- The tick up to which the Capturer may have been told. -/
def reach (s : Hosting) : Tick :=
  match s.doing with
  | .ticking _ => s.host.tick + 1
  | _ => s.host.tick

theorem filmed_step (hids : Function.Injective ids) {s s' : Hosting} (h : s.host.Enrolled ids)
    (hbodied : s.host.Embodied) {calls : List CaptureEvent} {open_ : Option Tape}
    (hfilmed : s.host.Filmed s.reach calls open_) (hbound : s.host.tick.toNat + 1 < 2 ^ 63)
    {event : HostEvent} (hstep : s.step ids vecLength event = some s') :
    (∃ calls' open', s'.host.Filmed s'.reach calls' open') ∧
      s'.host.tick.toNat ≤ s.host.tick.toNat + 1 := by
  have hthen {answer : Option Impl} (hstays : Impl.Stays ids s.host answer)
      (hstep : (answer.map fun host => { s with host }) = some s') :
      (∃ calls' open', s'.host.Filmed s'.reach calls' open') ∧
        s'.host.tick.toNat ≤ s.host.tick.toNat + 1 := by
    obtain ⟨host, rfl, -, haside⟩ := hstays
    cases hstep
    have hreach : ({ s with host } : Hosting).reach = s.reach := by
      rw [reach, reach, haside.tick]
    refine ⟨⟨calls, open_, ?_⟩, ?_⟩
    · rw [hreach]
      exact hfilmed.aside haside
    · simp only [haside.tick]
      omega
  cases event with
  | connected peer now =>
      obtain ⟨-, haside⟩ := @Impl.stays_same ids s.host h
        { s.host with gate := s.host.gate.connected peer now } rfl
      cases hstep
      exact ⟨⟨calls, open_, hfilmed.aside haside⟩, Nat.le_succ _⟩
  | disconnected peer => exact hthen (Impl.stays_handleDisconnect h peer) hstep
  | message from_ said now => exact hthen (Impl.stays_onMessage hids vecLength h from_ said now) hstep
  | finishRound now => exact hthen (Impl.stays_finishRound h now) hstep
  | endMatch => exact hthen (Impl.stays_endMatch h none) hstep
  | goOn around =>
      obtain ⟨hsucc, -⟩ := Impl.toNat_succ hbound
      simp only [step] at hstep
      cases hdoing : s.doing with
      | between =>
          rw [hdoing] at hstep
          have hreach : s.reach = s.host.tick := by rw [reach, hdoing]
          rw [hreach] at hfilmed
          obtain ⟨⟨input, host⟩, hprepared, hhost⟩ := Option.map_eq_some_iff.mp hstep
          cases hhost
          obtain ⟨hends, htick⟩ := Impl.filmed_prepareTick h hbodied hfilmed hbound _ _ _ hprepared
          refine ⟨?_, by simp only [htick]; omega⟩
          simp only [reach, htick]
          exact hends
      | ticking input =>
          rw [hdoing] at hstep
          have hreach : s.reach = s.host.tick + 1 := by rw [reach, hdoing]
          rw [hreach] at hfilmed
          obtain ⟨hends, htick⟩ := Impl.filmed_simulate hbodied hfilmed hbound input around.deltaTime
            around.outside
          cases hstep
          refine ⟨?_, ?_⟩
          · simp only [reach, htick]
            exact hends
          · simp only [htick, hsucc]
            omega
      | acting actions =>
          rw [hdoing] at hstep
          have hreach : s.reach = s.host.tick := by rw [reach, hdoing]
          rw [hreach] at hfilmed
          cases actions with
          | nil =>
              cases hstep
              exact ⟨⟨calls, open_, hfilmed⟩, Nat.le_succ _⟩
          | cons action rest =>
              obtain ⟨winner⟩ := action
              obtain ⟨host, hended, hhost⟩ := Option.map_eq_some_iff.mp hstep
              cases hhost
              obtain ⟨after, hafter, -, haside⟩ := Impl.stays_endMatch h winner
              rw [hended] at hafter
              cases hafter
              refine ⟨⟨calls, open_, ?_⟩, by simp only [haside.tick]; omega⟩
              simp only [reach, haside.tick]
              exact hfilmed.aside haside

/-- What any run has told its Capturer may be told. -/
theorem filmed_run (hids : Function.Injective ids) (config : HostConfig) {events : List HostEvent}
    (hlength : events.length < 2 ^ 63) {s : Hosting}
    (hrun : (start config).run ids vecLength events = some s) :
    (∃ calls open_, s.host.Filmed s.reach calls open_) ∧ s.host.tick.toNat ≤ events.length := by
  induction events using List.reverseRecOn generalizing s with
  | nil =>
      cases hrun
      refine ⟨⟨[], none, ?_, rfl, rfl, fun _ => rfl, fun hother => ?_⟩, Nat.zero_le _⟩
      · exact (ite_self _).symm
      · cases hother
  | append_singleton events event ih =>
      rw [List.length_append, List.length_singleton] at hlength ⊢
      obtain ⟨before, hbefore, hstep⟩ := Lib.run.concat_eq_some.mp hrun
      obtain ⟨⟨calls, open_, hfilmed⟩, hticks⟩ := ih (by omega) hbefore
      obtain ⟨same, hsame, henrolled, hembodied⟩ := @kept_run ids vecLength hids config events
      rw [run, hbefore] at hsame
      cases hsame
      obtain ⟨hends, hafter⟩ := filmed_step hids henrolled hembodied hfilmed (by omega) hstep
      exact ⟨hends, by omega⟩

theorem heard_run (hids : Function.Injective ids) (config : HostConfig) {events : List HostEvent}
    (hlength : events.length < 2 ^ 63) {s : Hosting}
    (hrun : (start config).run ids vecLength events = some s) :
    ∃ open_, Lib.run Tape.hear none s.host.captured = some open_ := by
  obtain ⟨⟨calls, open_, hfilmed⟩, -⟩ := filmed_run hids config hlength hrun
  rw [hfilmed.captured]
  split_ifs
  · exact ⟨open_, hfilmed.heard⟩
  · exact ⟨none, rfl⟩

/-! ### The law -/

/-- What is heard of a whole is heard of its start. -/
theorem heard_prefix {told calls : List CaptureEvent} (hstart : told <+: calls)
    {open_ : Option Tape} (h : Lib.run Tape.hear none calls = some open_) :
    ∃ open', Lib.run Tape.hear none told = some open' := by
  obtain ⟨rest, rfl⟩ := hstart
  rw [Lib.run.append, Option.bind_eq_some_iff] at h
  obtain ⟨open', hopen, -⟩ := h
  exact ⟨open', hopen⟩

/-- With its calls typed, all that is told is. -/
theorem typed_told {told : List CaptureEvent}
    (hcalls : ∀ call ∈ told.filter (·.isCall), call.Typed) : ∀ event ∈ told, event.Typed := by
  intro event hevent
  cases hcall : event.isCall with
  | true => exact hcalls event (List.mem_filter.mpr ⟨hevent, hcall⟩)
  | false => cases event <;> trivial

/-- The first records of some that may come may come. -/
theorem follow_take {records : List CaptureRecord} (h : RecordOrder.Follow 0 records) (n : ℕ) :
    RecordOrder.Follow 0 (records.take n) := by
  rw [← RecordOrder.admitsAll_joins] at h ⊢
  rw [← List.take_append_drop n records, RecordOrder.admitsAll, List.foldlM_append] at h
  obtain ⟨last, hlast⟩ := Option.isSome_iff_exists.mp h
  obtain ⟨order, horder, -⟩ := Option.bind_eq_some_iff.mp hlast
  exact Option.isSome_iff_exists.mpr ⟨order, horder⟩

/-- No event that may come names player 0. -/
theorem named_of_follow {rest : List Piece} (h : RecordOrder.Follow 0 (rest.map Piece.record))
    {piece : Piece} (hpiece : piece ∈ rest) : piece.Named := by
  obtain ⟨joins, events, hrecords, -, hordered⟩ := h
  have hin : piece.record ∈ joins.map CaptureRecord.join ++ events.map CaptureRecord.event :=
    hrecords ▸ List.mem_map_of_mem hpiece
  cases piece with
  | header header => trivial
  | join player join => trivial
  | event e =>
      obtain ⟨offset, event⟩ := e
      cases event with
      | matchEnd winner =>
          rintro rfl
          rcases List.mem_append.mp hin with hjoin | hevent
          · obtain ⟨join, -, hsame⟩ := List.mem_map.mp hjoin
            cases hsame
          · obtain ⟨other, hother, hsame⟩ := List.mem_map.mp hevent
            cases hsame
            have hnamed := (hordered.named _ hother 0 (List.mem_singleton_self _)).1
            cases hnamed
      | _ => trivial

/-- What encodes to the first of some pieces' encodings is the first of them. -/
theorem mapM_of_take {encode : Encode} {frames : List Encoded} {pieces : List Piece}
    (h : frames.map Except.ok <+: pieces.map encode) :
    (pieces.take frames.length).mapM encode = .ok frames := by
  induction frames generalizing pieces with
  | nil => rfl
  | cons frame frames ih =>
      cases pieces with
      | nil => cases List.prefix_nil.mp h
      | cons piece pieces =>
          obtain ⟨hfirst, hrest⟩ := List.cons_prefix_cons.mp h
          rw [List.length_cons, List.take_succ_cons, List.mapM_cons, ← hfirst, ih hrest]
          rfl

/-- A file no write of which failed is one that is read. -/
theorem readCapture_file {parse : Lib.Protobuf.Bytes → Option Pb.CaptureRecord} {c : Captures}
    {m : MatchId} {bytes : Encoded} (hsound : Captures.Sound encodePiece c)
    (hfile : c.writer.files.lookup m = some bytes) (hbroken : m ∉ c.writer.broken)
    {header : Header} {rest : List Piece} (hpieces : c.pieces m = .header header :: rest)
    (hfollow : RecordOrder.Follow 0 (rest.map Piece.record))
    (hreturns : ∀ piece ∈ c.pieces m, Returns piece)
    (hparse : ∀ piece ∈ c.pieces m, Parses parse piece) :
    ∃ capture, readCapture parse { rest := bytes } = .ok capture := by
  have hall : ∀ piece ∈ c.pieces m, piece.Carried ∧ Parses parse piece := by
    intro piece hpiece
    obtain ⟨htypes, hgrids, hunseen⟩ := hreturns piece hpiece
    refine ⟨⟨htypes, hgrids, hunseen, ?_⟩, hparse piece hpiece⟩
    rw [hpieces] at hpiece
    rcases List.mem_cons.mp hpiece with rfl | hin
    · trivial
    · exact named_of_follow hfollow hin
  obtain ⟨frames, torn, rfl, hframes, hwhole, -⟩ :=
    Captures.gapless_file hsound.pipeline (hsound.admitted m) hfile
  obtain ⟨hsome, rfl⟩ := hwhole hbroken
  rw [hpieces] at hframes hall
  cases frames with
  | nil => exact absurd rfl hsome
  | cons first frames =>
      obtain ⟨hfirst, hrest⟩ := List.cons_prefix_cons.mp hframes
      obtain ⟨payload, hencode, hlength, rfl⟩ := encodePiece_eq_ok.mp hfirst.symm
      obtain ⟨hcarriedHeader, hparse⟩ := hall _ List.mem_cons_self
      obtain ⟨payloads, rfl, hdecoded⟩ := @decoded_of_encoded parse _ _ (mapM_of_take hrest)
        (fun piece hpiece => hall piece (List.mem_cons_of_mem _ (List.mem_of_mem_take hpiece))) (by
          intro piece hpiece other hheader
          rw [hheader] at hpiece
          obtain ⟨joins, events, hrecords, -⟩ := hfollow
          have hin : CaptureRecord.header other ∈
              joins.map CaptureRecord.join ++ events.map CaptureRecord.event :=
            hrecords ▸ List.mem_map_of_mem (List.mem_of_mem_take hpiece)
          rcases List.mem_append.mp hin with hjoin | hevent
          · obtain ⟨_, -, hsame⟩ := List.mem_map.mp hjoin
            cases hsame
          · obtain ⟨_, -, hsame⟩ := List.mem_map.mp hevent
            cases hsame)
      have hwhole : Decoded parse (payload :: payloads)
          (.header header :: (rest.take (payloads.map frameOf).length).map Piece.record) :=
        .cons (decodeCapture_encodeCapture hcarriedHeader hparse hencode) hdecoded
      have hread := (@readCapture_accepts parse (payload :: payloads) (by
        intro other hother
        obtain ⟨_, -, -, hshort⟩ := (mem_forall₂ hwhole).1 other hother
        exact hshort)).mpr ⟨header, _, hwhole, by
          rw [List.map_take]
          exact follow_take hfollow _⟩
      simpa using hread

/-- CORRECT: whatever a live server's peers do and however its threads and its Capturer's writer
    interleave, the pieces of each Match captured are its header and then records `RecordOrder` lets
    by: Joins numbered from 1, then events whose offsets never go back, each naming players who
    joined, a Match end last. `ReadCapture` accepts a file of them no write of which failed: asked
    of what is not the server's are Commands that were read off some payload, a clock and IDs within
    their types, and a Protobuf that parses what it serialized. -/
theorem captures_readable (hids : Function.Injective ids) (config : HostConfig)
    {events : List HostEvent} (hlength : events.length < 2 ^ 63)
    {parseMessage : Lib.Protobuf.Bytes → Option Pb.Message}
    (hevents : ∀ event ∈ events, event.Received parseMessage) {s : Hosting}
    (hrun : (start config).run ids vecLength events = some s)
    (hgiven : ∀ i < s.host.match_.idsTaken, ids i < 2 ^ 128) {header : Header} {mode : CaptureMode}
    {capacity : ℕ} {told : List CaptureEvent} (htold : told.filter (·.isCall) <+: s.host.captured)
    {c : Captures}
    (hcaptures : (Captures.start header mode capacity).run encodePiece told = some c)
    (m : MatchId) :
    c.pieces m = [] ∨ ∃ header rest, c.pieces m = .header header :: rest ∧ header.match_ = m ∧
      RecordOrder.Follow 0 (rest.map Piece.record) ∧
      ∀ parse bytes, (∀ piece ∈ c.pieces m, Parses parse piece) → c.capturer.failure = false →
        c.writer.files.lookup m = some bytes → m ∉ c.writer.broken →
        ∃ capture, readCapture parse { rest := bytes } = .ok capture := by
  obtain ⟨all, hall⟩ := heard_run hids config hlength hrun
  obtain ⟨open_, hopen⟩ := heard_prefix htold hall
  rw [← run_listen] at hopen
  rcases (Captures.following_run hcaptures hopen).leads m with hnone | ⟨order, hleads⟩
  · exact .inl hnone
  · obtain ⟨header, rest, hpieces, hmatch, hadmits⟩ := hleads
    have hfollow : RecordOrder.Follow 0 (rest.map Piece.record) :=
      RecordOrder.admitsAll_joins.mp (Option.isSome_iff_exists.mpr ⟨order, hadmits⟩)
    refine .inr ⟨header, rest, hpieces, hmatch, hfollow, ?_⟩
    intro parse bytes hparse hok hfile hbroken
    have hsourced := sourced_run hids config hevents hrun
    have htyped := typed_told (fun call hcall =>
      (hsourced.told call (htold.subset hcall)).typed hgiven)
    exact readCapture_file (Captures.sound_run hcaptures hok) hfile hbroken hpieces hfollow
      (fun piece hpiece => Captures.returns_run hcaptures htyped hpiece) hparse

def filmedServer : HostConfig := { duelServer with capturing := true }

/-- A Command to fire, as its client sends it. -/
def duelShot : List SequencedCommand := [⟨1, { fire := true, seenTick := 1 }⟩]

/-- Protobuf, of the message of it. -/
def parseShot (payload : Lib.Protobuf.Bytes) : Option Pb.Message :=
  match (MessageWire.commands (commandsToWire duelShot)).write isUtf8 with
  | .ok written => if payload = written.bytes then some written else none
  | .error _ => none

/-- The two's Match: a tick of it, another on which one fires, and its end. -/
def duelMatch : List HostEvent :=
  duelLobby ++ [.goOn quiet, .goOn quiet, .goOn quiet, .message 1 (.commands duelShot) 3,
    .goOn quiet, .goOn quiet, .goOn quiet, .endMatch, .goOn quiet]

theorem duelMatch_received : ∀ event ∈ duelMatch, event.Received parseShot := by
  have hread : ((encodeCommands isUtf8 duelShot).toOption.bind fun payload =>
      readCommands isUtf8 parseShot payload) = some duelShot := by decide +kernel
  obtain ⟨payload, -, hpayload⟩ := Option.bind_eq_some_iff.mp hread
  have hclock : HostEvent.Received parseShot (.goOn quiet) := by
    refine ⟨?_, ?_⟩ <;> decide
  simp only [duelMatch, duelLobby, List.cons_append, List.nil_append, List.forall_mem_cons]
  exact ⟨trivial, trivial, trivial, trivial, trivial, trivial, hclock, hclock, hclock,
    ⟨payload, hpayload⟩, hclock, hclock, hclock, trivial, hclock,
    fun _ hevent => absurd hevent List.not_mem_nil⟩

theorem duelMatch_isSome :
    ((start filmedServer).run id (fun _ => .zero) duelMatch).isSome = true := by rfl

def duelEnd : Hosting :=
  ((start filmedServer).run id (fun _ => .zero) duelMatch).get duelMatch_isSome

/-- What its Capturer is told, each call gone on with to its end, and each piece written. -/
def duelTold : List CaptureEvent :=
  [.startMatch ⟨2, [⟨0, 1, "soldier", {}⟩, ⟨1, 2, "soldier", {}⟩], 1, 0⟩, .goOn, .goOn, .goOn, .goOn,
    .goOn, .take, .handle {}, .take, .handle {}, .take, .handle {},
    .command 2 1 { fire := true, seenTick := 1 }, .take, .handle {}, .endMatch 2 none, .goOn, .take,
    .handle {}, .take, .handle {}]

theorem duelTold_isSome :
    ((Captures.start {} .optional 8).run encodePiece duelTold).isSome = true := by decide +kernel

def duelCaptures : Captures :=
  ((Captures.start {} .optional 8).run encodePiece duelTold).get duelTold_isSome

/-- The records of it, as they are serialized. -/
def duelRecords : List Pb.CaptureRecord :=
  (duelCaptures.pieces 2).filterMap fun piece => ((pieceToWire piece).write isUtf8).toOption

/-- Protobuf, of those. -/
def parseDuel (payload : Lib.Protobuf.Bytes) : Option Pb.CaptureRecord :=
  duelRecords.find? fun written => written.bytes = payload

theorem parses_duel : ∀ piece ∈ duelCaptures.pieces 2, Parses parseDuel piece := by
  have hapart : (duelRecords.map (·.bytes)).Nodup := by decide +kernel
  intro piece hpiece written hwritten
  have hin : written ∈ duelRecords :=
    List.mem_filterMap.mpr ⟨piece, hpiece, by rw [hwritten]; rfl⟩
  obtain ⟨found, hfound⟩ : ∃ found,
      duelRecords.find? (fun other => other.bytes = written.bytes) = some found :=
    Option.isSome_iff_exists.mp (List.find?_isSome.mpr ⟨written, hin, decide_eq_true rfl⟩)
  have hbytes : found.bytes = written.bytes := by simpa using List.find?_some hfound
  rw [parseDuel, hfound,
    List.inj_on_of_nodup_map hapart (List.mem_of_find?_eq_some hfound) hin hbytes]

theorem captures_readable_duel : ∃ header rest bytes capture,
    duelCaptures.pieces 2 = .header header :: rest ∧ header.match_ = 2 ∧ rest.length = 4 ∧
      RecordOrder.Follow 0 (rest.map Piece.record) ∧
      duelCaptures.writer.files.lookup 2 = some bytes ∧
      readCapture parseDuel { rest := bytes } = .ok capture := by
  have hfew : duelMatch.length < 2 ^ 63 := by decide
  have hlength : (duelCaptures.pieces 2).length = 5 := by decide +kernel
  have htaken : duelEnd.host.match_.idsTaken = 3 := rfl
  obtain ⟨bytes, hbytes⟩ : ∃ bytes, duelCaptures.writer.files.lookup 2 = some bytes :=
    Option.isSome_iff_exists.mp (by decide +kernel)
  rcases @captures_readable id (fun _ => .zero) Function.injective_id filmedServer duelMatch hfew
    parseShot duelMatch_received duelEnd (Option.some_get _).symm
    (fun i hi => Nat.lt_trans (htaken ▸ hi) (by decide)) {} .optional 8 duelTold ⟨[], rfl⟩
    duelCaptures (Option.some_get _).symm 2 with
    hnone | ⟨header, rest, hpieces, hmatch, hfollow, hread⟩
  · rw [hnone] at hlength
    cases hlength
  · obtain ⟨capture, hcapture⟩ := hread parseDuel bytes parses_duel (by decide +kernel) hbytes
      (by decide +kernel)
    rw [hpieces] at hlength
    exact ⟨header, rest, bytes, capture, hpieces, hmatch, Nat.succ.inj hlength, hfollow, hbytes,
      hcapture⟩

end Hosting
end Augusta.Host
