import Augusta.Host.Embodied

/-! A live server's tables, in step over any run.

      match.members ═ players       whoever has joined, and no one else
      match.playing ═ bodies        once a tick is prepared
      bodies        ═ World's players ═ the Commands handed to it, one each -/

namespace Augusta.Host
open Lib (Table)

/-! ### Before anything -/

theorem mem_charactersToSimulation {characters : List (String × Prediction.Clips)} {path : String} :
    path ∈ charactersToSimulation characters ↔ path ∈ characters.map (·.1) := by
  have hfold (characters : List (String × Prediction.Clips)) (table : Table String Prediction.Clips) :
      path ∈ characters.foldl (fun table character => table.emplace character.1 character.2) table ↔
        path ∈ characters.map (·.1) ∨ path ∈ table := by
    induction characters generalizing table with
    | nil => simp
    | cons character rest ih =>
        rw [List.foldl_cons, ih, List.map_cons, List.mem_cons, AList.emplace]
        split_ifs with hin
        · constructor
          · rintro (hrest | hold)
            · exact .inl (.inr hrest)
            · exact .inr hold
          · rintro ((rfl | hrest) | hold)
            · exact .inr hin
            · exact .inl hrest
            · exact .inr hold
        · rw [AList.mem_insert]
          tauto
  rw [charactersToSimulation, hfold]
  exact or_iff_left (AList.notMem_empty path)

namespace Impl
variable {ids : ℕ → SessionId} {host : Impl}

theorem enrolled_ofConfig (ids : ℕ → SessionId) (config : HostConfig) :
    Enrolled ids (.ofConfig config) where
  booked := Match.booked_ofConfig _
  held := by
    intro peer session hpeer
    cases hpeer
  only := by
    intro session hin
    exact absurd hin (AList.notMem_empty session)

theorem embodied_ofConfig (config : HostConfig) : Embodied (.ofConfig config) where
  few := config.parameters.playerCount.toNat_lt
  known := by
    intro character hin
    exact mem_charactersToSimulation.mpr hin
  underway := by
    intro hin
    cases hin
  idle := fun _ => rfl
  bodied := by
    intro hin
    cases hin
  apart := List.nodup_nil
  world := by
    intro entity
    exact iff_of_false (AList.notMem_empty entity) List.not_mem_nil

end Impl

namespace Hosting
variable {ids : ℕ → SessionId} {vecLength : Math.Vec3 → Lib.Binary32}

/-! ### Every step -/

theorem kept_step (hids : Function.Injective ids) {s : Hosting} (h : s.host.Enrolled ids)
    (hbodied : s.host.Embodied) (event : HostEvent) :
    ∃ s', s.step ids vecLength event = some s' ∧ s'.host.Enrolled ids ∧ s'.host.Embodied := by
  have hthen {answer : Option Impl} {doing : Simulating} (hstays : Impl.Stays ids s.host answer) :
      ∃ s' : Hosting, (answer.map fun host => (⟨host, doing⟩ : Hosting)) = some s' ∧
        s'.host.Enrolled ids ∧ s'.host.Embodied := by
    obtain ⟨host, rfl, henrolled, haside⟩ := hstays
    exact ⟨_, rfl, henrolled, hbodied.aside haside⟩
  cases event with
  | connected peer now =>
      obtain ⟨henrolled, haside⟩ := @Impl.stays_same ids s.host h
        { s.host with gate := s.host.gate.connected peer now } rfl
      exact ⟨_, rfl, henrolled, hbodied.aside haside⟩
  | disconnected peer => exact hthen (Impl.stays_handleDisconnect h peer)
  | message from_ said now => exact hthen (Impl.stays_onMessage hids vecLength h from_ said now)
  | finishRound now => exact hthen (Impl.stays_finishRound h now)
  | goOn around =>
      rw [step]
      cases s.doing with
      | between =>
          obtain ⟨input, host', -, hprepared, hinput, -⟩ :=
            Impl.prepareTick_prepared h hbodied around.stored around.assigns around.started
          simp only [hprepared]
          exact ⟨_, rfl, hinput.enrolled, hinput.embodied⟩
      | ticking input =>
          exact ⟨_, rfl, Impl.embodied_simulate h hbodied input around.deltaTime around.outside⟩
      | acting actions =>
          cases actions with
          | nil => exact ⟨_, rfl, h, hbodied⟩
          | cons action rest =>
              cases action with
              | matchEnd winner => exact hthen (Impl.stays_endMatch h winner)
  | endMatch => exact hthen (Impl.stays_endMatch h none)

theorem kept_run (hids : Function.Injective ids) (config : HostConfig) (events : List HostEvent) :
    ∃ s, (start config).run ids vecLength events = some s ∧ s.host.Enrolled ids ∧
      s.host.Embodied := by
  induction events using List.reverseRecOn with
  | nil =>
      exact ⟨_, rfl, Impl.enrolled_ofConfig ids config, Impl.embodied_ofConfig config⟩
  | append_singleton events event ih =>
      obtain ⟨s, hrun, henrolled, hembodied⟩ := ih
      obtain ⟨s', hstep, hends⟩ := @kept_step ids vecLength hids s henrolled hembodied event
      exact ⟨s', Lib.run.concat_eq_some.mpr ⟨s, hrun, hstep⟩, hends⟩

/-! ### A Command for each player -/

theorem mem_forall₂ {α β : Type} {R : α → β → Prop} {as : List α} {bs : List β}
    (h : List.Forall₂ R as bs) :
    (∀ a ∈ as, ∃ b ∈ bs, R a b) ∧ ∀ b ∈ bs, ∃ a ∈ as, R a b := by
  induction h with
  | nil => exact ⟨fun _ h => absurd h List.not_mem_nil, fun _ h => absurd h List.not_mem_nil⟩
  | @cons a b as bs hab hrest ih =>
      refine ⟨fun a' ha' => ?_, fun b' hb' => ?_⟩
      · rcases List.mem_cons.mp ha' with rfl | hin
        · exact ⟨b, List.mem_cons_self, hab⟩
        · obtain ⟨b', hb', hR⟩ := ih.1 a' hin
          exact ⟨b', List.mem_cons_of_mem _ hb', hR⟩
      · rcases List.mem_cons.mp hb' with rfl | hin
        · exact ⟨a, List.mem_cons_self, hab⟩
        · obtain ⟨a', ha', hR⟩ := ih.2 b' hin
          exact ⟨a', List.mem_cons_of_mem _ ha', hR⟩

/-- Values of one key each are as different as their keys. -/
theorem nodup_map_forall₂ {α β γ : Type} {R : α → β → Prop} {f : β → γ} {as : List α} {bs : List β}
    (h : List.Forall₂ R as bs) (hR : ∀ {a a' b b'}, R a b → R a' b' → f b = f b' → a = a')
    (has : as.Nodup) : (bs.map f).Nodup := by
  induction h with
  | nil => exact List.nodup_nil
  | @cons a b as bs hab hrest ih =>
      rw [List.nodup_cons] at has
      rw [List.map_cons, List.nodup_cons]
      refine ⟨fun hin => ?_, ih has.2⟩
      obtain ⟨b', hb', hsame⟩ := List.mem_map.mp hin
      obtain ⟨a', ha', hab'⟩ := (mem_forall₂ hrest).2 b' hb'
      exact has.1 (hR hab hab' hsame.symm ▸ ha')

/-- The Commands of a tick prepared are one for each player in the World. -/
theorem commands_each {host : Impl} {input : Impl.TickInput} (h : Impl.Prepared ids host input) :
    (input.commands.map (·.1)).Nodup ∧
      ∀ entity, entity ∈ input.commands.map (·.1) ↔ entity ∈ host.simulation.players := by
  have hplaying : host.match_.playing.Nodup := by
    rw [Match.playing]
    split_ifs
    · exact Match.nodup_sessions h.enrolled.booked
    · exact List.nodup_nil
  refine ⟨nodup_map_forall₂ h.handed.commands (fun ha hb hsame => ?_) hplaying, fun entity => ?_⟩
  · rw [hsame] at ha
    exact Impl.session_of_body h.embodied ha hb
  · rw [h.embodied.world, AList.mem_values_iff]
    obtain ⟨hleft, hright⟩ := mem_forall₂ h.handed.commands
    constructor
    · intro hin
      obtain ⟨command, hcommand, rfl⟩ := List.mem_map.mp hin
      obtain ⟨session, -, hbody⟩ := hright command hcommand
      exact ⟨session, hbody⟩
    · rintro ⟨session, hbody⟩
      have hplays := Match.isPlaying_iff.mp
        (h.playing session (AList.mem_iff_lookup.mpr ⟨entity, hbody⟩))
      obtain ⟨command, hcommand, hsame⟩ := hleft session (Match.mem_playing.mpr hplays)
      rw [hbody] at hsame
      exact List.mem_map.mpr ⟨command, hcommand, (Option.some.inj hsame).symm⟩

/-! ### The law -/

/-- CORRECT: whatever its peers do and however its two threads interleave, no lookup of a live server
    ever fails: its players are its Match's members, each on its own connection, and a tick it
    prepares has a body and one Command for everyone who plays, and for no one else. -/
theorem host_law (hids : Function.Injective ids) (config : HostConfig) (events : List HostEvent) :
    ∃ s, (start config).run ids vecLength events = some s ∧ s.host.Enrolled ids ∧
      s.host.Embodied ∧
      ∀ around, s.doing = .between → ∃ input host',
        s.step ids vecLength (.goOn around) = some ⟨host', .ticking input⟩ ∧
        Impl.Prepared ids host' input ∧
        (input.commands.map (·.1)).Nodup ∧
        ∀ entity, entity ∈ input.commands.map (·.1) ↔ entity ∈ host'.simulation.players := by
  obtain ⟨s, hrun, henrolled, hembodied⟩ := @kept_run ids vecLength hids config events
  refine ⟨s, hrun, henrolled, hembodied, fun around hbetween => ?_⟩
  obtain ⟨input, host', -, hprepared, hinput, -⟩ := Impl.prepareTick_prepared henrolled hembodied
    around.stored around.assigns around.started
  refine ⟨input, host', ?_, hinput, commands_each hinput⟩
  rw [step, hbetween]
  simp only [hprepared]
  rfl

/-! A server for two, both of whom have joined and loaded. -/

def duelServer : HostConfig where
  tickRateHz := 60
  parameters := { playerCount := 2 }
  engineVersion := "1"
  clientPack := Vector.replicate 32 0
  collision := { move := fun position _ _ _ => (position, true), fits := fun _ _ => true }
  characters := [("soldier", { strideLength := fun _ _ _ => .one, transitions := {} })]
  spawnPoints := []

/-- Nothing is stored out of order, no bullet hits and the rules decide nothing. -/
def quiet : Around where
  stored := ⟨id, .refl⟩
  assigns := fun _ _ => none
  started := 0
  deltaTime := ⟨0x3C888889⟩
  outside :=
    { order := fun _ => id
      order_perm := fun _ => .refl
      flightOrder := id
      flightOrder_perm := .refl
      barrel := fun _ round => .clear {} round.yaw round.pitch
      flight := fun _ _ => .expired
      struck_mem := by
        intro _ _ _ _ h
        cases h
      onTick := fun _ _ => none }

def duelLobby : List HostEvent :=
  [.connected 1 0, .connected 2 0, .message 1 (.joinRequest duelRequest) 1,
    .message 2 (.joinRequest duelRequest) 1, .message 1 (.ready 2) 2, .message 2 (.ready 2) 2]

/-- The bodies a tick about to run has Commands for, none between ticks. -/
def commanded (s : Hosting) : Option (List EntityId) :=
  match s.doing with
  | .ticking input => some (input.commands.map (·.1))
  | _ => none

theorem host_law_duel : ∃ s input host',
    (start duelServer).run id (fun _ => .zero) duelLobby = some s ∧
      s.step id (fun _ => .zero) (.goOn quiet) = some ⟨host', .ticking input⟩ ∧
      Impl.Prepared id host' input ∧ input.commands.map (·.1) = [1, 2] := by
  obtain ⟨s, hrun, -, -, hnext⟩ :=
    @host_law id (fun _ => .zero) Function.injective_id duelServer duelLobby
  have hdoing : ((start duelServer).run id (fun _ => .zero) duelLobby).map (·.doing) =
      some .between := rfl
  rw [hrun, Option.map_some] at hdoing
  obtain ⟨input, host', hstep, hprepared, -⟩ := hnext quiet (Option.some.inj hdoing)
  have hcommanded : (((start duelServer).run id (fun _ => .zero) duelLobby).bind fun s =>
      s.step id (fun _ => .zero) (.goOn quiet)).bind commanded = some [1, 2] := rfl
  rw [hrun, Option.bind_some, hstep] at hcommanded
  exact ⟨s, input, host', hrun, hstep, hprepared, Option.some.inj hcommanded⟩

end Hosting
end Augusta.Host
