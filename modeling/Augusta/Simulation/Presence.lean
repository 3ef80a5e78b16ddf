import Augusta.Simulation.Account
import Mathlib.Tactic.Tauto

/-! Who is in a World, and whose bullets fly there.

      startMatch ─▶ its entrants ── removePlayer ─▶ one less ── ticked ─▶ the same
                        └─ those a death names: the victim is in the World, the killer was -/

namespace Augusta.Simulation
open Lib (Binary32 Table)

/-- Everyone in the World, or with a bullet in flight there, is one of `entities`. -/
structure World.Among (entities : List EntityId) (world : World) : Prop where
  players : ∀ entity ∈ world.players.keys, entity ∈ entities
  shooters : ∀ bullet ∈ world.bullets, bullet.shooter ∈ entities

section
variable {entities : List EntityId} {ticking : Ticking} {outside : Outside}

/-- The same of a World part way through a tick, whose hits are by them too. -/
structure Ticking.Among (entities : List EntityId) (ticking : Ticking) : Prop where
  world : ticking.world.Among entities
  hits : ∀ hit ∈ ticking.playerHits, hit.shooter ∈ entities

theorem among_onPosing (h : ticking.Among entities) (entity : EntityId) :
    (ticking.onPosing outside entity).Among entities := by
  rw [Ticking.onPosing]
  cases hfiring : ticking.world.firing entity with
  | none => exact h
  | some round =>
      have hentity : entity ∈ entities := by
        obtain ⟨player, hplayer, -⟩ := Option.bind_eq_some_iff.mp hfiring
        exact h.world.players entity (AList.mem_keys.mp (AList.mem_iff_lookup.mpr ⟨player, hplayer⟩))
      simp only
      split
      · refine ⟨⟨h.world.players, fun bullet hbullet => ?_⟩, h.hits⟩
        rcases List.mem_append.mp hbullet with hold | hnew
        · exact h.world.shooters bullet hold
        · rw [List.mem_singleton.mp hnew]
          exact hentity
      · exact ⟨⟨h.world.players, h.world.shooters⟩, h.hits⟩

theorem among_onBallistics (h : ticking.Among entities) {bullet : Bullet}
    (hbullet : bullet.shooter ∈ entities) : (ticking.onBallistics outside bullet).Among entities := by
  rw [Ticking.onBallistics]
  split
  · refine ⟨⟨h.world.players, fun other hother => ?_⟩, h.hits⟩
    rcases List.mem_append.mp hother with hold | hnew
    · exact h.world.shooters other hold
    · rw [List.mem_singleton.mp hnew]
      exact hbullet
  · exact h
  · exact ⟨⟨h.world.players, h.world.shooters⟩, h.hits⟩
  · refine ⟨⟨h.world.players, h.world.shooters⟩, fun hit hhit => ?_⟩
    rcases List.mem_append.mp hhit with hold | hnew
    · exact h.hits hit hold
    · rw [List.mem_singleton.mp hnew]
      exact hbullet

theorem among_posing (h : ticking.Among entities) : (ticking.posing outside).Among entities := by
  rw [Ticking.posing]
  generalize outside.order .posing ticking.world.players.keys = order
  induction order generalizing ticking with
  | nil => exact h
  | cons entity rest ih => exact ih (among_onPosing h entity)

theorem among_ballistics (h : ticking.Among entities) :
    (ticking.ballistics outside).Among entities := by
  have hstored : ∀ bullet ∈ outside.flightOrder ticking.world.bullets, bullet.shooter ∈ entities :=
    fun bullet hbullet => h.world.shooters bullet ((outside.flightOrder_perm _).mem_iff.mp hbullet)
  have hemptied : ({ ticking with
      world := { ticking.world with bullets := [] } } : Ticking).Among entities := by
    refine ⟨⟨h.world.players, fun bullet hbullet => ?_⟩, h.hits⟩
    cases hbullet
  rw [Ticking.ballistics]
  revert hstored hemptied
  generalize outside.flightOrder ticking.world.bullets = stored
  generalize ({ ticking with world := { ticking.world with bullets := [] } } : Ticking) = flying
  intro hstored hemptied
  induction stored generalizing flying with
  | nil => exact hemptied
  | cons bullet rest ih =>
      exact ih _ (fun other hother => hstored other (List.mem_cons_of_mem _ hother))
        (among_onBallistics hemptied (hstored bullet List.mem_cons_self))

/-! ### Deaths -/

/-- A death is one of the hits' on its victim, by that hit's shooter. -/
theorem foldl_takeHit_deaths (damage : BodyPart.Damage) (hits : List PlayerHit)
    (wounded : Wounded) : ∀ death ∈ (hits.foldl (Wounded.takeHit damage) wounded).deaths,
      death ∈ wounded.deaths ∨ ∃ hit ∈ hits, death.victim = hit.target ∧ death.killer = hit.shooter := by
  induction hits generalizing wounded with
  | nil => exact fun death h => .inl h
  | cons hit rest ih =>
      intro death hdeath
      rcases ih _ death hdeath with hnow | ⟨other, hother, hsaid⟩
      · rcases List.mem_append.mp hnow with hold | hnew
        · exact .inl hold
        · split at hnew
          · rw [List.mem_singleton.mp hnew]
            exact .inr ⟨hit, List.mem_cons_self, rfl, rfl⟩
          · cases hnew
      · exact .inr ⟨other, List.mem_cons_of_mem _ hother, hsaid⟩

theorem deaths_among (h : ticking.Among entities) :
    ∀ death ∈ (ticking.damage outside).state.deaths,
      death.victim ∈ ticking.world.players.keys ∧ death.killer ∈ entities := by
  intro death hdeath
  simp only [Ticking.damage] at hdeath
  obtain ⟨wounded, hwounded, hdeath⟩ := List.mem_flatMap.mp hdeath
  obtain ⟨entity, hentity, hwounded⟩ := List.mem_flatMap.mp hwounded
  rw [World.woundsOf, Option.mem_toList, Option.map_eq_some_iff] at hwounded
  obtain ⟨player, hplayer, rfl⟩ := hwounded
  rw [Player.onDamage] at hdeath
  rcases foldl_takeHit_deaths _ _ _ death hdeath with hnone | ⟨hit, hhit, hvictim, hkiller⟩
  · cases hnone
  · obtain ⟨hhit, htarget⟩ := List.mem_filter.mp hhit
    rw [hvictim, of_decide_eq_true htarget, hkiller]
    exact ⟨AList.mem_keys.mp (AList.mem_iff_lookup.mpr ⟨player, hplayer⟩), h.hits hit hhit⟩

/-! ### A tick -/

/-- What a tick makes of who is in the World: nothing, whoever dies. -/
structure Stayed (world : World) (result : TickResult) (after : World) : Prop where
  keys : after.players.keys = world.players.keys
  tick : after.tick = world.tick + 1
  told : result.state.tick = world.tick + 1
  among : ∀ entities, world.Among entities → after.Among entities ∧
    ∀ death ∈ result.state.deaths,
      death.victim ∈ world.players.keys ∧ death.killer ∈ entities

theorem stayed_ticked (world : World) (commands : List (EntityId × Command)) (deltaTime : Binary32)
    (outside : Outside) : Stayed world (world.ticked commands deltaTime outside).1
      (world.ticked commands deltaTime outside).2 := by
  obtain ⟨begun, hbegun⟩ : ∃ begun : Ticking, begun =
      { world := { world with tick := world.tick + 1 }.act (World.commandsOf commands) deltaTime
        state := { tick := world.tick + 1 } } := ⟨_, rfl⟩
  obtain ⟨fought, hfought⟩ : ∃ fought, fought = (begun.posing outside).ballistics outside :=
    ⟨_, rfl⟩
  have hfight : Fought begun.world.living begun fought := by
    rw [hfought]
    exact fought_ballistics begun outside
  obtain ⟨done, hdone⟩ : ∃ done, done =
      ((fought.damage outside).scriptsBehaviours outside).commit outside := ⟨_, rfl⟩
  have hticked : world.ticked commands deltaTime outside =
      (⟨done.state.ordered, done.actions⟩, done.world) := by
    rw [hdone, hfought, hbegun]
    rfl
  have hkeys : begun.world.players.keys = world.players.keys := by
    rw [hbegun]
    exact AList.keys_mapEntries ..
  have hplayers : done.world.players.keys = fought.world.players.keys ∧
      done.world.bullets = fought.world.bullets ∧ done.world.tick = fought.world.tick ∧
      done.state.tick = fought.state.tick ∧
      done.state.deaths = (fought.damage outside).state.deaths := by
    have hdamaged : (fought.damage outside).world.players.keys = fought.world.players.keys :=
      AList.keys_mapEntries ..
    rcases @scriptsBehaviours_cases (fought.damage outside) outside with hquiet | ⟨_, -, hended⟩
    · rw [hdone, hquiet]
      exact ⟨hdamaged, rfl, rfl, rfl, rfl⟩
    · rw [hdone, hended]
      exact ⟨hdamaged, rfl, rfl, rfl, rfl⟩
  obtain ⟨hsame, hbullets, htick, htold, hdeaths⟩ := hplayers
  have hstill : fought.world.players.keys = world.players.keys := by
    rw [hfight.world]
    exact hkeys
  rw [hticked]
  refine ⟨hsame.trans hstill, ?_, ?_, fun entities hamong => ?_⟩
  · rw [htick, hfight.world, hbegun]
    rfl
  · change done.state.tick = _
    rw [htold, hfight.state, hbegun]
  · have hstart : begun.Among entities := by
      refine ⟨⟨by rw [hkeys]; exact hamong.players, ?_⟩, ?_⟩
      · rw [hbegun]
        exact hamong.shooters
      · rw [hbegun]
        intro hit hhit
        cases hhit
    have hthen : fought.Among entities := by
      rw [hfought]
      exact among_ballistics (among_posing hstart)
    refine ⟨⟨?_, ?_⟩, fun death hdeath => ?_⟩
    · rw [hsame]
      exact hthen.world.players
    · rw [hbullets]
      exact hthen.world.shooters
    · have hin := (State.perm_deaths done.state).mem_iff.mp hdeath
      rw [hdeaths] at hin
      rw [← hstill]
      exact deaths_among hthen death hin

end

/-! ### Matches -/

theorem removeAll_eq (entities : List EntityId) (world : World) :
    entities.foldl (fun world entity => world.removePlayer entity) world =
      { world with players :=
          entities.foldl (fun players entity => players.erase entity) world.players } := by
  induction entities generalizing world with
  | nil => rfl
  | cons entity rest ih => exact ih _

theorem mem_eraseAll {entities : List EntityId} {players : Table EntityId Player}
    {entity : EntityId} :
    entity ∈ entities.foldl (fun players entity => players.erase entity) players ↔
      entity ∉ entities ∧ entity ∈ players := by
  induction entities generalizing players with
  | nil => simp
  | cons first rest ih =>
      rw [List.foldl_cons, ih, AList.mem_erase, List.mem_cons]
      tauto

theorem mem_addPlayer (world : World) (entrant : World.Entrant) (spawn : Math.Vec3)
    (entity : EntityId) : entity ∈ (world.addPlayer entrant.entity spawn entrant.clips
        entrant.identity).players ↔ entity = entrant.entity ∨ entity ∈ world.players := by
  simp only [World.addPlayer, AList.emplace]
  split_ifs with hin
  · constructor
    · exact .inr
    · rintro (rfl | hold)
      · exact hin
      · exact hold
  · exact AList.mem_insert _

theorem length_spawnsOf (points : List Math.Vec3) (entrants : List World.Entrant)
    (indices : List ℕ) : (World.spawnsOf points entrants indices).length = entrants.length := by
  induction entrants generalizing indices with
  | nil => rfl
  | cons entrant rest ih =>
      rw [World.spawnsOf]
      split
      · rw [List.length_cons, ih, List.length_cons]
      · rw [List.length_cons, ih, List.length_cons]

/-- A Match starts with its entrants in the World, and no bullet. -/
theorem startMatch_present (world : World) (assigns : Policy.MatchView → ℕ → Option (List ℕ))
    (entrants : List World.Entrant) (spawnPoints : List Math.Vec3) :
    (∀ entity, entity ∈ (world.startMatch assigns entrants spawnPoints).1.players ↔
      entity ∈ entrants.map (·.entity)) ∧
    (world.startMatch assigns entrants spawnPoints).1.bullets = [] ∧
    (world.startMatch assigns entrants spawnPoints).1.tick = world.tick ∧
    (world.startMatch assigns entrants spawnPoints).2.length = entrants.length := by
  have hadd (pairs : List (World.Entrant × Math.Vec3)) (begun : World) :
      let added := pairs.foldl (fun w pair =>
        w.addPlayer pair.1.entity pair.2 pair.1.clips pair.1.identity) begun
      (∀ entity, entity ∈ added.players ↔
        entity ∈ pairs.map (·.1.entity) ∨ entity ∈ begun.players) ∧
      added.bullets = begun.bullets ∧ added.tick = begun.tick := by
    induction pairs generalizing begun with
    | nil => simp
    | cons pair rest ih =>
        obtain ⟨hplayers, hbullets, htick⟩ := ih
          (begun.addPlayer pair.1.entity pair.2 pair.1.clips pair.1.identity)
        refine ⟨fun entity => ?_, hbullets, htick⟩
        rw [List.foldl_cons, hplayers entity, mem_addPlayer, List.map_cons, List.mem_cons]
        tauto
  obtain ⟨spawned, hspawned⟩ : ∃ spawned, spawned =
      (world.startMatch assigns entrants spawnPoints).2 := ⟨_, rfl⟩
  have hlength : spawned.length = entrants.length := by
    rw [hspawned]
    exact length_spawnsOf ..
  have hstart : (world.startMatch assigns entrants spawnPoints).1 =
      (entrants.zip spawned).foldl (fun w pair =>
        w.addPlayer pair.1.entity pair.2 pair.1.clips pair.1.identity) world.endMatch := by
    rw [hspawned]
    rfl
  have hnames : (entrants.zip spawned).map (·.1.entity) = entrants.map (·.entity) := by
    have hfirst := List.map_fst_zip (Nat.le_of_eq hlength.symm)
    exact (List.map_map ..).symm.trans (congrArg (List.map (·.entity)) hfirst)
  obtain ⟨hplayers, hbullets, htick⟩ := hadd (entrants.zip spawned) world.endMatch
  rw [hstart]
  refine ⟨fun entity => ?_, hbullets, htick, hspawned ▸ hlength⟩
  rw [hplayers entity, hnames]
  exact or_iff_left (AList.notMem_empty entity)

end Augusta.Simulation
