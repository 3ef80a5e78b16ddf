import Augusta.Lib.Keyed
import Augusta.Simulation.Ledger

/-! What one tick leaves of its players, and says of them.

      World ──posing──▶ Shots of the living ──ballistics──▶ hits on the living
        ──damage──▶ a ledger for each player, a death for each hit that reached zero
        ──scripts──▶ the Match end, if it has had none ──commit──▶ the bodies that are left -/

namespace Augusta.Simulation
open Lib (Binary32 Table)

theorem World.mem_living {world : World} {entity : EntityId} :
    entity ∈ world.living ↔
      ∃ player, world.players.lookup entity = some player ∧ player.living.isSome = true := by
  rw [living, ← AList.mem_keys, AList.mem_iff_lookup, AList.lookup_filter]
  simp [Option.filter_eq_some_iff]

/-- What Commands do to a player is neither to its health nor to its life. -/
theorem Player.act_sound {deltaTime : Binary32} {collision : Physics.Collision}
    {rules : Prediction.Rules} {command : Option Command} {player : Player} :
    (player.act collision rules deltaTime command).health = player.health ∧
      (player.act collision rules deltaTime command).living.isSome = player.living.isSome := by
  rw [act]
  split
  · next h => exact ⟨rfl, rfl⟩
  · next h => exact ⟨rfl, by simp [h]⟩

/-! ### Up to the bullets' ends -/

/-- What Posing and Ballistics leave alone, and whom they name. -/
structure Fought (living : List EntityId) (before after : Ticking) : Prop where
  world : after.world = { before.world with
    bullets := after.world.bullets, bulletsFired := after.world.bulletsFired }
  state : after.state = { before.state with
    shots := after.state.shots, mapImpacts := after.state.mapImpacts
    bulletsInFlight := after.state.bulletsInFlight }
  actions : after.actions = before.actions
  shots : ∀ shot ∈ after.state.shots, shot ∈ before.state.shots ∨ shot.shooter ∈ living
  hits : ∀ hit ∈ after.playerHits, hit ∈ before.playerHits ∨ hit.target ∈ living

section
variable {ticking : Ticking} {outside : Outside}

theorem Fought.refl (living : List EntityId) (ticking : Ticking) : Fought living ticking ticking :=
  ⟨rfl, rfl, rfl, fun _ h => .inl h, fun _ h => .inl h⟩

theorem Fought.trans {living : List EntityId} {a b c : Ticking} (h : Fought living a b)
    (h' : Fought living b c) : Fought living a c where
  world := by rw [h'.world, h.world]
  state := by rw [h'.state, h.state]
  actions := h'.actions.trans h.actions
  shots := by
    intro shot hshot
    rcases h'.shots shot hshot with hold | hnew
    · exact h.shots shot hold
    · exact .inr hnew
  hits := by
    intro hit hhit
    rcases h'.hits hit hhit with hold | hnew
    · exact h.hits hit hold
    · exact .inr hnew

theorem Fought.living_eq {living : List EntityId} {before after : Ticking}
    (h : Fought living before after) : after.world.living = before.world.living := by
  rw [h.world]
  rfl

theorem fought_onPosing (entity : EntityId) :
    Fought ticking.world.living ticking (ticking.onPosing outside entity) := by
  rw [Ticking.onPosing]
  cases hfiring : ticking.world.firing entity with
  | none => exact .refl _ _
  | some round =>
      have hliving : entity ∈ ticking.world.living := by
        obtain ⟨player, hplayer, hround⟩ := Option.bind_eq_some_iff.mp hfiring
        split at hround
        · next halive => exact World.mem_living.mpr ⟨player, hplayer, halive⟩
        · cases hround
      simp only
      split
      · refine ⟨rfl, rfl, rfl, fun shot hshot => ?_, fun _ h => .inl h⟩
        rcases List.mem_append.mp hshot with hold | hnew
        · exact .inl hold
        · rw [List.mem_singleton.mp hnew]
          exact .inr hliving
      · refine ⟨rfl, rfl, rfl, fun shot hshot => ?_, fun _ h => .inl h⟩
        rcases List.mem_append.mp hshot with hold | hnew
        · exact .inl hold
        · rw [List.mem_singleton.mp hnew]
          exact .inr hliving

theorem fought_onBallistics (outside : Outside) (bullet : Bullet) :
    Fought ticking.world.living ticking (ticking.onBallistics outside bullet) := by
  rw [Ticking.onBallistics]
  cases hflight : outside.flight bullet (ticking.world.targets bullet.shooter) with
  | inFlight => exact ⟨rfl, rfl, rfl, fun _ h => .inl h, fun _ h => .inl h⟩
  | expired => exact .refl _ _
  | map point => exact ⟨rfl, rfl, rfl, fun _ h => .inl h, fun _ h => .inl h⟩
  | hitbox target part =>
      refine ⟨rfl, rfl, rfl, fun _ h => .inl h, fun hit hhit => ?_⟩
      rcases List.mem_append.mp hhit with hold | hnew
      · exact .inl hold
      · rw [List.mem_singleton.mp hnew]
        exact .inr (List.mem_filter.mp (outside.struck_mem _ _ _ _ hflight)).1

/-- What one of them leaves alone, all of them do. -/
theorem fought_foldl {α : Type} {step : Ticking → α → Ticking}
    (hstep : ∀ (t : Ticking) (a : α), Fought t.world.living t (step t a)) (items : List α)
    (ticking : Ticking) : Fought ticking.world.living ticking (items.foldl step ticking) := by
  induction items generalizing ticking with
  | nil => exact .refl _ _
  | cons item rest ih =>
      have hfirst := hstep ticking item
      have hrest := ih (step ticking item)
      rw [hfirst.living_eq] at hrest
      exact hfirst.trans hrest

/-- Posing and Ballistics: the living fire, and the living are struck. -/
theorem fought_ballistics (ticking : Ticking) (outside : Outside) :
    Fought ticking.world.living ticking ((ticking.posing outside).ballistics outside) := by
  have hposing : Fought ticking.world.living ticking (ticking.posing outside) :=
    fought_foldl (fun _ entity => fought_onPosing entity) _ ticking
  have hemptied : Fought ticking.world.living (ticking.posing outside)
      { ticking.posing outside with world := { (ticking.posing outside).world with bullets := [] } } :=
    ⟨rfl, rfl, rfl, fun _ h => .inl h, fun _ h => .inl h⟩
  have hflown := fought_foldl (fun _ bullet => fought_onBallistics outside bullet)
    (outside.flightOrder (ticking.posing outside).world.bullets)
    { ticking.posing outside with world := { (ticking.posing outside).world with bullets := [] } }
  rw [hemptied.living_eq, hposing.living_eq] at hflown
  exact (hposing.trans hemptied).trans hflown

end

/-! ### Damage -/

/-- Every player's health is what it may be. -/
def World.Sound (start : Binary32) (world : World) : Prop :=
  ∀ entity player, world.players.lookup entity = some player → player.Sound start

/-- What Damage says of one player, by its hits. -/
theorem wounds_said {start : Binary32} {world : World} (hharms : Harms world.parameters.ammo.damage)
    (hsound : world.Sound start) (hits : List PlayerHit) (entity : EntityId) :
    world.woundsOf hits entity = [] ∨ ∃ player wounded,
      world.players.lookup entity = some player ∧ world.woundsOf hits entity = [wounded] ∧
        Wounds start entity player wounded := by
  rw [World.woundsOf]
  cases hplayer : world.players.lookup entity with
  | none => exact .inl rfl
  | some player =>
      exact .inr ⟨player, _, rfl, rfl, wounds_onDamage hharms (hsound entity player hplayer) hits⟩

theorem Wounds.victims {start : Binary32} {entity : EntityId} {player : Player} {wounded : Wounded}
    (h : Wounds start entity player wounded) : ∀ death ∈ wounded.deaths, death.victim = entity := by
  intro death hdeath
  have hblow : death.blow ∈ (wounded.hits.filter (·.reachedZero)).map Hit.blow := by
    rw [← h.blows]
    exact List.mem_map_of_mem hdeath
  obtain ⟨hit, hhit, hsame⟩ := List.mem_map.mp hblow
  rw [← h.targets hit (List.mem_of_mem_filter hhit)]
  exact (congrArg Prod.fst hsame).symm

/-- A player's hits, in the order they struck. -/
theorem onDamage_targets (damage : BodyPart.Damage) (hits : List PlayerHit) (entity : EntityId)
    (player : Player) : (player.onDamage damage hits entity).hits.map (·.target) =
      (hits.filter fun hit => hit.target = entity).map (·.target) := by
  rw [Player.onDamage]
  generalize hits.filter (fun hit => hit.target = entity) = struck
  induction struck generalizing player with
  | nil => rfl
  | cons hit rest ih =>
      rw [List.foldl_cons, foldl_takeHit, List.map_append, ih]
      rfl

theorem order_nodup (outside : Outside) (phase : Phase) (players : Table EntityId Player) :
    (outside.order phase players.keys).Nodup :=
  (outside.order_perm phase players.keys).nodup_iff.mpr players.nodupKeys

theorem mem_order {outside : Outside} {phase : Phase} {players : Table EntityId Player}
    {entity : EntityId} : entity ∈ outside.order phase players.keys ↔
      ∃ player, players.lookup entity = some player := by
  rw [(outside.order_perm phase players.keys).mem_iff, ← AList.mem_keys, AList.mem_iff_lookup]

section
variable {start : Binary32} {ticking : Ticking} {outside : Outside}

/-- A player after Damage. -/
theorem lookup_damage (entity : EntityId) :
    (ticking.damage outside).world.players.lookup entity =
      (ticking.world.players.lookup entity).map fun player =>
        (player.onDamage ticking.world.parameters.ammo.damage ticking.playerHits entity).player :=
  AList.lookup_mapEntries _ _ entity

/-- What Damage says of one player is that player's ledger. -/
theorem hits_damage {entity : EntityId} {player : Player}
    (hplayer : ticking.world.players.lookup entity = some player) :
    (ticking.damage outside).state.hits.filter (fun hit => hit.target = entity) =
      (player.onDamage ticking.world.parameters.ammo.damage ticking.playerHits entity).hits := by
  have hkey : ∀ k, ∀ hit ∈ (ticking.world.woundsOf ticking.playerHits k).flatMap (·.hits),
      hit.target = k := by
    intro k hit hhit
    obtain ⟨wounded, hwounded, hsaid⟩ := List.mem_flatMap.mp hhit
    rw [World.woundsOf, Option.mem_toList, Option.map_eq_some_iff] at hwounded
    obtain ⟨_, -, rfl⟩ := hwounded
    have hmem := List.mem_map_of_mem (f := fun hit : Hit => hit.target) hsaid
    rw [onDamage_targets] at hmem
    obtain ⟨struck, hstruck, hsame⟩ := List.mem_map.mp hmem
    exact hsame ▸ of_decide_eq_true (List.mem_filter.mp hstruck).2
  simp only [Ticking.damage]
  rw [List.flatMap_assoc, List.filter_flatMap_key hkey (order_nodup outside _ _),
    if_pos (mem_order.mpr ⟨player, hplayer⟩), World.woundsOf, hplayer]
  simp

variable (hharms : Harms ticking.world.parameters.ammo.damage) (hsound : ticking.world.Sound start)
include hharms hsound

/-- Each hit that reached zero is a death, in the same order. -/
theorem blows_damage : (ticking.damage outside).state.deaths.map Death.blow =
    ((ticking.damage outside).state.hits.filter (·.reachedZero)).map Hit.blow := by
  simp only [Ticking.damage]
  generalize outside.order .damage ticking.world.players.keys = entities
  induction entities with
  | nil => rfl
  | cons entity rest ih =>
      simp only [List.flatMap_cons, List.flatMap_append, List.map_append, List.filter_append, ih]
      congr 1
      rcases wounds_said hharms hsound ticking.playerHits entity with hnone | ⟨_, _, -, hone, hwounds⟩
      · rw [hnone]; rfl
      · rw [hone]; simpa using hwounds.blows

/-- A player dies once at most in a tick, and it is one that lived and lives no more. -/
theorem deaths_damage : ((ticking.damage outside).state.deaths.map (·.victim)).Nodup ∧
    ∀ death ∈ (ticking.damage outside).state.deaths, death.victim ∈ ticking.world.living ∧
      death.victim ∉ (ticking.damage outside).world.living := by
  have hdeaths (k : EntityId) :
      (ticking.world.woundsOf ticking.playerHits k).flatMap (·.deaths) = [] ∨
        ∃ death, (ticking.world.woundsOf ticking.playerHits k).flatMap (·.deaths) = [death] ∧
          death.victim = k ∧ k ∈ ticking.world.living ∧
            k ∉ (ticking.damage outside).world.living := by
    rcases wounds_said hharms hsound ticking.playerHits k with
      hnone | ⟨player, wounded, hplayer, hone, hwounds⟩
    · exact .inl (by rw [hnone]; rfl)
    · rcases hwounds.died with ⟨hdeaths, -⟩ | ⟨death, hdeaths, halive, hdead⟩
      · exact .inl (by rw [hone, List.flatMap_singleton, hdeaths])
      · refine .inr ⟨death, by rw [hone, List.flatMap_singleton, hdeaths], ?_,
          World.mem_living.mpr ⟨player, hplayer, halive⟩, ?_⟩
        · exact hwounds.victims death (by rw [hdeaths]; exact List.mem_singleton_self _)
        · rw [World.mem_living, lookup_damage, hplayer]
          rw [World.woundsOf, hplayer] at hone
          obtain rfl : _ = wounded := List.singleton_inj.mp hone
          rintro ⟨left, hleft, hstill⟩
          obtain rfl := Option.some.inj hleft
          rw [hdead] at hstill
          cases hstill
  have hall : (ticking.damage outside).state.deaths =
      (outside.order .damage ticking.world.players.keys).flatMap fun k =>
        (ticking.world.woundsOf ticking.playerHits k).flatMap (·.deaths) := List.flatMap_assoc
  rw [hall]
  constructor
  · refine List.nodup_map_flatMap (fun k => ?_) (order_nodup outside _ _)
    rcases hdeaths k with hnone | ⟨death, hone, hvictim, -⟩
    · exact .inl hnone
    · exact .inr ⟨death, hone, hvictim⟩
  · intro death hdeath
    obtain ⟨k, -, hmem⟩ := List.mem_flatMap.mp hdeath
    rcases hdeaths k with hnone | ⟨said, hone, hvictim, hliving, hdead⟩
    · rw [hnone] at hmem; cases hmem
    · rw [hone] at hmem
      rw [List.mem_singleton.mp hmem, hvictim]
      exact ⟨hliving, hdead⟩

end

/-! ### What is given out: what was said, in another order -/

theorem State.perm_deaths (state : State) : state.ordered.deaths.Perm state.deaths :=
  List.perm_insertionSort _ _

theorem State.perm_hits (state : State) : state.ordered.hits.Perm state.hits :=
  List.perm_insertionSort _ _

theorem State.perm_shots (state : State) : state.ordered.shots.Perm state.shots :=
  List.perm_insertionSort _ _

theorem State.perm_bodies (state : State) : state.ordered.bodies.Perm state.bodies :=
  List.perm_insertionSort _ _

theorem State.perm_alive (state : State) : state.ordered.alive.Perm state.alive :=
  List.perm_insertionSort _ _

/-- A player's hits are given out in the order they struck. -/
theorem State.hits_ordered (state : State) (entity : EntityId) :
    (state.ordered.hits.filter fun hit => hit.target = entity) =
      state.hits.filter fun hit => hit.target = entity := by
  refine List.filter_insertionSort (List.pairwise_of_forall_mem_list ?_)
  intro a ha b hb
  rw [of_decide_eq_true (List.mem_filter.mp ha).2, of_decide_eq_true (List.mem_filter.mp hb).2]
  exact UInt32.le_refl _

/-! ### The whole tick -/

/-- What a tick from `world` says, and what it leaves. -/
structure Accounted (start : Binary32) (world : World) (result : TickResult) (after : World) :
    Prop where
  parameters : after.parameters = world.parameters
  gone : ∀ entity, world.players.lookup entity = none → after.players.lookup entity = none
  /-- What its hits on a player took off that player's health. -/
  wounds : ∀ entity player, world.players.lookup entity = some player →
    ∃ left, after.players.lookup entity = some left ∧ left.Sound start ∧
      left.health.key ≤ player.health.key ∧
      Ledger player.health (result.state.hits.filter fun hit => hit.target = entity) left.health
  blows : (result.state.deaths.map Death.blow).Perm
    ((result.state.hits.filter (·.reachedZero)).map Hit.blow)
  once : (result.state.deaths.map (·.victim)).Nodup
  died : ∀ entity, entity ∈ result.state.deaths.map (·.victim) ↔
    entity ∈ world.living ∧ entity ∉ after.living
  fired : ∀ shot ∈ result.state.shots, shot.shooter ∈ world.living
  struck : ∀ hit ∈ result.state.hits, hit.target ∈ world.living
  bodies : ∀ entity, entity ∈ result.state.bodies.map (·.entity) ↔ entity ∈ after.living
  alive : ∀ entity, entity ∈ result.state.alive ↔ entity ∈ after.living
  still : ∀ entity ∈ after.living, entity ∈ world.living
  ended : (result.actions = [] ∧ after.matchEnded = world.matchEnded) ∨
    ∃ action, result.actions = [action] ∧ world.matchEnded = false ∧ after.matchEnded = true

section
variable {start : Binary32} {ticking : Ticking} {outside : Outside}

/-- Game policy is asked of a Match it has not ended, and ends it by any action it takes. -/
theorem scriptsBehaviours_cases : ticking.scriptsBehaviours outside = ticking ∨
    ∃ action, ticking.world.matchEnded = false ∧ ticking.scriptsBehaviours outside =
      { ticking with
        actions := ticking.actions ++ [action]
        world := { ticking.world with matchEnded := true } } := by
  rw [Ticking.scriptsBehaviours]
  split_ifs with hquiet
  · exact .inl rfl
  · split
    · exact .inl rfl
    · next action _ =>
        cases action
        exact .inr ⟨_, by simpa using (not_or.mp hquiet).2, rfl⟩

/-- The bodies committed are those of the living. -/
theorem mem_commit {entity : EntityId} :
    entity ∈ (ticking.commit outside).state.bodies.map (·.entity) ↔
      entity ∈ ticking.world.living := by
  have hentity {k : EntityId} {player : Player} {body : EntityState}
      (h : EntityState.ofPlayer k player = some body) : body.entity = k := by
    obtain ⟨mover, -, rfl⟩ := Option.map_eq_some_iff.mp h
    rfl
  rw [World.mem_living]
  constructor
  · intro hmem
    obtain ⟨body, hbody, rfl⟩ := List.mem_map.mp hmem
    obtain ⟨k, -, hk⟩ := List.mem_filterMap.mp hbody
    obtain ⟨player, hplayer, hof⟩ := Option.bind_eq_some_iff.mp hk
    rw [hentity hof]
    obtain ⟨mover, hmover, -⟩ := Option.map_eq_some_iff.mp hof
    exact ⟨player, hplayer, by rw [hmover]; rfl⟩
  · rintro ⟨player, hplayer, hliving⟩
    obtain ⟨mover, hmover⟩ := Option.isSome_iff_exists.mp hliving
    obtain ⟨body, hbody⟩ : ∃ body, EntityState.ofPlayer entity player = some body := by
      rw [EntityState.ofPlayer, hmover]
      exact ⟨_, rfl⟩
    refine List.mem_map.mpr ⟨body, List.mem_filterMap.mpr ⟨entity, ?_, ?_⟩, hentity hbody⟩
    · exact mem_order.mpr ⟨player, hplayer⟩
    · rw [hplayer]; exact hbody

/-- A player dies on the tick that finds it alive and does not leave it so. -/
theorem mem_deaths (hharms : Harms ticking.world.parameters.ammo.damage)
    (hsound : ticking.world.Sound start) {entity : EntityId} :
    entity ∈ (ticking.damage outside).state.deaths.map (·.victim) ↔
      entity ∈ ticking.world.living ∧ entity ∉ (ticking.damage outside).world.living := by
  constructor
  · intro hmem
    obtain ⟨death, hdeath, rfl⟩ := List.mem_map.mp hmem
    exact (deaths_damage hharms hsound).2 death hdeath
  · rintro ⟨hliving, hdead⟩
    obtain ⟨player, hplayer, halive⟩ := World.mem_living.mp hliving
    obtain ⟨wounded, hwounded⟩ : ∃ wounded, wounded =
        player.onDamage ticking.world.parameters.ammo.damage ticking.playerHits entity := ⟨_, rfl⟩
    have hwounds : Wounds start entity player wounded := by
      rw [hwounded]
      exact wounds_onDamage hharms (hsound entity player hplayer) ticking.playerHits
    rcases hwounds.died with ⟨-, hstill⟩ | ⟨death, hdeaths, -⟩
    · refine absurd (World.mem_living.mpr ⟨wounded.player, ?_, hstill.trans halive⟩) hdead
      rw [lookup_damage, hplayer, hwounded]
      rfl
    · have hsaid : wounded ∈ ticking.world.woundsOf ticking.playerHits entity := by
        rw [World.woundsOf, hplayer, hwounded]
        exact List.mem_singleton_self _
      have hdeath : death ∈ wounded.deaths := by
        rw [hdeaths]
        exact List.mem_singleton_self _
      exact List.mem_map.mpr ⟨death, List.mem_flatMap.mpr ⟨wounded, List.mem_flatMap.mpr
        ⟨entity, mem_order.mpr ⟨player, hplayer⟩, hsaid⟩, hdeath⟩, hwounds.victims death hdeath⟩

/-- Damage brings no one back. -/
theorem living_damage (hharms : Harms ticking.world.parameters.ammo.damage)
    (hsound : ticking.world.Sound start) {entity : EntityId}
    (h : entity ∈ (ticking.damage outside).world.living) : entity ∈ ticking.world.living := by
  obtain ⟨left, hleft, halive⟩ := World.mem_living.mp h
  rw [lookup_damage, Option.map_eq_some_iff] at hleft
  obtain ⟨player, hplayer, rfl⟩ := hleft
  have hwounds : Wounds start entity player
      (player.onDamage ticking.world.parameters.ammo.damage ticking.playerHits entity) :=
    wounds_onDamage hharms (hsound entity player hplayer) ticking.playerHits
  rcases hwounds.died with ⟨-, hstill⟩ | ⟨-, -, hliving, -⟩
  · exact World.mem_living.mpr ⟨player, hplayer, hstill ▸ halive⟩
  · exact World.mem_living.mpr ⟨player, hplayer, hliving⟩

/-- The World as a tick's Commands leave it: no one hurt, no one healed. -/
theorem lookup_act {world : World} {commands : Table EntityId Command} {deltaTime : Binary32}
    (entity : EntityId) : (world.act commands deltaTime).players.lookup entity =
      (world.players.lookup entity).map fun player =>
        player.act world.collision world.rules deltaTime (commands.lookup entity) :=
  AList.lookup_mapEntries _ _ entity

theorem living_act {world : World} {commands : Table EntityId Command} {deltaTime : Binary32}
    {entity : EntityId} : entity ∈ (world.act commands deltaTime).living ↔
      entity ∈ world.living := by
  simp only [World.mem_living, lookup_act, Option.map_eq_some_iff]
  constructor
  · rintro ⟨_, ⟨player, hplayer, rfl⟩, hliving⟩
    exact ⟨player, hplayer, Player.act_sound.2 ▸ hliving⟩
  · rintro ⟨player, hplayer, hliving⟩
    exact ⟨_, ⟨player, hplayer, rfl⟩, Player.act_sound.2.trans hliving⟩

theorem sound_act {world : World} (h : world.Sound start) (commands : Table EntityId Command)
    (deltaTime : Binary32) : (world.act commands deltaTime).Sound start := by
  intro entity player hplayer
  rw [lookup_act, Option.map_eq_some_iff] at hplayer
  obtain ⟨before, hbefore, rfl⟩ := hplayer
  obtain ⟨hhealth, hmost, hliving⟩ := h entity before hbefore
  obtain ⟨hsame, hstill⟩ := @Player.act_sound deltaTime world.collision world.rules
    (commands.lookup entity) before
  exact ⟨hsame ▸ hhealth, hsame ▸ hmost, by rw [hsame, hstill]; exact hliving⟩

/-- What Damage does is what the tick's ledger says. -/
theorem accounted_damage (hharms : Harms ticking.world.parameters.ammo.damage)
    (hsound : ticking.world.Sound start) {entity : EntityId} {player : Player}
    (hplayer : ticking.world.players.lookup entity = some player) :
    ∃ left, (ticking.damage outside).world.players.lookup entity = some left ∧ left.Sound start ∧
      left.health.key ≤ player.health.key ∧
      Ledger player.health
        ((ticking.damage outside).state.hits.filter fun hit => hit.target = entity) left.health := by
  have hwounds : Wounds start entity player
      (player.onDamage ticking.world.parameters.ammo.damage ticking.playerHits entity) :=
    wounds_onDamage hharms (hsound entity player hplayer) ticking.playerHits
  refine ⟨_, by rw [lookup_damage, hplayer]; rfl, hwounds.sound, hwounds.falls, ?_⟩
  rw [hits_damage hplayer]
  exact hwounds.ledger

/-- Whom a hit names was struck. -/
theorem struck_damage {hit : Hit} (h : hit ∈ (ticking.damage outside).state.hits) :
    ∃ struck ∈ ticking.playerHits, struck.target = hit.target := by
  obtain ⟨wounded, hwounded, hhit⟩ := List.mem_flatMap.mp h
  obtain ⟨entity, -, hsaid⟩ := List.mem_flatMap.mp hwounded
  rw [World.woundsOf, Option.mem_toList, Option.map_eq_some_iff] at hsaid
  obtain ⟨player, -, rfl⟩ := hsaid
  have hmem := List.mem_map_of_mem (f := fun hit : Hit => hit.target) hhit
  rw [onDamage_targets] at hmem
  obtain ⟨struck, hstruck, hsame⟩ := List.mem_map.mp hmem
  exact ⟨struck, List.mem_of_mem_filter hstruck, hsame⟩

/-- A tick's account of its World. -/
theorem accounted_ticked {world : World} (hharms : Harms world.parameters.ammo.damage)
    (hsound : world.Sound start) (commands : List (EntityId × Command)) (deltaTime : Binary32)
    (outside : Outside) :
    Accounted start world (world.ticked commands deltaTime outside).1
      (world.ticked commands deltaTime outside).2 := by
  obtain ⟨begun, hbegun⟩ : ∃ begun : Ticking, begun =
      { world := { world with tick := world.tick + 1 }.act (World.commandsOf commands) deltaTime
        state := { tick := world.tick + 1 } } := ⟨_, rfl⟩
  obtain ⟨fought, hfought⟩ : ∃ fought, fought = (begun.posing outside).ballistics outside :=
    ⟨_, rfl⟩
  have hfight : Fought begun.world.living begun fought := by
    rw [hfought]
    exact fought_ballistics begun outside
  have hplayers : fought.world.players = begun.world.players := by rw [hfight.world]
  have hparameters : fought.world.parameters = world.parameters := by rw [hfight.world, hbegun]; rfl
  have hmatchEnded : fought.world.matchEnded = world.matchEnded := by
    rw [hfight.world, hbegun]; rfl
  have hactions : fought.actions = [] := by rw [hfight.actions, hbegun]
  have hliving {entity : EntityId} : entity ∈ fought.world.living ↔ entity ∈ world.living := by
    rw [hfight.living_eq, hbegun]
    exact living_act
  have hstill : fought.world.Sound start := by
    intro entity player hplayer
    rw [hplayers, hbegun] at hplayer
    exact @sound_act start { world with tick := world.tick + 1 } hsound _ _ entity player hplayer
  have hharms' : Harms fought.world.parameters.ammo.damage := by rw [hparameters]; exact hharms
  have hshots : ∀ shot ∈ fought.state.shots, shot.shooter ∈ world.living := by
    intro shot hshot
    rcases hfight.shots shot hshot with hold | hnew
    · rw [hbegun] at hold; cases hold
    · exact hliving.mp (hfight.living_eq ▸ hnew)
  have hstruck : ∀ hit ∈ fought.playerHits, hit.target ∈ world.living := by
    intro hit hhit
    rcases hfight.hits hit hhit with hold | hnew
    · rw [hbegun] at hold; cases hold
    · exact hliving.mp (hfight.living_eq ▸ hnew)
  obtain ⟨damaged, hdamaged⟩ : ∃ damaged, damaged = fought.damage outside := ⟨_, rfl⟩
  obtain ⟨done, hdone⟩ : ∃ done, done = (damaged.scriptsBehaviours outside).commit outside :=
    ⟨_, rfl⟩
  have hticked : world.ticked commands deltaTime outside = (⟨done.state.ordered, done.actions⟩,
      done.world) := by
    rw [hdone, hdamaged, hfought, hbegun]
    rfl
  have hscripts : done.state.hits = damaged.state.hits ∧ done.state.deaths = damaged.state.deaths ∧
      done.state.shots = fought.state.shots ∧ done.world.players = damaged.world.players ∧
      done.world.parameters = world.parameters := by
    rcases @scriptsBehaviours_cases damaged outside with hsame | ⟨action, -, hsame⟩
    · rw [hdone, hsame, hdamaged]
      exact ⟨rfl, rfl, rfl, rfl, hparameters⟩
    · rw [hdone, hsame, hdamaged]
      exact ⟨rfl, rfl, rfl, rfl, hparameters⟩
  obtain ⟨hhits, hdeaths, hfired, hleft, hkept⟩ := hscripts
  have hafter {entity : EntityId} : entity ∈ done.world.living ↔ entity ∈ damaged.world.living := by
    rw [World.mem_living, World.mem_living, hleft]
  have hcommitted {entity : EntityId} : entity ∈ done.state.bodies.map (·.entity) ↔
      entity ∈ done.world.living := by
    rw [hdone]
    exact mem_commit
  have hdied {entity : EntityId} : entity ∈ done.state.deaths.map (·.victim) ↔
      entity ∈ world.living ∧ entity ∉ done.world.living := by
    rw [hdeaths, hafter, ← hliving, hdamaged]
    exact mem_deaths hharms' hstill
  rw [hticked]
  have hfound (entity : EntityId) : fought.world.players.lookup entity =
      (world.players.lookup entity).map fun player =>
        player.act world.collision world.rules deltaTime
          ((World.commandsOf commands).lookup entity) := by
    rw [hplayers, hbegun]
    exact lookup_act entity
  have hwounds : ∀ entity player, world.players.lookup entity = some player →
      ∃ left, done.world.players.lookup entity = some left ∧ left.Sound start ∧
        left.health.key ≤ player.health.key ∧ Ledger player.health
          (done.state.ordered.hits.filter fun hit => hit.target = entity) left.health := by
    intro entity player hplayer
    rw [State.hits_ordered, hleft, hhits, hdamaged, ← (@Player.act_sound deltaTime world.collision world.rules
      ((World.commandsOf commands).lookup entity) player).1]
    refine accounted_damage hharms' hstill ?_
    rw [hfound, hplayer]
    rfl
  refine ⟨hkept, ?_, hwounds, ?_, ?_, ?_, ?_, ?_, ?_, ?_, ?_, ?_⟩
  · intro entity hnone
    rw [hleft, hdamaged, lookup_damage, hfound, hnone]
    rfl
  · refine (done.state.perm_deaths.map _).trans ?_
    refine List.Perm.trans ?_ ((done.state.perm_hits.filter _).map _).symm
    rw [hdeaths, hhits, hdamaged, blows_damage hharms' hstill]
  · refine (done.state.perm_deaths.map _).nodup_iff.mpr ?_
    rw [hdeaths, hdamaged]
    exact (deaths_damage hharms' hstill).1
  · intro entity
    exact (done.state.perm_deaths.map _).mem_iff.trans hdied
  · intro shot hshot
    have hmem := done.state.perm_shots.mem_iff.mp hshot
    rw [hfired] at hmem
    exact hshots shot hmem
  · intro hit hhit
    have hmem := done.state.perm_hits.mem_iff.mp hhit
    rw [hhits, hdamaged] at hmem
    obtain ⟨struck, hwas, hsame⟩ := struck_damage hmem
    exact hsame ▸ hstruck struck hwas
  · intro entity
    exact (done.state.perm_bodies.map _).mem_iff.trans hcommitted
  · intro entity
    have halive : done.state.alive = done.state.bodies.map (·.entity) := by rw [hdone]; rfl
    refine done.state.perm_alive.mem_iff.trans ?_
    rw [halive]
    exact hcommitted
  · intro entity hmem
    rw [hafter, hdamaged] at hmem
    exact hliving.mp (living_damage hharms' hstill hmem)
  · rcases @scriptsBehaviours_cases damaged outside with hsame | ⟨action, hopen, hsame⟩
    · left
      rw [hdone, hsame, hdamaged]
      exact ⟨hactions, hmatchEnded⟩
    · right
      rw [hdamaged] at hopen
      refine ⟨action, ?_, hmatchEnded.symm.trans hopen, ?_⟩
      · rw [hdone, hsame, hdamaged]
        change fought.actions ++ [action] = [action]
        rw [hactions, List.nil_append]
      · rw [hdone, hsame]
        rfl

end

end Augusta.Simulation
