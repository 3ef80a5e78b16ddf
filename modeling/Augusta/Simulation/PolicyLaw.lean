import Augusta.Policy.AnswersLaw
import Augusta.Policy.Policy
import Augusta.Simulation.CombatLaw

/-! A Match and its Game policy: whatever the rules answer, the Match goes on.

      startMatch   assign_spawns ──▶ a point for each, or all in order round the points
      tick         on_tick ──▶ a Match end, or nothing
      tick         on_tick ──▶ a Match end, or nothing       once it has ended, no more asked  -/

namespace Augusta.Policy
open Scripting (Value)

/-- What the World hears of `assign_spawns` is what its answer assigns, and nothing of any other. -/
theorem spawnsDecision_eq_some {rules : Option Hooks} {view : MatchView} {spawnPoints : ℕ}
    (happart : Apart (view.players.map (·.session))) (hpoints : spawnPoints < 2 ^ 53)
    {indices : List ℕ} : spawnsDecision rules view spawnPoints = some indices ↔
      ∃ answer, spawnsAnswer rules view spawnPoints = .ok answer ∧
        Assigns answer (view.players.map (·.session)) spawnPoints indices := by
  rw [spawnsDecision, assignSpawns]
  cases spawnsAnswer rules view spawnPoints with
  | error error => simp [Except.toOption]
  | ok answer =>
    have hread := @readSpawnAssignment_eq_ok _ happart _ hpoints answer indices
    have hassigns : (∃ other, (Except.ok answer : Except Scripting.HookError Value) = .ok other ∧
        Assigns other (view.players.map (·.session)) spawnPoints indices) ↔
          Assigns answer (view.players.map (·.session)) spawnPoints indices := by
      simp
    rw [hassigns, ← hread]
    cases answer with
    | nothing => simp [Except.toOption, readSpawnAssignment]
    | _ =>
        simp only
        generalize readSpawnAssignment _ _ _ = read
        cases read with
        | error refusal => simp [Except.toOption]
        | ok found => simp [Except.toOption]

/-- What the World hears of `on_tick` is the Match end its answer is, and nothing of any other. -/
theorem tickDecision_eq_some {rules : Option Hooks} {view : MatchView} {tick : Tick}
    (huuid : ∀ session ∈ aliveSessions view, session < 2 ^ 128) {winner : Option SessionId} :
    tickDecision rules view tick = some (.matchEnd winner) ↔
      ∃ returned, tickAnswer rules view tick = .ok returned ∧
        Ends returned (aliveSessions view) winner := by
  rw [tickDecision, onTick]
  cases tickAnswer rules view tick with
  | error error => simp [Except.toOption]
  | ok returned =>
    have hread := @readTickAction_eq_ok returned _ huuid winner
    have hends : (∃ other, (Except.ok returned : Except Scripting.HookError Value) = .ok other ∧
        Ends other (aliveSessions view) winner) ↔ Ends returned (aliveSessions view) winner := by
      simp
    rw [hends, ← hread]
    simp only
    generalize readTickAction returned (aliveSessions view) = read
    cases read with
    | error refusal => simp [Except.toOption]
    | ok action => simp [Except.toOption]

end Augusta.Policy

namespace Augusta.Simulation
open Lib (Binary32 Table)
open Scripting (Value)

/-! ### Where a Match starts -/

namespace World

/-- Those that name no spawn of their own. -/
def unplaced (entrants : List Entrant) : List Entrant :=
  entrants.filter fun entrant => entrant.spawn.isNone

/-- The Match as `assign_spawns` is handed it. -/
def spawnsView (world : World) (entrants : List Entrant) : Policy.MatchView where
  playerCount := world.parameters.playerCount
  players := (unplaced entrants).map fun entrant =>
    { entity := entrant.entity, session := entrant.identity.session
      character := entrant.identity.character, alive := true
      health := world.parameters.startingHealth, killer := none }

/-- The points a Match spawns at: a Map without Spawn points has the origin. -/
def pointsOf (spawnPoints : List Math.Vec3) : List Math.Vec3 :=
  let origin : Math.Vec3 := {}
  if spawnPoints = [] then [origin] else spawnPoints

/-- A player as it enters the World. -/
def entered (world : World) (entrant : Entrant) (spawn : Math.Vec3) : Player where
  identity := entrant.identity
  clips := entrant.clips
  health := world.parameters.startingHealth
  living := some (.spawned world.rules spawn)

end World

open World (unplaced pointsOf)

/-- A Match that starts: those that name their own spawn are there, the others in their order at
    the points of `indices`, as the answer assigns them or in order round the points. -/
structure Placed (rules : Option Policy.Hooks) (world : World) (entrants : List World.Entrant)
    (spawnPoints : List Math.Vec3) (indices : List ℕ) : Prop where
  answer :
    let sessions := (unplaced entrants).map (·.identity.session)
    let answer := Policy.spawnsAnswer rules (world.spawnsView entrants) (pointsOf spawnPoints).length
    (∃ value, answer = .ok value ∧
      Policy.Assigns value sessions (pointsOf spawnPoints).length indices) ∨
    (∀ value others, answer = .ok value →
      ¬ Policy.Assigns value sessions (pointsOf spawnPoints).length others) ∧
      indices = Policy.inOrderSpawns sessions.length (pointsOf spawnPoints).length
  each : indices.length = (unplaced entrants).length
  within : ∀ index ∈ indices, index < (pointsOf spawnPoints).length
  all : (world.startMatch (Policy.spawnsDecision rules) entrants spawnPoints).2.length =
    entrants.length
  own : ∀ (i : ℕ) entrant spawn, entrants[i]? = some entrant → entrant.spawn = some spawn →
    (world.startMatch (Policy.spawnsDecision rules) entrants spawnPoints).2[i]? = some spawn
  given : ∀ (i : ℕ) entrant, entrants[i]? = some entrant → entrant.spawn = none →
    ∃ index point, indices[(unplaced (entrants.take i)).length]? = some index ∧
      (pointsOf spawnPoints)[index]? = some point ∧
      (world.startMatch (Policy.spawnsDecision rules) entrants spawnPoints).2[i]? = some point
  entered : ∀ (i : ℕ) entrant spawn, entrants[i]? = some entrant →
    (world.startMatch (Policy.spawnsDecision rules) entrants spawnPoints).2[i]? = some spawn →
    (world.startMatch (Policy.spawnsDecision rules) entrants spawnPoints).1.players.lookup
      entrant.entity = some (world.entered entrant spawn)

theorem pointsOf_pos (spawnPoints : List Math.Vec3) : 0 < (pointsOf spawnPoints).length := by
  rw [pointsOf]
  split_ifs with hnone
  · exact one_pos
  · exact List.length_pos_iff.mpr hnone

theorem inOrderSpawns_within {players spawnPoints : ℕ} (hpos : 0 < spawnPoints) :
    (Policy.inOrderSpawns players spawnPoints).length = players ∧
      ∀ index ∈ Policy.inOrderSpawns players spawnPoints, index < spawnPoints := by
  rw [Policy.inOrderSpawns]
  refine ⟨by rw [List.length_map, List.length_range], fun index hindex => ?_⟩
  obtain ⟨i, -, rfl⟩ := List.mem_map.mp hindex
  exact Nat.mod_lt i hpos

/-- Each is where it says, or at the point that is next. -/
theorem spawnsOf_spec {points : List Math.Vec3} {entrants : List World.Entrant} {indices : List ℕ}
    (hlength : indices.length = (unplaced entrants).length)
    (hwithin : ∀ index ∈ indices, index < points.length) :
    (World.spawnsOf points entrants indices).length = entrants.length ∧
    (∀ (i : ℕ) entrant spawn, entrants[i]? = some entrant → entrant.spawn = some spawn →
      (World.spawnsOf points entrants indices)[i]? = some spawn) ∧
    ∀ (i : ℕ) entrant, entrants[i]? = some entrant → entrant.spawn = none →
      ∃ index point, indices[(unplaced (entrants.take i)).length]? = some index ∧
        points[index]? = some point ∧
        (World.spawnsOf points entrants indices)[i]? = some point := by
  induction entrants generalizing indices with
  | nil => exact ⟨rfl, fun _ _ _ h => by simp at h, fun _ _ h => by simp at h⟩
  | cons entrant rest ih =>
    cases hspawn : entrant.spawn with
    | some own =>
      have hskip : unplaced (entrant :: rest) = unplaced rest := by simp [unplaced, hspawn]
      rw [hskip] at hlength
      obtain ⟨hall, howns, hgiven⟩ := ih hlength hwithin
      have hspawns : World.spawnsOf points (entrant :: rest) indices =
          own :: World.spawnsOf points rest indices := by simp [World.spawnsOf, hspawn]
      rw [hspawns]
      refine ⟨by rw [List.length_cons, List.length_cons, hall], ?_, ?_⟩
      · rintro (- | i) other spawn hother hnamed
        · rw [List.getElem?_cons_zero, Option.some.injEq] at hother
          rw [← hother, hspawn] at hnamed
          rw [List.getElem?_cons_zero, hnamed]
        · exact howns i other spawn hother hnamed
      · rintro (- | i) other hother hnone
        · rw [List.getElem?_cons_zero, Option.some.injEq] at hother
          rw [← hother, hspawn] at hnone
          cases hnone
        · have hbefore : unplaced ((entrant :: rest).take (i + 1)) = unplaced (rest.take i) := by
            simp [unplaced, hspawn]
          rw [hbefore]
          exact hgiven i other hother hnone
    | none =>
      have htake : unplaced (entrant :: rest) = entrant :: unplaced rest := by
        simp [unplaced, hspawn]
      rw [htake, List.length_cons] at hlength
      cases indices with
      | nil => simp at hlength
      | cons index others =>
        rw [List.length_cons, Nat.add_right_cancel_iff] at hlength
        obtain ⟨hall, howns, hgiven⟩ := ih hlength fun other hother =>
          hwithin other (List.mem_cons_of_mem _ hother)
        have hindex := hwithin index (List.mem_cons_self ..)
        have hspawns : World.spawnsOf points (entrant :: rest) (index :: others) =
            points[index] :: World.spawnsOf points rest others := by
          simp [World.spawnsOf, hspawn, List.getD_eq_getElem?_getD, hindex]
        rw [hspawns]
        refine ⟨by rw [List.length_cons, List.length_cons, hall], ?_, ?_⟩
        · rintro (- | i) other spawn hother hnamed
          · rw [List.getElem?_cons_zero, Option.some.injEq] at hother
            rw [← hother, hspawn] at hnamed
            cases hnamed
          · exact howns i other spawn hother hnamed
        · rintro (- | i) other hother hnone
          · exact ⟨index, points[index], rfl, List.getElem?_eq_getElem hindex, rfl⟩
          · have hbefore : unplaced ((entrant :: rest).take (i + 1)) =
                entrant :: unplaced (rest.take i) := by simp [unplaced, hspawn]
            rw [hbefore, List.length_cons, List.getElem?_cons_succ]
            exact hgiven i other hother hnone

/-- The players added, one after the other. -/
def addAll (pairs : List (World.Entrant × Math.Vec3)) (world : World) : World :=
  pairs.foldl (fun w (entrant, spawn) =>
    w.addPlayer entrant.entity spawn entrant.clips entrant.identity) world

theorem lookup_addPlayer (world : World) (entrant : World.Entrant) (spawn : Math.Vec3)
    (entity : EntityId) : (world.addPlayer entrant.entity spawn entrant.clips
        entrant.identity).players.lookup entity =
      if entity = entrant.entity ∧ world.players.lookup entity = none then
        some (world.entered entrant spawn)
      else world.players.lookup entity := by
  simp only [World.addPlayer, AList.emplace]
  split_ifs with hmem hnew hnew
  · rw [hnew.1] at hnew
    exact absurd hmem (AList.lookup_eq_none.mp hnew.2)
  · rfl
  · rw [AList.lookup_insert_eq, if_pos hnew.1]
    rfl
  · rw [AList.lookup_insert_eq]
    split_ifs with hsame
    · refine absurd ⟨hsame, AList.lookup_eq_none.mpr ?_⟩ hnew
      rw [hsame]
      exact hmem
    · rfl

/-- Who is in the World is not added again. -/
theorem lookup_addAll_of_some {pairs : List (World.Entrant × Math.Vec3)} {world : World}
    {entity : EntityId} {player : Player} (h : world.players.lookup entity = some player) :
    (addAll pairs world).players.lookup entity = some player := by
  induction pairs generalizing world with
  | nil => exact h
  | cons pair rest ih =>
    refine ih ?_
    rw [lookup_addPlayer, if_neg (by rw [h]; exact fun hnew => nomatch hnew.2), h]

/-- Each entrant is in the World as it enters. -/
theorem lookup_addAll {pairs : List (World.Entrant × Math.Vec3)} {world : World}
    (hentities : (pairs.map (·.1.entity)).Nodup)
    (hnone : ∀ pair ∈ pairs, world.players.lookup pair.1.entity = none) :
    ∀ pair ∈ pairs, (addAll pairs world).players.lookup pair.1.entity =
      some (world.entered pair.1 pair.2) := by
  induction pairs generalizing world with
  | nil => exact fun _ h => (List.not_mem_nil h).elim
  | cons first rest ih =>
    rw [List.map_cons, List.nodup_cons] at hentities
    have hhere : (world.addPlayer first.1.entity first.2 first.1.clips
        first.1.identity).players.lookup first.1.entity = some (world.entered first.1 first.2) := by
      rw [lookup_addPlayer, if_pos ⟨rfl, hnone first (List.mem_cons_self ..)⟩]
    intro pair hpair
    rcases List.mem_cons.mp hpair with rfl | hin
    · exact @lookup_addAll_of_some rest _ _ _ hhere
    · have hrest : ∀ other ∈ rest, (world.addPlayer first.1.entity first.2 first.1.clips
          first.1.identity).players.lookup other.1.entity = none := by
        intro other hother
        have hne : other.1.entity ≠ first.1.entity := fun hsame =>
          hentities.1 (hsame ▸ List.mem_map_of_mem hother)
        rw [lookup_addPlayer, if_neg fun h => hne h.1]
        exact hnone other (List.mem_cons_of_mem _ hother)
      exact ih hentities.2 hrest pair hin

/-- `startMatch`, by the points its policy places players at. -/
theorem startMatch_eq (rules : Option Policy.Hooks) (world : World) (entrants : List World.Entrant)
    (spawnPoints : List Math.Vec3) :
    ∃ indices, world.startMatch (Policy.spawnsDecision rules) entrants spawnPoints =
        (addAll (entrants.zip (World.spawnsOf (pointsOf spawnPoints) entrants indices))
          world.endMatch, World.spawnsOf (pointsOf spawnPoints) entrants indices) ∧
      indices = if (unplaced entrants).isEmpty then [] else
        (Policy.spawnsDecision rules (world.spawnsView entrants)
          (pointsOf spawnPoints).length).getD
            (Policy.inOrderSpawns (unplaced entrants).length (pointsOf spawnPoints).length) :=
  ⟨_, rfl, rfl⟩

/-- Whatever `assign_spawns` answers, a Match starts with everyone at a point there is. -/
theorem match_placed (rules : Option Policy.Hooks) (world : World) {entrants : List World.Entrant}
    (hentities : (entrants.map (·.entity)).Nodup)
    (happart : Policy.Apart ((unplaced entrants).map (·.identity.session)))
    {spawnPoints : List Math.Vec3} (hpoints : (pointsOf spawnPoints).length < 2 ^ 53) :
    ∃ indices, Placed rules world entrants spawnPoints indices := by
  obtain ⟨indices, hstart, hindices⟩ := startMatch_eq rules world entrants spawnPoints
  have hsessions : (world.spawnsView entrants).players.map (·.session) =
      (unplaced entrants).map (·.identity.session) := by
    rw [World.spawnsView, List.map_map]
    rfl
  have hdecision := fun found => @Policy.spawnsDecision_eq_some rules (world.spawnsView entrants)
    (pointsOf spawnPoints).length (by rw [hsessions]; exact happart) hpoints found
  rw [hsessions] at hdecision
  have hinOrder := @inOrderSpawns_within (unplaced entrants).length _ (pointsOf_pos spawnPoints)
  have hanswer : (∃ value,
      Policy.spawnsAnswer rules (world.spawnsView entrants) (pointsOf spawnPoints).length =
          .ok value ∧
        Policy.Assigns value ((unplaced entrants).map (·.identity.session))
          (pointsOf spawnPoints).length indices) ∨
      (∀ value others,
        Policy.spawnsAnswer rules (world.spawnsView entrants) (pointsOf spawnPoints).length =
            .ok value →
          ¬ Policy.Assigns value ((unplaced entrants).map (·.identity.session))
            (pointsOf spawnPoints).length others) ∧
      indices = Policy.inOrderSpawns (unplaced entrants).length (pointsOf spawnPoints).length := by
    cases hheard : Policy.spawnsDecision rules (world.spawnsView entrants)
        (pointsOf spawnPoints).length with
    | none =>
      refine .inr ⟨fun value others hvalue hassigns => ?_, ?_⟩
      · rw [(hdecision others).mpr ⟨value, hvalue, hassigns⟩] at hheard
        cases hheard
      · rw [hindices, hheard, Option.getD_none]
        split_ifs with hnone
        · rw [List.isEmpty_iff.mp hnone]
          rfl
        · rfl
    | some found =>
      refine .inl ?_
      obtain ⟨value, hvalue, hassigns⟩ := (hdecision found).mp hheard
      have hsame : indices = found := by
        rw [hindices, hheard, Option.getD_some]
        split_ifs with hnone
        · have hall := hassigns.all
          rw [List.isEmpty_iff.mp hnone] at hall
          exact (List.length_eq_zero_iff.mp hall).symm
        · rfl
      rw [hsame]
      exact ⟨value, hvalue, hassigns⟩
  have hbounds : indices.length = (unplaced entrants).length ∧
      ∀ index ∈ indices, index < (pointsOf spawnPoints).length := by
    rcases hanswer with ⟨value, -, hassigns⟩ | ⟨-, hsame⟩
    · exact ⟨hassigns.all.trans (List.length_map ..), hassigns.within⟩
    · rw [hsame]
      exact hinOrder
  obtain ⟨hall, howns, hgiven⟩ := spawnsOf_spec hbounds.1 hbounds.2
  refine ⟨indices, ?_, hbounds.1, hbounds.2, ?_, ?_, ?_, ?_⟩
  · simpa only [List.length_map] using hanswer
  · rw [hstart]
    exact hall
  · rw [hstart]
    exact howns
  · rw [hstart]
    exact hgiven
  · rw [hstart]
    intro i entrant spawn hentrant hspawn
    have hpair : (entrant, spawn) ∈
        entrants.zip (World.spawnsOf (pointsOf spawnPoints) entrants indices) := by
      refine List.mem_iff_getElem?.mpr ⟨i, ?_⟩
      rw [List.getElem?_zip_eq_some]
      exact ⟨hentrant, hspawn⟩
    refine lookup_addAll ?_ (fun _ _ => rfl) (entrant, spawn) hpair
    have hmap : (entrants.zip (World.spawnsOf (pointsOf spawnPoints) entrants indices)).map
        (·.1.entity) = entrants.map (·.entity) := by
      rw [← List.map_fst_zip hall.ge, List.map_map]
      rw [List.map_fst_zip hall.ge]
      rfl
    rw [hmap]
    exact hentities

/-! ### Each tick under the rules -/

/-- The same outside, with `rules` deciding. -/
def Outside.under (outside : Outside) (rules : Option Policy.Hooks) : Outside :=
  { outside with onTick := Policy.tickDecision rules }

namespace World
variable (world : World) (commands : List (EntityId × Command)) (deltaTime : Binary32)
  (outside : Outside)

/-- A tick as Game policy finds it: its combat is over. -/
def damaged : Ticking :=
  let begun : Ticking :=
    { world := { world with tick := world.tick + 1 }.act (commandsOf commands) deltaTime
      state := { tick := world.tick + 1 } }
  ((begun.posing outside).ballistics outside).damage outside

/-- The Match as `on_tick` is handed it. -/
def tickView : Policy.MatchView :=
  (world.damaged commands deltaTime outside).world.view
    (world.damaged commands deltaTime outside).state.deaths

end World

/-- What `rules` decide of a tick: a Match end where the answer is one, and nothing by any other. -/
structure Decides (rules : Option Policy.Hooks) (world : World)
    (commands : List (EntityId × Command)) (deltaTime : Binary32) (outside : Outside) : Prop where
  ends : ∀ winner,
    (world.ticked commands deltaTime (outside.under rules)).1.actions = [.matchEnd winner] ↔
      world.matchEnded = false ∧ world.players.size ≠ 0 ∧
        ∃ returned, Policy.tickAnswer rules (world.tickView commands deltaTime outside)
            (world.tick + 1) = .ok returned ∧
          Policy.Ends returned
            (Policy.aliveSessions (world.tickView commands deltaTime outside)) winner
  only : (world.ticked commands deltaTime (outside.under rules)).1.actions = [] ∨
    ∃ winner, (world.ticked commands deltaTime (outside.under rules)).1.actions = [.matchEnd winner]
  /-- Those alive are those this tick leaves alive. -/
  alive : ∀ session,
    session ∈ Policy.aliveSessions (world.tickView commands deltaTime outside) ↔
      ∃ entity ∈ (world.ticked commands deltaTime (outside.under rules)).1.state.alive, ∃ player,
        (world.ticked commands deltaTime (outside.under rules)).2.players.lookup entity =
          some player ∧ player.identity.session = session
  /-- No rules would have left the same tick, and the same World but for its Match end. -/
  state : (world.ticked commands deltaTime (outside.under rules)).1.state =
    (world.ticked commands deltaTime (outside.under none)).1.state
  after : (world.ticked commands deltaTime (outside.under rules)).2 =
    { (world.ticked commands deltaTime (outside.under none)).2 with
      matchEnded := world.matchEnded ||
        !(world.ticked commands deltaTime (outside.under rules)).1.actions.isEmpty }

/-- Every player's session is a UUID. -/
def World.Uuids (world : World) : Prop :=
  ∀ entity player, world.players.lookup entity = some player → player.identity.session < 2 ^ 128

section
variable {world : World} {commands : List (EntityId × Command)} {deltaTime : Binary32}
  {outside : Outside}

/-- A tick is its combat, then Game policy, then what it commits. -/
theorem ticked_eq (rules : Option Policy.Hooks) :
    world.ticked commands deltaTime (outside.under rules) =
      (⟨(((world.damaged commands deltaTime outside).scriptsBehaviours (outside.under rules)).commit
          outside).state.ordered,
        ((world.damaged commands deltaTime outside).scriptsBehaviours (outside.under rules)).actions⟩,
      ((world.damaged commands deltaTime outside).scriptsBehaviours (outside.under rules)).world) :=
  rfl

/-- What combat leaves for Game policy: the Match as it was, and nothing decided yet. -/
theorem damaged_kept :
    (world.damaged commands deltaTime outside).world.matchEnded = world.matchEnded ∧
      (world.damaged commands deltaTime outside).world.tick = world.tick + 1 ∧
      (world.damaged commands deltaTime outside).actions = [] ∧
      ((world.damaged commands deltaTime outside).world.players.size = 0 ↔
        world.players.size = 0) := by
  obtain ⟨begun, hbegun⟩ : ∃ begun : Ticking, begun =
      { world := { world with tick := world.tick + 1 }.act (World.commandsOf commands) deltaTime
        state := { tick := world.tick + 1 } } := ⟨_, rfl⟩
  have hfight := fought_ballistics begun outside
  have hdamaged : world.damaged commands deltaTime outside =
      ((begun.posing outside).ballistics outside).damage outside := by
    rw [hbegun]
    rfl
  rw [hdamaged]
  refine ⟨?_, ?_, ?_, ?_⟩
  · change ((begun.posing outside).ballistics outside).world.matchEnded = _
    rw [hfight.world, hbegun]
    rfl
  · change ((begun.posing outside).ballistics outside).world.tick = _
    rw [hfight.world, hbegun]
    rfl
  · change ((begun.posing outside).ballistics outside).actions = _
    rw [hfight.actions, hbegun]
  · change (((begun.posing outside).ballistics outside).world.players.mapEntries _).size = 0 ↔ _
    rw [AList.size_mapEntries, hfight.world, hbegun]
    change (world.players.mapEntries _).size = 0 ↔ _
    rw [AList.size_mapEntries]

theorem identity_act (collision : Physics.Collision) (rules : Prediction.Rules)
    (deltaTime : Binary32) (command : Option Command) (player : Player) :
    (player.act collision rules deltaTime command).identity = player.identity := by
  rw [Player.act]
  split <;> rfl

theorem identity_onDamage (damage : BodyPart.Damage) (hits : List PlayerHit) (entity : EntityId)
    (player : Player) : (player.onDamage damage hits entity).player.identity = player.identity := by
  rw [Player.onDamage]
  generalize hits.filter (fun hit => hit.target = entity) = struck
  have hall : ∀ wounded : Wounded, (struck.foldl (Wounded.takeHit damage) wounded).player.identity =
      wounded.player.identity := by
    induction struck with
    | nil => exact fun _ => rfl
    | cons hit rest ih => exact fun wounded => ih (wounded.takeHit damage hit)
  exact hall _

/-- A player is who it was, whatever a tick's combat does to it. -/
theorem lookup_damaged {entity : EntityId} {left : Player}
    (h : (world.damaged commands deltaTime outside).world.players.lookup entity = some left) :
    ∃ player, world.players.lookup entity = some player ∧ left.identity = player.identity := by
  rw [World.damaged, lookup_damage, (fought_ballistics _ outside).world] at h
  obtain ⟨acted, hacted, rfl⟩ := Option.map_eq_some_iff.mp h
  simp only at hacted
  rw [lookup_act] at hacted
  obtain ⟨player, hplayer, rfl⟩ := Option.map_eq_some_iff.mp hacted
  exact ⟨player, hplayer, by rw [identity_onDamage, identity_act]⟩

/-- The rules change nothing but whether the Match has ended. -/
theorem scriptsBehaviours_kept (ticking : Ticking) :
    (ticking.scriptsBehaviours outside).world =
        { ticking.world with matchEnded := (ticking.scriptsBehaviours outside).world.matchEnded } ∧
      (ticking.scriptsBehaviours outside).state = ticking.state := by
  rcases @scriptsBehaviours_cases ticking outside with hsame | ⟨action, -, hsame⟩
  · rw [hsame]
    exact ⟨rfl, rfl⟩
  · rw [hsame]
    exact ⟨rfl, rfl⟩

theorem mem_aliveSessions {world : World} {deaths : List Death} {session : SessionId} :
    session ∈ Policy.aliveSessions (world.view deaths) ↔
      ∃ entity ∈ world.living, ∃ player, world.players.lookup entity = some player ∧
        player.identity.session = session := by
  simp only [Policy.aliveSessions, World.view, List.mem_map, List.mem_filter, World.mem_living]
  constructor
  · rintro ⟨view, ⟨⟨⟨entity, player⟩, hentry, rfl⟩, halive⟩, hsession⟩
    have hplayer := AList.mem_lookup_iff.mpr hentry
    exact ⟨entity, ⟨player, hplayer, halive⟩, player, hplayer, hsession⟩
  · rintro ⟨entity, ⟨living, hliving, halive⟩, player, hplayer, hsession⟩
    rw [hliving] at hplayer
    obtain rfl := Option.some.inj hplayer
    exact ⟨_, ⟨⟨⟨entity, living⟩, AList.mem_lookup_iff.mp hliving, rfl⟩, halive⟩, hsession⟩

/-- Game policy ends a Match that has players and has not ended, or nothing changes. -/
theorem scriptsBehaviours_under (ticking : Ticking) (outside : Outside)
    (rules : Option Policy.Hooks) :
    (∃ winner, (ticking.world.matchEnded = false ∧ ticking.world.players.size ≠ 0 ∧
        Policy.tickDecision rules (ticking.world.view ticking.state.deaths) ticking.world.tick =
          some (.matchEnd winner)) ∧
      ticking.scriptsBehaviours (outside.under rules) =
        { ticking with
          actions := ticking.actions ++ [.matchEnd winner]
          world := { ticking.world with matchEnded := true } }) ∨
    ticking.scriptsBehaviours (outside.under rules) = ticking ∧
      ∀ winner, ¬ (ticking.world.matchEnded = false ∧ ticking.world.players.size ≠ 0 ∧
        Policy.tickDecision rules (ticking.world.view ticking.state.deaths) ticking.world.tick =
          some (.matchEnd winner)) := by
  rw [Ticking.scriptsBehaviours]
  split_ifs with hquiet
  · refine .inr ⟨rfl, fun winner hasked => ?_⟩
    rcases hquiet with hnone | hended
    · exact hasked.2.1 hnone
    · rw [hended] at hasked
      cases hasked.1
  · rw [not_or, Bool.not_eq_true] at hquiet
    have hasked : (outside.under rules).onTick = Policy.tickDecision rules := rfl
    rw [hasked]
    cases hdecision : Policy.tickDecision rules (ticking.world.view ticking.state.deaths)
        ticking.world.tick with
    | none => exact .inr ⟨rfl, by simp⟩
    | some action =>
      cases action with
      | matchEnd winner => exact .inl ⟨winner, ⟨hquiet.2, hquiet.1, rfl⟩, rfl⟩

/-- Without rules there is no one to ask. -/
theorem scriptsBehaviours_silent (ticking : Ticking) (outside : Outside) :
    ticking.scriptsBehaviours (outside.under none) = ticking := by
  rcases scriptsBehaviours_under ticking outside none with ⟨_, ⟨-, -, hdecision⟩, -⟩ | ⟨hsame, -⟩
  · exact nomatch hdecision
  · exact hsame

/-- Those a tick tells of as alive are those its combat left so. -/
theorem mem_ticked_alive {rules : Option Policy.Hooks} {entity : EntityId} :
    entity ∈ (world.ticked commands deltaTime (outside.under rules)).1.state.alive ↔
      entity ∈ (world.damaged commands deltaTime outside).world.living := by
  rw [ticked_eq, (State.perm_alive _).mem_iff]
  refine (@mem_commit _ outside entity).trans ?_
  rw [(scriptsBehaviours_kept _).1]
  rfl

/-- What a Match is asked, as its combat left it, is what it is asked of the whole tick. -/
theorem asked_iff (huuids : world.Uuids) (rules : Option Policy.Hooks)
    (winner : Option SessionId) :
    ((world.damaged commands deltaTime outside).world.matchEnded = false ∧
      (world.damaged commands deltaTime outside).world.players.size ≠ 0 ∧
      Policy.tickDecision rules (world.tickView commands deltaTime outside)
        (world.damaged commands deltaTime outside).world.tick = some (.matchEnd winner)) ↔
    world.matchEnded = false ∧ world.players.size ≠ 0 ∧
      ∃ returned, Policy.tickAnswer rules (world.tickView commands deltaTime outside)
          (world.tick + 1) = .ok returned ∧
        Policy.Ends returned
          (Policy.aliveSessions (world.tickView commands deltaTime outside)) winner := by
  obtain ⟨hended, htick, -, hsize⟩ := @damaged_kept world commands deltaTime outside
  have hsessions : ∀ session ∈ Policy.aliveSessions (world.tickView commands deltaTime outside),
      session < 2 ^ 128 := by
    intro session halive
    obtain ⟨entity, -, left, hleft, rfl⟩ := mem_aliveSessions.mp halive
    obtain ⟨player, hplayer, hsame⟩ := lookup_damaged hleft
    rw [hsame]
    exact huuids entity player hplayer
  rw [hended, htick, ne_eq, hsize, Policy.tickDecision_eq_some hsessions]

/-- Every tick decides what its rules answer, and no more. -/
theorem tick_decides (huuids : world.Uuids) (rules : Option Policy.Hooks) :
    Decides rules world commands deltaTime outside := by
  obtain ⟨hended, -, hactions, -⟩ := @damaged_kept world commands deltaTime outside
  have hasked := @asked_iff world commands deltaTime outside huuids rules
  have hstate : (world.ticked commands deltaTime (outside.under rules)).1.state =
      (world.ticked commands deltaTime (outside.under none)).1.state := by
    rw [ticked_eq, ticked_eq, scriptsBehaviours_silent]
    simp only [Ticking.commit, (scriptsBehaviours_kept _).2]
    rw [(scriptsBehaviours_kept _).1]
  have halive : ∀ session,
      session ∈ Policy.aliveSessions (world.tickView commands deltaTime outside) ↔
        ∃ entity ∈ (world.ticked commands deltaTime (outside.under rules)).1.state.alive, ∃ player,
          (world.ticked commands deltaTime (outside.under rules)).2.players.lookup entity =
            some player ∧ player.identity.session = session := by
    intro session
    simp only [World.tickView, mem_aliveSessions, mem_ticked_alive]
    rw [ticked_eq, (scriptsBehaviours_kept _).1]
  rcases scriptsBehaviours_under (world.damaged commands deltaTime outside) outside rules with
    ⟨winner, hends, hafter⟩ | ⟨hsame, hnone⟩
  · have hsaid : (world.ticked commands deltaTime (outside.under rules)).1.actions =
        [.matchEnd winner] := by
      rw [ticked_eq, hafter, hactions]
      rfl
    refine ⟨fun other => ?_, .inr ⟨winner, hsaid⟩, halive, hstate, ?_⟩
    · rw [← hasked other, hsaid]
      constructor
      · intro hother
        cases hother
        exact hends
      · rintro ⟨-, -, hother⟩
        cases hends.2.2.symm.trans hother
        rfl
    · rw [hsaid, ticked_eq, ticked_eq, hafter, scriptsBehaviours_silent, List.isEmpty_cons,
        Bool.not_false, Bool.or_true]
  · have hsaid : (world.ticked commands deltaTime (outside.under rules)).1.actions = [] := by
      rw [ticked_eq, hsame, hactions]
    refine ⟨fun other => ?_, .inl hsaid, halive, hstate, ?_⟩
    · rw [← hasked other, hsaid]
      exact ⟨nofun, fun hother => (hnone other hother).elim⟩
    · rw [hsaid, ticked_eq, ticked_eq, hsame, scriptsBehaviours_silent, List.isEmpty_nil,
        Bool.not_true, Bool.or_false, ← hended]

theorem uuids_ticked (huuids : world.Uuids) (rules : Option Policy.Hooks) :
    (world.ticked commands deltaTime (outside.under rules)).2.Uuids := by
  intro entity left hleft
  rw [ticked_eq, (scriptsBehaviours_kept _).1] at hleft
  obtain ⟨player, hplayer, hsame⟩ := lookup_damaged hleft
  rw [hsame]
  exact huuids entity player hplayer

end

/-! ### A whole Match -/

/-- What happens in a Match, its rules answering a tick as they will. -/
inductive RuledEvent
  | tick (commands : List (EntityId × Command)) (deltaTime : Binary32) (outside : Outside)
      (rules : Option Policy.Hooks)
  | removePlayer (entity : EntityId)

def RuledEvent.worldEvent : RuledEvent → WorldEvent
  | .tick commands deltaTime outside rules => .tick commands deltaTime (outside.under rules)
  | .removePlayer entity => .removePlayer entity

/-- What holds after any run under the rules: the Match has ended by their one action, or goes on. -/
structure Recorded.Ruled (recorded : Recorded) : Prop where
  uuids : recorded.world.Uuids
  once : recorded.actions = [] ∨
    recorded.world.matchEnded = true ∧ ∃ action, recorded.actions = [action]

theorem ruled_step {recorded : Recorded} (h : recorded.Ruled) (event : RuledEvent) :
    (recorded.step event.worldEvent).Ruled := by
  cases event with
  | tick commands deltaTime outside rules =>
    refine ⟨uuids_ticked h.uuids rules, ?_⟩
    have hdecides := @tick_decides recorded.world commands deltaTime outside h.uuids rules
    have hactions : (recorded.step (RuledEvent.tick commands deltaTime outside rules).worldEvent).actions =
        recorded.actions ++
          (recorded.world.ticked commands deltaTime (outside.under rules)).1.actions := by
      simp [Recorded.step, RuledEvent.worldEvent, Recorded.actions]
    have hafter : (recorded.step
        (RuledEvent.tick commands deltaTime outside rules).worldEvent).world.matchEnded =
        (recorded.world.matchEnded ||
          !(recorded.world.ticked commands deltaTime (outside.under rules)).1.actions.isEmpty) :=
      congrArg World.matchEnded hdecides.after
    rcases hdecides.only with hquiet | ⟨winner, hends⟩
    · rw [hactions, hafter, hquiet, List.append_nil, List.isEmpty_nil, Bool.not_true, Bool.or_false]
      exact h.once
    · -- It was asked, so it had not ended.
      have hopen := ((hdecides.ends winner).mp hends).1
      rcases h.once with hnone | ⟨hended, -⟩
      · rw [hactions, hafter, hends, hnone]
        exact .inr ⟨by rw [List.isEmpty_cons, Bool.not_false, Bool.or_true], _, rfl⟩
      · rw [hended] at hopen
        cases hopen
  | removePlayer entity =>
    refine ⟨fun other player hplayer => ?_, h.once⟩
    change (recorded.world.removePlayer entity).players.lookup other = some player at hplayer
    rw [World.removePlayer, AList.lookup_erase_eq] at hplayer
    split at hplayer
    · cases hplayer
    · exact h.uuids other player hplayer

theorem ruled_run {recorded : Recorded} (h : recorded.Ruled) (events : List RuledEvent) :
    (recorded.run (events.map (·.worldEvent))).Ruled := by
  induction events generalizing recorded with
  | nil => exact h
  | cons event rest ih => exact ih (ruled_step h event)

/-- Whoever is in a Match that starts is one of its entrants. -/
theorem uuids_addAll {pairs : List (World.Entrant × Math.Vec3)} {world : World}
    (hworld : world.Uuids) (hpairs : ∀ pair ∈ pairs, pair.1.identity.session < 2 ^ 128) :
    (addAll pairs world).Uuids := by
  induction pairs generalizing world with
  | nil => exact hworld
  | cons pair rest ih =>
    refine ih (fun entity player hplayer => ?_) fun other hother =>
      hpairs other (List.mem_cons_of_mem _ hother)
    rw [lookup_addPlayer] at hplayer
    split_ifs at hplayer with hnew
    · rw [← Option.some.inj hplayer]
      exact hpairs pair (List.mem_cons_self ..)
    · exact hworld entity player hplayer

/-- CORRECT: whatever the rules answer, a Match starts with each player at its own spawn or at a
    Spawn point there is, and ends at most once, on the tick they return a draw or a living player's
    win; every other answer leaves the Match as no rules would. -/
theorem match_goes_on (rules : Option Policy.Hooks) (world : World) {entrants : List World.Entrant}
    (hentities : (entrants.map (·.entity)).Nodup)
    (hsessions : Policy.Apart (entrants.map (·.identity.session)))
    {spawnPoints : List Math.Vec3} (hpoints : spawnPoints.length < 2 ^ 53) :
    (∃ indices, Placed rules world entrants spawnPoints indices) ∧
    ∀ events : List RuledEvent,
      let recorded := (Recorded.mk
        (world.startMatch (Policy.spawnsDecision rules) entrants spawnPoints).1 []).run
          (events.map (·.worldEvent))
      recorded.actions.length ≤ 1 ∧
      ∀ commands deltaTime outside rules,
        Decides rules recorded.world commands deltaTime outside := by
  have hunplaced : ((unplaced entrants).map (·.identity.session)).Sublist
      (entrants.map (·.identity.session)) := List.filter_sublist.map _
  have hapart : Policy.Apart ((unplaced entrants).map (·.identity.session)) :=
    ⟨hsessions.nodup.sublist hunplaced, fun session hin =>
      hsessions.uuid session (hunplaced.subset hin)⟩
  have hcount : (pointsOf spawnPoints).length < 2 ^ 53 := by
    rw [pointsOf]
    split_ifs with hnone
    · decide
    · exact hpoints
  refine ⟨match_placed rules world hentities hapart hcount, fun events => ?_⟩
  obtain ⟨indices, hstart, -⟩ := startMatch_eq rules world entrants spawnPoints
  have hbegun : (Recorded.mk
      (world.startMatch (Policy.spawnsDecision rules) entrants spawnPoints).1 []).Ruled := by
    refine ⟨?_, .inl rfl⟩
    rw [hstart]
    refine uuids_addAll (fun _ _ h => nomatch h) fun pair hpair => ?_
    exact hsessions.uuid _ (List.mem_map_of_mem (List.of_mem_zip hpair).1)
  have hruled := ruled_run hbegun events
  refine ⟨?_, fun commands deltaTime outside rules => tick_decides hruled.uuids rules⟩
  rcases hruled.once with hnone | ⟨-, action, hone⟩
  · rw [hnone]
    exact Nat.zero_le _
  · rw [hone]
    exact Nat.le_refl _

/-- Three players, the second at a spawn of its own. -/
def trio : List World.Entrant :=
  [(1, none), (2, some {}), (3, none)].map fun (entity, spawn) =>
    { entity, identity := { session := 10 + entity.toNat }, spawn
      clips := { strideLength := fun _ _ _ => .one, transitions := {} } }

/-- Two Spawn points, a metre either side of the origin. -/
def twoPoints : List Math.Vec3 := [{ x := .one }, { x := ⟨0xBF800000⟩ }]

/-- Rules that put the third player first, and have the first win. -/
def trioRules : Policy.Hooks := fun hook _ =>
  if hook = Policy.kAssignSpawns then .ok (.list [Policy.entryOf 13 0, Policy.entryOf 11 1])
  else .ok (.record [(Policy.kWinner, .string (Policy.sessionText 11))])

theorem match_goes_on_trio :
    (duelWorld.startMatch (Policy.spawnsDecision (some trioRules)) trio twoPoints).2 =
        [{ x := ⟨0xBF800000⟩ }, {}, { x := .one }] ∧
      ((Recorded.mk
        (duelWorld.startMatch (Policy.spawnsDecision (some trioRules)) trio twoPoints).1 []).run
          ([RuledEvent.tick [] ⟨0x3C888889⟩ duelGround (some trioRules),
            .tick [] ⟨0x3C888889⟩ duelGround (some trioRules)].map (·.worldEvent))).actions =
        [.matchEnd (some 11)] ∧
      ∃ indices, Placed (some trioRules) duelWorld trio twoPoints indices := by
  have h := @match_goes_on (some trioRules) duelWorld trio (by decide) ⟨by decide, by decide⟩
    twoPoints (by decide)
  exact ⟨by decide +kernel, by decide +kernel, h.1⟩

end Augusta.Simulation
