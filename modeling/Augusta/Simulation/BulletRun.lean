import Augusta.Lib.Run
import Augusta.Simulation.BulletLaw
import Augusta.Simulation.CombatLaw

/-! Every round fired, over the life of a World.

      startMatch ─▶ tick … tick ─▶ endMatch ─▶ startMatch ─▶ …      removePlayer between any two
      fired      ~  ended ++ in flight                              of the Match under way

    A tick at a rate there is lasts at most 5 s of Steps, a Match at most 255 players: handles wrap
    long after the bullets they were given to have ended. -/

namespace Augusta.Simulation
open Lib (Binary32 Table age)
open Ballistics (BulletHandle maxFlightStepsOf tickSeconds)

section
variable {Body : Type} {surroundings : Surroundings Body} {limit players : ℕ}

/-! ### Posing and the bullets already in flight -/

/-- The bullets there were are as they were, and a fired one has flown no Step. -/
structure Added (start now : Underway Body) : Prop where
  kept : ∀ handle ∈ start.ballistics.bullets,
    now.ballistics.bullets.lookup handle = start.ballistics.bullets.lookup handle
  fresh : ∀ bullet ∈ now.announced.filterMap (·.bullet),
    stepsOf now.ballistics bullet.handle = some 0

theorem added_onPosing {start now : Underway Body} {fired : ℕ} (h : Added start now)
    (hstocked : Stocked limit players fired now.tracked now.ballistics)
    (hold : ∀ handle ∈ start.ballistics.bullets, handle ∈ now.ballistics.bullets)
    (entity : EntityId) : Added start (now.onPosing surroundings entity) ∧
      ∀ handle ∈ start.ballistics.bullets,
        handle ∈ (now.onPosing surroundings entity).ballistics.bullets := by
  rw [Underway.onPosing]
  cases now.ticking.world.firing entity with
  | none => exact ⟨h, hold⟩
  | some round =>
      cases hbarrel : surroundings.outside.barrel entity round with
      | inTheMap origin yaw pitch entry =>
          simp only [hbarrel]
          refine ⟨⟨h.kept, ?_⟩, hold⟩
          intro bullet hbullet
          simp only [Underway.fireIntoTheMap, List.filterMap_append] at hbullet
          rcases List.mem_append.mp hbullet with hearlier | hnone
          · exact h.fresh bullet hearlier
          · cases hnone
      | clear origin yaw pitch =>
          simp only [hbarrel]
          have hunused := hstocked.next_unused
          have hbullets (body : Body) : (now.ballistics.fire body).2.bullets =
              now.ballistics.bullets.insert now.ballistics.nextHandle { body } := by
            rw [Ballistics.World.fire, AList.emplace, if_neg hunused]
          have hsame {handle : BulletHandle} (hin : handle ∈ now.ballistics.bullets) (body : Body) :
              (now.ballistics.fire body).2.bullets.lookup handle =
                now.ballistics.bullets.lookup handle := by
            rw [hbullets, AList.lookup_insert_ne]
            rintro rfl
            exact hunused hin
          refine ⟨⟨?_, ?_⟩, ?_⟩
          · intro handle hin
            exact (hsame (hold handle hin) _).trans (h.kept handle hin)
          · intro bullet hbullet
            simp only [Underway.fire, List.filterMap_append] at hbullet
            rcases List.mem_append.mp hbullet with hearlier | hnew
            · have hsteps := h.fresh bullet hearlier
              have hin : bullet.handle ∈ now.ballistics.bullets := by
                obtain ⟨held, hheld, -⟩ := Option.map_eq_some_iff.mp hsteps
                exact AList.mem_iff_lookup.mpr ⟨held, hheld⟩
              exact (congrArg (Option.map _) (hsame hin _)).trans hsteps
            · obtain rfl := List.mem_singleton.mp hnew
              simp only [Underway.fire, stepsOf, hbullets]
              exact congrArg (Option.map (·.steps)) (AList.lookup_insert now.ballistics.bullets)
          · intro handle hin
            simp only [Underway.fire, hbullets]
            exact (AList.mem_insert _).mpr (.inr (hold handle hin))

theorem added_foldl {start : Underway Body} (hannounced : start.announced = [])
    (hstocked : Stocked limit players 0 start.tracked start.ballistics) (hlimit : 0 < limit)
    (hroom : limit * players < 2 ^ 32) (entities : List EntityId)
    (hentities : entities.length ≤ players) :
    Added start
        (entities.foldl (fun underway entity => underway.onPosing surroundings entity) start) ∧
      ∀ handle ∈ start.ballistics.bullets, handle ∈
        (entities.foldl (fun underway entity => underway.onPosing surroundings entity)
          start).ballistics.bullets := by
  induction entities using List.reverseRecOn with
  | nil =>
      refine ⟨⟨fun handle _ => rfl, ?_⟩, fun handle h => h⟩
      intro bullet hbullet
      rw [List.foldl_nil, hannounced] at hbullet
      cases hbullet
  | append_singleton entities entity ih =>
      rw [List.length_append, List.length_singleton] at hentities
      obtain ⟨hadded, hold⟩ := ih (by omega)
      rw [List.foldl_append, List.foldl_cons, List.foldl_nil]
      have hstill := (@posed_foldl Body surroundings limit players start hannounced hstocked hlimit
        hroom entities (by omega)).2
      exact added_onPosing hadded hstill hold entity

/-! ### One tick -/

/-- Posing the World's players. -/
theorem posed_posing {start : Underway Body} (hannounced : start.announced = [])
    (hstocked : Stocked limit players 0 start.tracked start.ballistics) (hlimit : 0 < limit)
    (hroom : limit * players < 2 ^ 32) (hplayers : start.ticking.world.players.size ≤ players) :
    Posed start (surroundings.outside.order .posing start.ticking.world.players.keys)
        (start.posing surroundings) ∧
      Stocked limit players players (start.posing surroundings).tracked
        (start.posing surroundings).ballistics ∧
      Added start (start.posing surroundings) := by
  have hlength : (surroundings.outside.order .posing start.ticking.world.players.keys).length ≤
      players := by
    rw [(surroundings.outside.order_perm ..).length_eq, AList.length_keys]
    exact hplayers
  obtain ⟨hposed, hstill⟩ := @posed_foldl Body surroundings limit players start hannounced hstocked
    hlimit hroom _ hlength
  exact ⟨hposed, hstill.mono hlength,
    (added_foldl hannounced hstocked hlimit hroom _ hlength).1⟩

/-- Every entity's Step: none is missing its handle. -/
theorem landed_ballisticsPhase {posed : Underway Body} (hflown : posed.flown = [])
    (hstocked : Stocked limit players players posed.tracked posed.ballistics) :
    ∃ after, posed.ballisticsPhase surroundings limit = some after ∧
      Landed limit players posed [] after ∧
      (after.flown.map (·.bullet)).Perm posed.tracked := by
  have horder := surroundings.entityOrder_perm posed.tracked
  have hbegun : Landed limit players posed (surroundings.entityOrder posed.tracked)
      { posed with tracked := [] } := by
    refine ⟨?_, rfl, fun _ _ => rfl, ?_, ?_, rfl, ?_, ?_, ?_⟩
    · rw [List.append_nil]
      exact (horder.map _).trans hstocked.handles
    · intro bullet hbullet
      cases hbullet
    · simp [hflown]
    · simp [hflown]
    · simp [hflown]
    · simp [hflown]
  obtain ⟨after, hafter, hlanded, hlog⟩ := @landed_foldlM Body surroundings limit players posed
    (surroundings.entityOrder posed.tracked) _ hstocked hbegun
  refine ⟨after, hafter, hlanded, ?_⟩
  rw [hlog, hflown]
  exact horder

theorem Landed.stocked {posed after : Underway Body} (h : Landed limit players posed [] after) :
    Stocked limit players 0 after.tracked after.ballistics := by
  refine ⟨h.handles, fun handle held hheld => ?_⟩
  have hin : handle ∈ after.tracked.map (·.handle) :=
    h.handles.mem_iff.mpr (AList.mem_iff_lookup.mpr ⟨held, hheld⟩)
  obtain ⟨bullet, hbullet, rfl⟩ := List.mem_map.mp hin
  rw [h.next]
  exact h.young bullet hbullet held hheld

/-- After the bullets, a tick says no more of Shots, Map impacts or how many are in flight. -/
theorem commit_frame (ticking : Ticking) (outside : Outside) :
    let done := ((ticking.damage outside).scriptsBehaviours outside).commit outside
    done.state.shots = ticking.state.shots ∧ done.state.mapImpacts = ticking.state.mapImpacts ∧
      done.state.bulletsInFlight = ticking.state.bulletsInFlight ∧
      done.state.hits = (ticking.damage outside).state.hits ∧
      done.world.parameters = ticking.world.parameters ∧
      done.world.players.keys = ticking.world.players.keys := by
  intro done
  have hkeys : (ticking.damage outside).world.players.keys = ticking.world.players.keys :=
    AList.keys_mapEntries ..
  rcases @scriptsBehaviours_cases (ticking.damage outside) outside with hquiet | ⟨action, -, hended⟩
  · simp only [done, hquiet]
    exact ⟨rfl, rfl, rfl, rfl, rfl, hkeys⟩
  · simp only [done, hended]
    exact ⟨rfl, rfl, rfl, rfl, rfl, hkeys⟩

/-- One tick's books, and stores that are as they should be for the next. -/
theorem books_ticked {world : StoredWorld Body} (commands : List (EntityId × Command))
    {deltaTime : Binary32} (surroundings : Surroundings Body)
    (hstocked : Stocked (maxFlightStepsOf deltaTime) players 0 world.tracked world.ballistics)
    (hlimit : 0 < maxFlightStepsOf deltaTime)
    (hroom : maxFlightStepsOf deltaTime * players < 2 ^ 32)
    (hplayers : world.core.players.size ≤ players) :
    ∃ result report after, world.ticked commands deltaTime surroundings =
        some (result, report, after) ∧
      Books (maxFlightStepsOf deltaTime) world result report after ∧
      Stocked (maxFlightStepsOf deltaTime) players 0 after.tracked after.ballistics ∧
      after.core.players.size ≤ players := by
  obtain ⟨acted, hacted⟩ : ∃ acted, acted =
      { world.core with tick := world.core.tick + 1 }.act (World.commandsOf commands) deltaTime :=
    ⟨_, rfl⟩
  have hkeys : acted.players.keys = world.core.players.keys := by
    rw [hacted]
    exact AList.keys_mapEntries ..
  have hsize : acted.players.size = world.core.players.size := by
    rw [← AList.length_keys, hkeys, AList.length_keys]
  have hliving (entity : EntityId) : entity ∈ acted.living ↔ entity ∈ world.core.living := by
    rw [hacted, living_act]
    rfl
  obtain ⟨begun, hbegun⟩ : ∃ begun : Underway Body, begun =
      { ticking := { world := acted, state := { tick := world.core.tick + 1 } }
        tracked := world.tracked
        ballistics := world.ballistics } := ⟨_, rfl⟩
  obtain ⟨hposed, hstill, hadded⟩ := @posed_posing Body surroundings (maxFlightStepsOf deltaTime)
    players begun (by rw [hbegun]) (by rw [hbegun]; exact hstocked) hlimit hroom
    (by rw [hbegun]; exact hsize.le.trans hplayers)
  obtain ⟨flown, hflown, hlanded, hlog⟩ := @landed_ballisticsPhase Body surroundings
    (maxFlightStepsOf deltaTime) players (begun.posing surroundings)
    (by rw [hposed.flown, hbegun]) hstill
  obtain ⟨done, hdone⟩ : ∃ done, done = ((flown.ticking.damage surroundings.outside).scriptsBehaviours
      surroundings.outside).commit surroundings.outside := ⟨_, rfl⟩
  have hticked : world.ticked commands deltaTime surroundings =
      some (⟨done.state.ordered, done.actions⟩, ⟨flown.announced, flown.flown⟩,
        ⟨done.world, flown.tracked, flown.ballistics⟩) := by
    simp only [StoredWorld.ticked, Option.bind_eq_bind]
    rw [← hacted, ← hbegun, hflown, Option.bind_some, ← hdone]
  obtain ⟨hshots, himpacts, hinFlight, hhits, -, hsame⟩ :=
    commit_frame flown.ticking surroundings.outside
  rw [← hdone] at hshots himpacts hinFlight hhits hsame
  have hticking : flown.ticking = { (begun.posing surroundings).ticking with
      state := { (begun.posing surroundings).ticking.state with
        mapImpacts := (begun.posing surroundings).ticking.state.mapImpacts ++
          flown.flown.filterMap (·.mapPoint)
        bulletsInFlight := (begun.posing surroundings).ticking.state.bulletsInFlight +
          (flown.flown.filter (·.inFlight)).length }
      playerHits := (begun.posing surroundings).ticking.playerHits ++
        flown.flown.filterMap (·.playerHit) } := by
    rw [hlanded.ticking, land_foldl]
  have hworld : flown.ticking.world = acted := by
    rw [hticking, hposed.ticking, hbegun]
  have hstruck : flown.ticking.playerHits = flown.flown.filterMap (·.playerHit) := by
    rw [hticking, hposed.ticking, hbegun]
    rfl
  have htracked : (begun.posing surroundings).tracked =
      world.tracked ++ flown.announced.filterMap (·.bullet) := by
    rw [hposed.tracked, hlanded.announced, hbegun]
  have htargets (shooter : EntityId) : (begun.posing surroundings).ticking.world.targets shooter =
      acted.targets shooter := by
    rw [hposed.ticking, hbegun]
  refine ⟨_, _, _, hticked, ?_, hlanded.stocked, ?_⟩
  · refine ⟨?_, ?_, ⟨?_, ?_⟩, ?_, hlanded.tracked, ?_, ?_, ?_, ?_, ?_⟩
    · refine (State.perm_shots _).trans (List.Perm.of_eq ?_)
      rw [hshots, hticking, hposed.ticking, hlanded.announced, hbegun]
      rfl
    · refine himpacts.trans ?_
      rw [hticking, hposed.ticking, hlanded.announced, hbegun]
      rfl
    · rw [hlanded.announced]
      exact hposed.shooters.nodup (order_nodup ..)
    · intro announced hannounced
      rw [hlanded.announced] at hannounced
      have halive := hposed.living announced hannounced
      rw [hbegun] at halive
      exact (hliving _).mp halive
    · exact hlog.trans (List.Perm.of_eq htracked)
    · refine hinFlight.trans ?_
      rw [hticking, hposed.ticking, hbegun, hlanded.tracked, List.length_map]
      exact Nat.zero_add _
    · intro one hone
      obtain ⟨hfirst, hlast, hbefore, hafter⟩ := hlanded.steps one hone
      refine ⟨hfirst, hlast, ?_, hafter⟩
      have hin : one.bullet ∈ (begun.posing surroundings).tracked :=
        hlog.mem_iff.mp (List.mem_map_of_mem hone)
      rw [htracked] at hin
      rcases List.mem_append.mp hin with hold | hnew
      · refine .inl ⟨hold, ?_⟩
        have hheld : one.bullet.handle ∈ world.ballistics.bullets :=
          AList.mem_keys.mpr (hstocked.handles.mem_iff.mp (List.mem_map_of_mem hold))
        have hkept := hadded.kept one.bullet.handle (by rw [hbegun]; exact hheld)
        rw [stepsOf, hkept, hbegun] at hbefore
        exact hbefore
      · refine .inr ⟨hnew, ?_⟩
        have hfresh := hadded.fresh one.bullet (by rw [← hlanded.announced]; exact hnew)
        rw [hfresh] at hbefore
        have := Option.some.inj hbefore
        omega
    · intro one hone hit hhit
      have hmem := hlanded.struck one hone hit hhit
      rw [htargets] at hmem
      obtain ⟨hin, hother⟩ := List.mem_filter.mp hmem
      exact ⟨of_decide_eq_true hother, (hliving _).mp hin⟩
    · intro entity player hplayer
      obtain ⟨moved, hmoved, hhealth⟩ : ∃ moved, acted.players.lookup entity = some moved ∧
          moved.health = player.health := by
        refine ⟨_, by rw [hacted, lookup_act]; exact congrArg _ hplayer, Player.act_sound.1⟩
      rw [State.hits_ordered, hhits, hits_damage (by rw [hworld]; exact hmoved), hworld, hstruck,
        ← hhealth]
      have hparameters : acted.parameters = world.core.parameters := by rw [hacted]; rfl
      rw [hparameters]
      exact taken_onDamage _ _ _ _
    · intro entity hnone
      have hmoved : acted.players.lookup entity = none := by
        rw [hacted, lookup_act]
        exact congrArg _ hnone
      rw [State.hits_ordered, hhits]
      exact hits_damage_none (by rw [hworld]; exact hmoved)
  · rw [← AList.length_keys, hsame, hworld, AList.length_keys, hsize]
    exact hplayers

end

/-! ### Matches -/

theorem size_addPlayer_le (world : World) (entity : EntityId) (spawn : Math.Vec3)
    (clips : Prediction.Clips) (identity : PlayerIdentity) :
    (world.addPlayer entity spawn clips identity).players.size ≤ world.players.size + 1 := by
  rw [World.addPlayer, AList.emplace]
  split_ifs with hin
  · exact Nat.le_succ _
  · exact (AList.size_insert hin _).le

theorem size_startMatch_le (world : World) (assigns : Policy.MatchView → ℕ → Option (List ℕ))
    (entrants : List World.Entrant) (spawnPoints : List Math.Vec3) :
    (world.startMatch assigns entrants spawnPoints).1.players.size ≤ entrants.length := by
  have hadd : ∀ (added : List (World.Entrant × Math.Vec3)) (begun : World),
      (added.foldl (fun w entry => w.addPlayer entry.1.entity entry.2 entry.1.clips
        entry.1.identity) begun).players.size ≤ begun.players.size + added.length := by
    intro added
    induction added with
    | nil => exact fun begun => Nat.le_refl _
    | cons entry rest ih =>
        intro begun
        have hone := size_addPlayer_le begun entry.1.entity entry.2 entry.1.clips entry.1.identity
        have hrest := ih (begun.addPlayer entry.1.entity entry.2 entry.1.clips entry.1.identity)
        rw [List.foldl_cons, List.length_cons]
        omega
  rw [World.startMatch]
  refine (hadd _ _).trans ?_
  rw [List.length_zip]
  exact (Nat.zero_add _).le.trans (Nat.min_le_left _ _)

theorem size_removePlayer_le (world : World) (entity : EntityId) :
    (world.removePlayer entity).players.size ≤ world.players.size :=
  AList.size_erase_le ..

/-! ### Runs -/

/-- What can be done to a World, with what is outside it at the time. -/
inductive StoredEvent (Body : Type)
  | tick (commands : List (EntityId × Command)) (surroundings : Surroundings Body)
  | removePlayer (entity : EntityId)
  | startMatch (assigns : Policy.MatchView → ℕ → Option (List ℕ)) (entrants : List World.Entrant)
      (spawnPoints : List Math.Vec3)
  | endMatch

/-- How many it brings into a Match. -/
def StoredEvent.entrants {Body : Type} : StoredEvent Body → ℕ
  | .startMatch _ entrants _ => entrants.length
  | _ => 0

structure BulletTick (Body : Type) where
  before : StoredWorld Body
  result : TickResult
  report : Report
  after : StoredWorld Body

/-- The bullets that flew on no more. -/
def BulletTick.ended {Body : Type} (ticked : BulletTick Body) : List TrackedBullet :=
  (ticked.report.flown.filter (!·.inFlight)).map (·.bullet)

/-- What became of a Match's bullets. -/
structure Spent where
  fired : List TrackedBullet
  ended : List TrackedBullet
  /-- In flight when the Match ended. -/
  wiped : List TrackedBullet

/-- A World, how many players its Match began with, the Match's ticks so far and the Matches
    before it. -/
structure BulletRun (Body : Type) where
  world : StoredWorld Body
  players : ℕ := 0
  log : List (BulletTick Body) := []
  past : List Spent := []

namespace BulletRun
variable {Body : Type} (run : BulletRun Body) (tickRateHz : UInt8)

def fired : List TrackedBullet := run.log.flatMap (·.report.fired)

def ended : List TrackedBullet := run.log.flatMap (·.ended)

/-- The Match under way, its bullets wiped. -/
def spent : Spent := ⟨run.fired, run.ended, run.world.tracked⟩

def start (parameters : Parameters) (collision : Physics.Collision) : BulletRun Body where
  world := { core := { parameters, collision } }

/-- Nothing where a tick asks for a bullet that is not in flight. -/
def step (run : BulletRun Body) : StoredEvent Body → Option (BulletRun Body)
  | .tick commands surroundings =>
      (run.world.ticked commands (tickSeconds tickRateHz) surroundings).map fun ticked =>
        { run with
          world := ticked.2.2
          log := run.log ++ [⟨run.world, ticked.1, ticked.2.1, ticked.2.2⟩] }
  | .removePlayer entity => some { run with world := run.world.removePlayer entity }
  | .startMatch assigns entrants spawnPoints =>
      some
        { world := (run.world.startMatch assigns entrants spawnPoints).1
          players := entrants.length
          past := run.past ++ [run.spent] }
  | .endMatch => some { world := run.world.endMatch, past := run.past ++ [run.spent] }

/-- Whether every bullet of a Match is accounted for. -/
structure Kept (limit : ℕ) (run : BulletRun Body) : Prop where
  stocked : Stocked limit run.players 0 run.world.tracked run.world.ballistics
  size : run.world.core.players.size ≤ run.players
  few : run.players ≤ 255
  books : ∀ ticked ∈ run.log,
    Books limit ticked.before ticked.result ticked.report ticked.after
  account : run.fired.Perm (run.ended ++ run.world.tracked)
  last : ∀ ticked ∈ run.log.getLast?,
    ticked.result.state.bulletsInFlight = run.world.tracked.length
  past : ∀ spent ∈ run.past, spent.fired.Perm (spent.ended ++ spent.wiped)

section
variable {limit : ℕ} {run : BulletRun Body}

/-- With no bullets, and no ticks of the Match yet. -/
theorem kept_begun {world : StoredWorld Body} {players : ℕ} {past : List Spent}
    (htracked : world.tracked = []) (hballistics : world.ballistics = {})
    (hsize : world.core.players.size ≤ players) (hfew : players ≤ 255)
    (hpast : ∀ spent ∈ past, spent.fired.Perm (spent.ended ++ spent.wiped)) :
    Kept limit { world, players, past } := by
  refine ⟨?_, hsize, hfew, ?_, ?_, ?_, hpast⟩
  · rw [htracked, hballistics]
    exact stocked_empty
  · rintro ticked ⟨⟩
  · rw [htracked]
    exact .nil
  · rintro ticked ⟨⟩

theorem Kept.spent (h : Kept limit run) :
    ∀ spent ∈ run.past ++ [run.spent], spent.fired.Perm (spent.ended ++ spent.wiped) := by
  intro spent hspent
  rcases List.mem_append.mp hspent with hold | hnew
  · exact h.past spent hold
  · rw [List.mem_singleton.mp hnew]
    exact h.account

/-- What a tick fired and what was in flight is what it ended and what flies on. -/
theorem books_account {ticked : BulletTick Body}
    (h : Books limit ticked.before ticked.result ticked.report ticked.after) :
    (ticked.before.tracked ++ ticked.report.fired).Perm (ticked.ended ++ ticked.after.tracked) := by
  refine h.flown.symm.trans ?_
  rw [h.tracked, BulletTick.ended, ← List.map_append]
  exact ((List.filter_append_perm (·.inFlight) ticked.report.flown).symm.trans
    List.perm_append_comm).map _

theorem Kept.tick (h : Kept (maxFlightStepsOf (tickSeconds tickRateHz)) run)
    (hlimit : 0 < maxFlightStepsOf (tickSeconds tickRateHz))
    (hroom : maxFlightStepsOf (tickSeconds tickRateHz) * run.players < 2 ^ 32)
    (commands : List (EntityId × Command)) (surroundings : Surroundings Body) :
    ∃ after, step tickRateHz run (.tick commands surroundings) = some after ∧
      Kept (maxFlightStepsOf (tickSeconds tickRateHz)) after := by
  obtain ⟨result, report, world, hticked, hbooks, hstocked, hsize⟩ :=
    books_ticked commands surroundings h.stocked hlimit hroom h.size
  refine ⟨_, congrArg (Option.map _) hticked, hstocked, hsize, h.few, ?_, ?_, ?_, h.past⟩
  · intro ticked hticked
    rcases List.mem_append.mp hticked with hold | hnew
    · exact h.books ticked hold
    · rw [List.mem_singleton.mp hnew]
      exact hbooks
  · have hone := @books_account Body _ ⟨run.world, result, report, world⟩ hbooks
    simp only [fired, ended, List.flatMap_append, List.flatMap_singleton]
    refine ((h.account.append_right report.fired).trans (List.Perm.of_eq ?_)).trans
      (hone.append_left run.ended) |>.trans (List.Perm.of_eq ?_)
    · rw [List.append_assoc]
    · rw [List.append_assoc]
      rfl
  · intro ticked hlast
    rw [List.getLast?_concat] at hlast
    obtain rfl := Option.some.inj hlast
    exact hbooks.inFlight

theorem Kept.step (h : Kept (maxFlightStepsOf (tickSeconds tickRateHz)) run)
    (hlimit : 0 < maxFlightStepsOf (tickSeconds tickRateHz))
    (hroom : maxFlightStepsOf (tickSeconds tickRateHz) * run.players < 2 ^ 32)
    (event : StoredEvent Body) (hfew : event.entrants ≤ 255) :
    ∃ after, BulletRun.step tickRateHz run event = some after ∧
      Kept (maxFlightStepsOf (tickSeconds tickRateHz)) after := by
  cases event with
  | tick commands surroundings => exact h.tick tickRateHz hlimit hroom commands surroundings
  | removePlayer entity =>
      exact ⟨_, rfl, h.stocked, (size_removePlayer_le ..).trans h.size, h.few, h.books, h.account,
        h.last, h.past⟩
  | startMatch assigns entrants spawnPoints =>
      exact ⟨_, rfl, kept_begun rfl rfl (size_startMatch_le ..) hfew h.spent⟩
  | endMatch => exact ⟨_, rfl, kept_begun rfl rfl (Nat.le_refl 0) (Nat.zero_le _) h.spent⟩

theorem kept_start (limit : ℕ) (parameters : Parameters) (collision : Physics.Collision) :
    Kept limit (start parameters collision : BulletRun Body) :=
  kept_begun rfl rfl (Nat.le_refl 0) (Nat.zero_le _) fun spent hspent => by cases hspent

theorem kept_run (hrate : tickRateHz ≠ 0) (parameters : Parameters) (collision : Physics.Collision)
    (events : List (StoredEvent Body)) (hfew : ∀ event ∈ events, event.entrants ≤ 255) :
    ∃ run, Lib.run (BulletRun.step tickRateHz) (start parameters collision) events = some run ∧
      Kept (maxFlightStepsOf (tickSeconds tickRateHz)) run := by
  have hsteps := Ballistics.maxFlightStepsOf_tickSeconds tickRateHz hrate
  have hpos : 0 < tickRateHz.toNat := by
    rcases Nat.eq_zero_or_pos tickRateHz.toNat with hzero | hpos
    · exact absurd (UInt8.toNat_inj.mp hzero) hrate
    · exact hpos
  have hmost := tickRateHz.toNat_lt
  induction events using List.reverseRecOn with
  | nil => exact ⟨_, rfl, kept_start _ parameters collision⟩
  | append_singleton events event ih =>
      obtain ⟨run, hrun, hkept⟩ := ih fun other hother => hfew other (List.mem_append_left _ hother)
      have hroom : maxFlightStepsOf (tickSeconds tickRateHz) * run.players < 2 ^ 32 := by
        have := Nat.mul_le_mul (show maxFlightStepsOf (tickSeconds tickRateHz) ≤ 5 * 255 by omega)
          hkept.few
        omega
      obtain ⟨after, hafter, hstill⟩ := hkept.step tickRateHz (by omega) hroom event
        (hfew event (List.mem_append_right _ (List.mem_singleton_self _)))
      exact ⟨after, Lib.run.concat_eq_some.mpr ⟨run, hrun, hafter⟩, hstill⟩

/-- CORRECT: whatever is done to a World, no tick asks for a bullet that is not in flight; the
    entities and the handles stay one to one; each Match's rounds fired are those that ended and
    those in flight, or wiped at its end; and for each player the Match began with at most a Step
    short of 5 s of them fly. -/
theorem rounds_accounted (hrate : tickRateHz ≠ 0) (parameters : Parameters)
    (collision : Physics.Collision) (events : List (StoredEvent Body))
    (hfew : ∀ event ∈ events, event.entrants ≤ 255) :
    ∃ run, Lib.run (BulletRun.step tickRateHz) (start parameters collision) events = some run ∧
      (run.world.tracked.map (·.handle)).Nodup ∧
      (run.world.tracked.map (·.handle)).Perm run.world.ballistics.bullets.keys ∧
      (∀ ticked ∈ run.log,
        Books (5 * tickRateHz.toNat) ticked.before ticked.result ticked.report ticked.after) ∧
      run.fired.Perm (run.ended ++ run.world.tracked) ∧
      (∀ ticked ∈ run.log.getLast?,
        ticked.result.state.bulletsInFlight = run.world.tracked.length) ∧
      (∀ spent ∈ run.past, spent.fired.Perm (spent.ended ++ spent.wiped)) ∧
      run.world.tracked.length ≤ (5 * tickRateHz.toNat - 1) * run.players := by
  obtain ⟨run, hrun, hkept⟩ := kept_run tickRateHz hrate parameters collision events hfew
  rw [Ballistics.maxFlightStepsOf_tickSeconds tickRateHz hrate] at hkept
  exact ⟨run, hrun, hkept.stocked.nodup, hkept.stocked.handles, hkept.books, hkept.account,
    hkept.last, hkept.past, hkept.stocked.length_le⟩

end

/-- Every bullet strikes the first it may. -/
def duelSurroundings : Surroundings Unit where
  outside := duelGround
  entityOrder := fun bullets => bullets
  entityOrder_perm := fun _ => .refl _
  fired := fun _ => ()
  moved := fun _ targets _ =>
    { body := (), pastRange := false
      nearest := targets.head?.map fun target => .hitbox target .torso }
  struck_mem := by
    intro bullet targets body target part h
    obtain ⟨first, hfirst, hstruck⟩ := Option.map_eq_some_iff.mp h
    obtain ⟨rfl, -⟩ := Impact.hitbox.inj hstruck
    exact List.mem_of_head? hfirst

/-- A duel: the first fires, and a Match after it begins. -/
def duelLife : List (StoredEvent Unit) :=
  [.startMatch (fun _ _ => none) duelists [], .tick [(1, { fire := true })] duelSurroundings,
    .endMatch, .startMatch (fun _ _ => none) duelists []]

theorem rounds_accounted_duel :
    ∃ run, Lib.run (BulletRun.step 60) (start duelWorld.parameters duelWorld.collision) duelLife =
        some run ∧
      (run.past.map fun spent => (spent.fired.length, spent.ended.length)) = [(0, 0), (1, 1), (0, 0)] ∧
      (∀ spent ∈ run.past, spent.fired.Perm (spent.ended ++ spent.wiped)) ∧
      run.world.tracked.length ≤ (5 * 60 - 1) * run.players := by
  obtain ⟨run, hrun, -, -, -, -, -, hpast, hmost⟩ := rounds_accounted 60 (by decide)
    duelWorld.parameters duelWorld.collision duelLife (by decide)
  refine ⟨run, hrun, ?_, hpast, hmost⟩
  have hcounts : ((Lib.run (BulletRun.step 60) (start duelWorld.parameters duelWorld.collision)
      duelLife).map fun run => run.past.map fun spent => (spent.fired.length, spent.ended.length)) =
        some [(0, 0), (1, 1), (0, 0)] := by decide +kernel
  rw [hrun] at hcounts
  exact Option.some.inj hcounts

end BulletRun
end Augusta.Simulation
