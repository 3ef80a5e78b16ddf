import Augusta.Lib.Handles
import Augusta.Simulation.Account
import Augusta.Simulation.Bullets

/-! What one tick does to the bullets.

      tracked ++ fired ──one Step each──▶ in flight  ++  ended
      tracked entities  ~  ballistics' handles            one to one, before and after

    A handle is given out once every 2^32; a bullet of `players` firing at most a round a tick each
    is at most `steps · players` handles old, so none in use is ever given out again. -/

namespace Augusta.Simulation
open Lib (Binary32 Table age)
open Ballistics (BulletHandle Outcome outcomeOf)

/-! ### The stores between ticks -/

/-- The entities and the handles are one to one, and each bullet is as young as its Steps say, were
    `players` to fire a round each a tick and `fired` of them to have fired since the last. -/
structure Stocked {Body : Type} (limit players fired : ℕ) (tracked : List TrackedBullet)
    (ballistics : Ballistics.World Body) : Prop where
  handles : (tracked.map (·.handle)).Perm ballistics.bullets.keys
  young : ∀ handle, ∀ bullet ∈ ballistics.bullets.lookup handle, bullet.steps < limit ∧
    0 < age ballistics.nextHandle handle ∧
    age ballistics.nextHandle handle ≤ bullet.steps * players + fired

section
variable {Body : Type} {limit players fired : ℕ} {tracked : List TrackedBullet}
  {ballistics : Ballistics.World Body}

theorem stocked_empty : Stocked limit players fired [] ({} : Ballistics.World Body) := by
  refine ⟨.nil, fun handle bullet h => ?_⟩
  cases h

theorem Stocked.mono (h : Stocked limit players fired tracked ballistics) {more : ℕ}
    (hmore : fired ≤ more) : Stocked limit players more tracked ballistics :=
  ⟨h.handles, fun handle bullet hin =>
    ⟨(h.young handle bullet hin).1, (h.young handle bullet hin).2.1,
      (h.young handle bullet hin).2.2.trans (Nat.add_le_add_left hmore _)⟩⟩

theorem Stocked.nodup (h : Stocked limit players fired tracked ballistics) :
    (tracked.map (·.handle)).Nodup :=
  h.handles.nodup_iff.mpr ballistics.bullets.nodupKeys

/-- The next handle is not in use. -/
theorem Stocked.next_unused (h : Stocked limit players fired tracked ballistics) :
    ballistics.nextHandle ∉ ballistics.bullets := by
  intro hin
  obtain ⟨bullet, hbullet⟩ := AList.mem_iff_lookup.mp hin
  have hpos := (h.young _ bullet hbullet).2.1
  rw [Lib.age_self] at hpos
  exact Nat.lt_irrefl 0 hpos

/-- A round fired: one more entity, and one more handle. -/
theorem Stocked.fire (h : Stocked limit players fired tracked ballistics) (hlimit : 0 < limit)
    (hroom : limit * players < 2 ^ 32) (hfired : fired < players) (body : Body)
    {bullet : TrackedBullet} (hhandle : bullet.handle = (ballistics.fire body).1) :
    Stocked limit players (fired + 1) (tracked ++ [bullet]) (ballistics.fire body).2 := by
  have hunused := h.next_unused
  have hbullets : (ballistics.fire body).2.bullets =
      ballistics.bullets.insert ballistics.nextHandle { body } := by
    rw [Ballistics.World.fire, AList.emplace, if_neg hunused]
  have hnext : (ballistics.fire body).2.nextHandle = ballistics.nextHandle + 1 := rfl
  obtain ⟨last, rfl⟩ : ∃ last, limit = last + 1 := ⟨limit - 1, by omega⟩
  refine ⟨?_, ?_⟩
  · rw [hbullets, AList.keys_insert, List.erase_of_not_mem hunused, List.map_append, List.map_singleton,
      hhandle]
    exact (List.perm_append_singleton ..).trans (h.handles.cons _)
  · intro handle held hheld
    rw [hbullets, AList.lookup_insert_eq] at hheld
    rw [hnext]
    split_ifs at hheld with hnew
    · obtain rfl := Option.some.inj hheld
      rw [hnew, Lib.age_given]
      exact ⟨Nat.succ_pos _, Nat.one_pos, by omega⟩
    · obtain ⟨hsteps, hpos, hage⟩ := h.young handle held hheld
      have holdest : held.steps * players ≤ last * players :=
        Nat.mul_le_mul_right _ (Nat.lt_succ_iff.mp hsteps)
      rw [Nat.add_mul, Nat.one_mul] at hroom
      rw [Lib.age_succ (by omega)]
      exact ⟨hsteps, Nat.succ_pos _, by omega⟩

/-- Bullets in flight between ticks are fewer than `limit` for each player. -/
theorem Stocked.length_le (h : Stocked limit players 0 tracked ballistics) :
    tracked.length ≤ (limit - 1) * players := by
  have hlength : (tracked.map (·.handle)).length ≤ (limit - 1) * players := by
    refine @Lib.length_le_of_age ballistics.nextHandle _ _ h.nodup fun handle hmem => ?_
    obtain ⟨bullet, hbullet⟩ := AList.mem_iff_lookup.mp (h.handles.mem_iff.mp hmem)
    obtain ⟨hsteps, hpos, hage⟩ := h.young handle bullet hbullet
    exact ⟨hpos, hage.trans (Nat.mul_le_mul_right _ (by omega))⟩
  rwa [List.length_map] at hlength

end

/-! ### Posing -/

section
variable {Body : Type} {surroundings : Surroundings Body}

/-- What Posing some entities has done: of each at most one Shot, its round in flight or in the Map,
    and nothing else. -/
structure Posed (start : Underway Body) (entities : List EntityId) (now : Underway Body) :
    Prop where
  ticking : now.ticking = { start.ticking with
    state := { start.ticking.state with
      shots := start.ticking.state.shots ++ now.announced.map (·.shot)
      mapImpacts := start.ticking.state.mapImpacts ++ now.announced.filterMap (·.entry) } }
  tracked : now.tracked = start.tracked ++ now.announced.filterMap (·.bullet)
  flown : now.flown = start.flown
  shooters : (now.announced.map (·.shot.shooter)).Sublist entities
  living : ∀ announced ∈ now.announced, announced.shot.shooter ∈ start.ticking.world.living

theorem firing_living {world : World} {entity : EntityId} {round : FiredRound}
    (h : world.firing entity = some round) : entity ∈ world.living := by
  obtain ⟨player, hplayer, hround⟩ := Option.bind_eq_some_iff.mp h
  split_ifs at hround with hliving
  exact World.mem_living.mpr ⟨player, hplayer, hliving⟩

section
variable {start now : Underway Body} {entities : List EntityId}

theorem Posed.shooters_append (h : Posed start entities now) (announced : Announced)
    (hliving : announced.shot.shooter ∈ start.ticking.world.living) :
    ((now.announced ++ [announced]).map (·.shot.shooter)).Sublist
        (entities ++ [announced.shot.shooter]) ∧
      ∀ other ∈ now.announced ++ [announced], other.shot.shooter ∈ start.ticking.world.living := by
  refine ⟨?_, ?_⟩
  · rw [List.map_append, List.map_singleton]
    exact h.shooters.append (List.Sublist.refl _)
  · intro other hmem
    rcases List.mem_append.mp hmem with hold | hnew
    · exact h.living other hold
    · rw [List.mem_singleton.mp hnew]
      exact hliving

theorem posed_fire (h : Posed start entities now) (shot : Shot)
    (hliving : shot.shooter ∈ start.ticking.world.living) :
    Posed start (entities ++ [shot.shooter]) (now.fire surroundings shot) := by
  obtain ⟨hshooters, hall⟩ := h.shooters_append (.fired shot
    ⟨(now.ballistics.fire (surroundings.fired shot)).1, shot.shooter, shot.yaw, shot.pitch⟩) hliving
  refine ⟨?_, ?_, h.flown, hshooters, hall⟩
  · simp [Underway.fire, h.ticking, Announced.shot, Announced.entry]
  · simp only [Underway.fire, h.tracked, List.filterMap_append, List.append_assoc]
    rfl

theorem posed_fireIntoTheMap (h : Posed start entities now) (shot : Shot)
    (hliving : shot.shooter ∈ start.ticking.world.living) (entry : Math.Vec3) :
    Posed start (entities ++ [shot.shooter]) (now.fireIntoTheMap shot entry) := by
  obtain ⟨hshooters, hall⟩ := h.shooters_append (.inTheMap shot entry) hliving
  refine ⟨?_, ?_, h.flown, hshooters, hall⟩
  · simp only [Underway.fireIntoTheMap, Ticking.fireIntoTheMap, h.ticking, List.map_append,
      List.map_singleton, List.filterMap_append, List.append_assoc]
    rfl
  · simp only [Underway.fireIntoTheMap, h.tracked, List.filterMap_append]
    exact congrArg _ (List.append_nil _).symm

/-- One more entity posed. -/
theorem posed_onPosing (h : Posed start entities now) (entity : EntityId) :
    Posed start (entities ++ [entity]) (now.onPosing surroundings entity) := by
  have hworld : now.ticking.world = start.ticking.world := by rw [h.ticking]
  rw [Underway.onPosing, hworld]
  cases hfiring : start.ticking.world.firing entity with
  | none =>
      exact ⟨h.ticking, h.tracked, h.flown, h.shooters.trans (List.sublist_append_left ..), h.living⟩
  | some round =>
      cases hbarrel : surroundings.outside.barrel entity round with
      | clear origin yaw pitch =>
          simp only [hbarrel]
          exact posed_fire h ⟨entity, _, _, _⟩ (firing_living hfiring)
      | inTheMap origin yaw pitch entry =>
          simp only [hbarrel]
          exact posed_fireIntoTheMap h ⟨entity, _, _, _⟩ (firing_living hfiring) entry

end

variable {limit players : ℕ}

theorem stocked_onPosing {now : Underway Body} {fired : ℕ} {entity : EntityId}
    (h : Stocked limit players fired now.tracked now.ballistics) (hlimit : 0 < limit)
    (hroom : limit * players < 2 ^ 32) (hfired : fired < players) :
    Stocked limit players (fired + 1) (now.onPosing surroundings entity).tracked
      (now.onPosing surroundings entity).ballistics := by
  rw [Underway.onPosing]
  cases now.ticking.world.firing entity with
  | none => exact h.mono (Nat.le_succ _)
  | some round =>
      cases hbarrel : surroundings.outside.barrel entity round with
      | clear origin yaw pitch =>
          simp only [hbarrel]
          exact h.fire hlimit hroom hfired _ rfl
      | inTheMap origin yaw pitch entry =>
          simp only [hbarrel]
          exact h.mono (Nat.le_succ _)

/-- The whole phase. -/
theorem posed_foldl {start : Underway Body} (hannounced : start.announced = [])
    (hstocked : Stocked limit players 0 start.tracked start.ballistics) (hlimit : 0 < limit)
    (hroom : limit * players < 2 ^ 32) (entities : List EntityId) (hentities : entities.length ≤ players) :
    Posed start entities
        (entities.foldl (fun underway entity => underway.onPosing surroundings entity) start) ∧
      Stocked limit players entities.length
        (entities.foldl (fun underway entity => underway.onPosing surroundings entity) start).tracked
        (entities.foldl (fun underway entity => underway.onPosing surroundings entity)
          start).ballistics := by
  induction entities using List.reverseRecOn with
  | nil =>
      refine ⟨⟨?_, ?_, rfl, ?_, ?_⟩, hstocked⟩
      · simp [hannounced]
      · simp [hannounced]
      · simp [hannounced]
      · simp [hannounced]
  | append_singleton entities entity ih =>
      rw [List.length_append, List.length_singleton] at hentities
      obtain ⟨hposed, hstill⟩ := ih (by omega)
      rw [List.foldl_append, List.foldl_cons, List.foldl_nil, List.length_append,
        List.length_singleton]
      exact ⟨posed_onPosing hposed entity, stocked_onPosing hstill hlimit hroom (by omega)⟩

end
/-! ### What the Steps leave in the tick's State -/

section
variable {outside : Outside}

theorem land_frame (ticking : Ticking) (flown : Flown) :
    ticking.land flown = { ticking with
      state := { ticking.state with
        mapImpacts := ticking.state.mapImpacts ++ flown.mapPoint.toList
        bulletsInFlight := ticking.state.bulletsInFlight + if flown.inFlight then 1 else 0 }
      playerHits := ticking.playerHits ++ flown.playerHit.toList } := by
  obtain ⟨bullet, step, outcome⟩ := flown
  rcases outcome with _ | (point | ⟨target, part⟩) | _ <;>
    simp [Ticking.land, Flown.mapPoint, Flown.inFlight, Flown.playerHit]

theorem land_foldl (flown : List Flown) (ticking : Ticking) :
    flown.foldl Ticking.land ticking = { ticking with
      state := { ticking.state with
        mapImpacts := ticking.state.mapImpacts ++ flown.filterMap (·.mapPoint)
        bulletsInFlight := ticking.state.bulletsInFlight + (flown.filter (·.inFlight)).length }
      playerHits := ticking.playerHits ++ flown.filterMap (·.playerHit) } := by
  induction flown generalizing ticking with
  | nil => simp
  | cons one rest ih =>
      rw [List.foldl_cons, ih, land_frame]
      obtain ⟨bullet, step, outcome⟩ := one
      rcases outcome with _ | (point | ⟨target, part⟩) | _ <;>
        simp [Flown.mapPoint, Flown.inFlight, Flown.playerHit]
      omega

end

/-! ### Ballistics -/

theorem outcomeOf_inFlight {Body Strike : Type} {limit steps : ℕ}
    {moved : Ballistics.Moved Body Strike} (h : outcomeOf limit steps moved = .inFlight) :
    steps < limit := by
  rw [outcomeOf] at h
  cases hnearest : moved.nearest with
  | some strike => rw [hnearest] at h; cases h
  | none =>
      rw [hnearest] at h
      simp only at h
      split_ifs at h with hspent
      omega

theorem outcomeOf_struck {Body Strike : Type} {limit steps : ℕ}
    {moved : Ballistics.Moved Body Strike} {strike : Strike}
    (h : outcomeOf limit steps moved = .struck strike) : moved.nearest = some strike := by
  rw [outcomeOf] at h
  cases hnearest : moved.nearest with
  | some other =>
      rw [hnearest] at h
      rw [Outcome.struck.inj h]
  | none =>
      rw [hnearest] at h
      simp only at h
      split_ifs at h

section
variable {Body : Type} {surroundings : Surroundings Body} {limit players : ℕ}

/-- How many Steps the bullet of a handle has flown. -/
def stepsOf (ballistics : Ballistics.World Body) (handle : BulletHandle) : Option ℕ :=
  (ballistics.bullets.lookup handle).map (·.steps)

/-- Some bullets have made their Step of the tick, and `waiting` are still to. -/
structure Landed (limit players : ℕ) (posed : Underway Body) (waiting : List TrackedBullet)
    (now : Underway Body) : Prop where
  handles : ((waiting ++ now.tracked).map (·.handle)).Perm now.ballistics.bullets.keys
  next : now.ballistics.nextHandle = posed.ballistics.nextHandle
  still : ∀ bullet ∈ waiting, now.ballistics.bullets.lookup bullet.handle =
    posed.ballistics.bullets.lookup bullet.handle
  young : ∀ bullet ∈ now.tracked, ∀ held ∈ now.ballistics.bullets.lookup bullet.handle,
    held.steps < limit ∧ 0 < age posed.ballistics.nextHandle bullet.handle ∧
      age posed.ballistics.nextHandle bullet.handle ≤ held.steps * players
  ticking : now.ticking = now.flown.foldl Ticking.land posed.ticking
  announced : now.announced = posed.announced
  tracked : now.tracked = (now.flown.filter (·.inFlight)).map (·.bullet)
  steps : ∀ flown ∈ now.flown, 0 < flown.step ∧ flown.step ≤ limit ∧
    stepsOf posed.ballistics flown.bullet.handle = some (flown.step - 1) ∧
    (flown.inFlight → flown.step < limit ∧
      stepsOf now.ballistics flown.bullet.handle = some flown.step)
  struck : ∀ flown ∈ now.flown, ∀ hit ∈ flown.playerHit,
    hit.target ∈ posed.ticking.world.targets flown.bullet.shooter

/-- One Step, its bullet and what became of it. -/
structure Stepped (limit : ℕ) (now after : Underway Body) (bullet : TrackedBullet)
    (held : Ballistics.Bullet Body) (flown : Flown) : Prop where
  of : flown.bullet = bullet ∧ flown.step = held.steps + 1
  ticking : after.ticking = now.ticking.land flown
  announced : after.announced = now.announced
  log : after.flown = now.flown ++ [flown]
  next : after.ballistics.nextHandle = now.ballistics.nextHandle
  tracked : after.tracked = if flown.inFlight then now.tracked ++ [bullet] else now.tracked
  kept : flown.inFlight = true → held.steps + 1 < limit ∧ ∃ body, after.ballistics.bullets =
    now.ballistics.bullets.insert bullet.handle ⟨body, held.steps + 1⟩
  gone : flown.inFlight = false →
    after.ballistics.bullets = now.ballistics.bullets.erase bullet.handle
  struck : ∀ hit ∈ flown.playerHit, hit.target ∈ now.ticking.world.targets bullet.shooter

/-- A bullet whose handle is in flight makes its Step. -/
theorem stepped_onBallistics {now : Underway Body} {bullet : TrackedBullet}
    {held : Ballistics.Bullet Body}
    (hheld : now.ballistics.bullets.lookup bullet.handle = some held) :
    ∃ after flown, now.onBallistics surroundings limit bullet = some after ∧
      Stepped limit now after bullet held flown := by
  obtain ⟨outcome, houtcome⟩ : ∃ outcome, outcome = outcomeOf limit (held.steps + 1)
      (surroundings.moved bullet (now.ticking.world.targets bullet.shooter) held.body) := ⟨_, rfl⟩
  rw [Underway.onBallistics, hheld]
  simp only [Option.bind_eq_bind, Option.bind_some]
  rw [Ballistics.World.step_of_lookup hheld, ← houtcome]
  refine ⟨_, ⟨bullet, held.steps + 1, outcome⟩, rfl, ⟨rfl, rfl⟩, rfl, rfl, rfl, ?_, rfl, ?_, ?_, ?_⟩
  · cases outcome <;> rfl
  · intro hflying
    cases outcome with
    | inFlight => exact ⟨outcomeOf_inFlight houtcome.symm, _, rfl⟩
    | expired => cases hflying
    | struck impact => cases hflying
  · intro hended
    cases outcome with
    | inFlight => cases hended
    | expired => rfl
    | struck impact => rfl
  · intro hit hhit
    rcases outcome with _ | (point | ⟨target, part⟩) | _
    · cases hhit
    · cases hhit
    · obtain rfl := Option.some.inj hhit
      exact surroundings.struck_mem _ _ _ _ _ (outcomeOf_struck houtcome.symm)
    · cases hhit

/-- A Step leaves the other handles as they were, and its own only while the bullet flies on. -/
theorem Stepped.lookup_other {now after : Underway Body} {bullet : TrackedBullet}
    {held : Ballistics.Bullet Body} {flown : Flown} (h : Stepped limit now after bullet held flown)
    {handle : BulletHandle} (hother : handle ≠ bullet.handle) :
    after.ballistics.bullets.lookup handle = now.ballistics.bullets.lookup handle := by
  cases hflying : flown.inFlight with
  | true =>
      obtain ⟨-, body, hkept⟩ := h.kept hflying
      rw [hkept, AList.lookup_insert_ne hother]
  | false => rw [h.gone hflying, AList.lookup_erase_ne hother]

theorem Stepped.keys {now after : Underway Body} {bullet : TrackedBullet}
    {held : Ballistics.Bullet Body} {flown : Flown} (h : Stepped limit now after bullet held flown) :
    after.ballistics.bullets.keys =
      (if flown.inFlight then [bullet.handle] else []) ++
        now.ballistics.bullets.keys.erase bullet.handle := by
  cases hflying : flown.inFlight with
  | true =>
      obtain ⟨-, body, hkept⟩ := h.kept hflying
      rw [hkept, AList.keys_insert]
      rfl
  | false =>
      rw [h.gone hflying, AList.keys_erase]
      rfl

/-- One more bullet's Step made. -/
theorem landed_onBallistics {posed now : Underway Body} {bullet : TrackedBullet}
    {rest : List TrackedBullet} (hposed : Stocked limit players players posed.tracked posed.ballistics)
    (h : Landed limit players posed (bullet :: rest) now) :
    ∃ after, now.onBallistics surroundings limit bullet = some after ∧
      Landed limit players posed rest after ∧
      after.flown.map (·.bullet) = now.flown.map (·.bullet) ++ [bullet] := by
  have hcons : (bullet.handle :: (rest ++ now.tracked).map (·.handle)).Perm
      now.ballistics.bullets.keys := h.handles
  have hnodup := hcons.nodup_iff.mpr now.ballistics.bullets.nodupKeys
  have hother : ∀ other ∈ rest ++ now.tracked, other.handle ≠ bullet.handle := by
    intro other hmem hsame
    exact (List.nodup_cons.mp hnodup).1 (hsame ▸ List.mem_map_of_mem hmem)
  obtain ⟨held, hheld⟩ := AList.mem_iff_lookup.mp (hcons.mem_iff.mp (List.mem_cons_self ..))
  have hwas : posed.ballistics.bullets.lookup bullet.handle = some held :=
    (h.still bullet (List.mem_cons_self ..)).symm.trans hheld
  obtain ⟨hsteps, hpos, hage⟩ := hposed.young bullet.handle held hwas
  obtain ⟨after, flown, hafter, hstep⟩ := @stepped_onBallistics Body surroundings limit _ _ _ hheld
  have hrest : ((rest ++ now.tracked).map (·.handle)).Perm
      (now.ballistics.bullets.keys.erase bullet.handle) :=
    (List.cons_perm_iff_perm_erase.mp hcons).2
  have hworld : now.ticking.world = posed.ticking.world := by rw [h.ticking, land_foldl]
  have hflownStep : flown.step = held.steps + 1 := hstep.of.2
  have hkeptSteps (hflying : flown.inFlight = true) :
      stepsOf after.ballistics bullet.handle = some flown.step := by
    obtain ⟨-, body, hkept⟩ := hstep.kept hflying
    rw [stepsOf, hkept, AList.lookup_insert, hflownStep]
    rfl
  have hlog : after.flown.map (·.bullet) = now.flown.map (·.bullet) ++ [bullet] := by
    rw [hstep.log, List.map_append, List.map_singleton, hstep.of.1]
  refine ⟨after, hafter, ⟨?_, hstep.next.trans h.next, ?_, ?_, ?_, hstep.announced.trans h.announced,
    ?_, ?_, ?_⟩, hlog⟩
  · rw [hstep.keys, hstep.tracked]
    cases flown.inFlight with
    | true =>
        rw [if_pos rfl, if_pos rfl, ← List.append_assoc, List.map_append, List.map_singleton]
        exact List.perm_append_comm.trans (hrest.cons _)
    | false => exact hrest
  · intro other hmem
    rw [hstep.lookup_other (hother other (List.mem_append_left _ hmem))]
    exact h.still other (List.mem_cons_of_mem _ hmem)
  · intro other hmem kept hkept
    have hold (hin : other ∈ now.tracked) := h.young other hin kept
      (hstep.lookup_other (hother other (List.mem_append_right _ hin)) ▸ hkept)
    rw [hstep.tracked] at hmem
    cases hflying : flown.inFlight with
    | false =>
        rw [hflying] at hmem
        exact hold hmem
    | true =>
        rw [hflying, if_pos rfl] at hmem
        rcases List.mem_append.mp hmem with hin | hnew
        · exact hold hin
        · -- The bullet itself: a Step older, and a tick's rounds.
          obtain rfl := List.mem_singleton.mp hnew
          obtain ⟨hlimit, body, hinsert⟩ := hstep.kept hflying
          rw [hinsert, AList.lookup_insert] at hkept
          obtain rfl := Option.some.inj hkept
          refine ⟨hlimit, hpos, ?_⟩
          rw [Nat.add_mul, Nat.one_mul]
          exact hage
  · rw [hstep.ticking, hstep.log, List.foldl_append, h.ticking]
    rfl
  · rw [hstep.tracked, hstep.log, List.filter_append, List.map_append, ← h.tracked]
    cases hflying : flown.inFlight with
    | true => simp [hflying, hstep.of.1]
    | false => simp [hflying]
  · intro other hmem
    rw [hstep.log] at hmem
    rcases List.mem_append.mp hmem with hold | hnew
    · obtain ⟨hfirst, hlast, hbefore, hafter'⟩ := h.steps other hold
      refine ⟨hfirst, hlast, hbefore, fun hflying => ⟨(hafter' hflying).1, ?_⟩⟩
      have htracked : other.bullet ∈ now.tracked := by
        rw [h.tracked]
        exact List.mem_map_of_mem (List.mem_filter.mpr ⟨hold, hflying⟩)
      rw [stepsOf, hstep.lookup_other (hother _ (List.mem_append_right _ htracked))]
      exact (hafter' hflying).2
    · obtain rfl := List.mem_singleton.mp hnew
      rw [hstep.of.1, hflownStep, stepsOf, hwas]
      refine ⟨Nat.succ_pos _, hsteps, rfl, fun hflying => ⟨(hstep.kept hflying).1, ?_⟩⟩
      rw [hkeptSteps hflying, hflownStep]
  · intro other hmem hit hhit
    rw [hstep.log] at hmem
    rcases List.mem_append.mp hmem with hold | hnew
    · exact h.struck other hold hit hhit
    · obtain rfl := List.mem_singleton.mp hnew
      rw [hstep.of.1, ← hworld]
      exact hstep.struck hit hhit

/-- The whole phase: no bullet's handle is missing, and each makes one Step. -/
theorem landed_foldlM {posed : Underway Body} (waiting : List TrackedBullet) {now : Underway Body}
    (hposed : Stocked limit players players posed.tracked posed.ballistics)
    (h : Landed limit players posed waiting now) :
    ∃ after, waiting.foldlM (fun underway bullet => underway.onBallistics surroundings limit bullet)
        now = some after ∧ Landed limit players posed [] after ∧
      after.flown.map (·.bullet) = now.flown.map (·.bullet) ++ waiting := by
  induction waiting generalizing now with
  | nil => exact ⟨now, rfl, h, (List.append_nil _).symm⟩
  | cons bullet rest ih =>
      obtain ⟨next, hnext, hlanded, hone⟩ := @landed_onBallistics Body surroundings
        limit players _ _ _ _ hposed h
      obtain ⟨after, hafter, hall, hlog⟩ := ih hlanded
      refine ⟨after, ?_, hall, ?_⟩
      · rw [List.foldlM_cons, hnext]
        exact hafter
      · rw [hlog, hone, List.append_assoc, List.singleton_append]

end

/-! ### Damage -/

/-- The hits said of one player are its strikes, in their order, each with the health left after
    it. -/
inductive Taken (damage : BodyPart.Damage) : Binary32 → List PlayerHit → List Hit → Prop
  | nil (health : Binary32) : Taken damage health [] []
  | cons {health : Binary32} {strike : PlayerHit} {strikes : List PlayerHit} {hit : Hit}
      {hits : List Hit} (shooter : hit.shooter = strike.shooter) (target : hit.target = strike.target)
      (part : hit.part = strike.part) (amount : hit.damage = damageFor damage strike.part)
      (left : hit.health = Binary32.less health hit.damage) (rest : Taken damage hit.health strikes hits) :
      Taken damage health (strike :: strikes) (hit :: hits)

theorem taken_onDamage (damage : BodyPart.Damage) (strikes : List PlayerHit) (entity : EntityId)
    (player : Player) : Taken damage player.health (strikes.filter fun hit => hit.target = entity)
      (player.onDamage damage strikes entity).hits := by
  rw [Player.onDamage]
  generalize strikes.filter (fun hit => hit.target = entity) = struck
  induction struck generalizing player with
  | nil => exact .nil _
  | cons strike rest ih =>
      rw [List.foldl_cons, foldl_takeHit]
      have hrest := ih (Wounded.takeHit damage { player := player } strike).player
      exact .cons rfl rfl rfl rfl rfl hrest

/-- Whom no player is, no hit names. -/
theorem hits_damage_none {ticking : Ticking} {outside : Outside} {entity : EntityId}
    (hnone : ticking.world.players.lookup entity = none) :
    (ticking.damage outside).state.hits.filter (fun hit => hit.target = entity) = [] := by
  refine List.filter_eq_nil_iff.mpr fun hit hhit htarget => ?_
  obtain ⟨wounded, hwounded, hsaid⟩ := List.mem_flatMap.mp hhit
  obtain ⟨other, hother, hwounds⟩ := List.mem_flatMap.mp hwounded
  rw [World.woundsOf, Option.mem_toList, Option.map_eq_some_iff] at hwounds
  obtain ⟨player, hplayer, rfl⟩ := hwounds
  have hmem := List.mem_map_of_mem (f := fun hit : Hit => hit.target) hsaid
  rw [onDamage_targets] at hmem
  obtain ⟨struck, hstruck, hsame⟩ := List.mem_map.mp hmem
  have hkey : other = entity := by
    rw [← of_decide_eq_true htarget, ← hsame]
    exact (of_decide_eq_true (List.mem_filter.mp hstruck).2).symm
  rw [hkey, hnone] at hplayer
  cases hplayer

/-! ### The whole tick -/

section
variable {Body : Type} {limit players : ℕ}

/-- The rounds a tick put in flight. -/
def Report.fired (report : Report) : List TrackedBullet :=
  report.announced.filterMap (·.bullet)

/-- A tick's books of its bullets. -/
structure Books (limit : ℕ) (before : StoredWorld Body) (result : TickResult) (report : Report)
    (after : StoredWorld Body) : Prop where
  /-- Each Shot is into the Map, and an impact of the tick, or puts a bullet in flight. -/
  shots : result.state.shots.Perm (report.announced.map (·.shot))
  mapImpacts : result.state.mapImpacts =
    report.announced.filterMap (·.entry) ++ report.flown.filterMap (·.mapPoint)
  shooters : (report.announced.map (·.shot.shooter)).Nodup ∧
    ∀ announced ∈ report.announced, announced.shot.shooter ∈ before.core.living
  /-- Each bullet in flight, and each just fired, makes one Step. -/
  flown : (report.flown.map (·.bullet)).Perm (before.tracked ++ report.fired)
  tracked : after.tracked = (report.flown.filter (·.inFlight)).map (·.bullet)
  inFlight : result.state.bulletsInFlight = after.tracked.length
  /-- Which Step it is: one on from the last, the first of a bullet just fired. -/
  steps : ∀ flown ∈ report.flown, 0 < flown.step ∧ flown.step ≤ limit ∧
    ((flown.bullet ∈ before.tracked ∧
        stepsOf before.ballistics flown.bullet.handle = some (flown.step - 1)) ∨
      flown.bullet ∈ report.fired ∧ flown.step = 1) ∧
    (flown.inFlight → flown.step < limit ∧
      stepsOf after.ballistics flown.bullet.handle = some flown.step)
  /-- Whom it strikes was alive when the tick began, and did not fire it. -/
  struck : ∀ flown ∈ report.flown, ∀ hit ∈ flown.playerHit,
    hit.target ≠ flown.bullet.shooter ∧ hit.target ∈ before.core.living
  hits : ∀ entity player, before.core.players.lookup entity = some player →
    Taken before.core.parameters.ammo.damage player.health
      ((report.flown.filterMap (·.playerHit)).filter fun hit => hit.target = entity)
      (result.state.hits.filter fun hit => hit.target = entity)
  nobody : ∀ entity, before.core.players.lookup entity = none →
    (result.state.hits.filter fun hit => hit.target = entity) = []

end
end Augusta.Simulation
