import Augusta.Simulation.Account

/-! A Match's combat, from its start on: whatever its players command, wherever their bullets go and
    whoever leaves.

      startMatch ──tick──▶ · ──removePlayer──▶ · ──tick──▶ · …
                    │                            │
                    └─ deaths, hits, actions     └─ …          none of whom it names died before -/

namespace Augusta.Simulation
open Lib (Binary32 Table)

inductive WorldEvent
  | tick (commands : List (EntityId × Command)) (deltaTime : Binary32) (outside : Outside)
  | removePlayer (entity : EntityId)

/-- One tick of a run: the World it found, what it said and the World it left. -/
structure Ticked where
  before : World
  result : TickResult
  after : World

/-- A World, and its ticks so far, oldest first. -/
structure Recorded where
  world : World
  log : List Ticked := []

namespace Recorded

def step (recorded : Recorded) : WorldEvent → Recorded
  | .tick commands deltaTime outside =>
      let ticked := recorded.world.ticked commands deltaTime outside
      ⟨ticked.2, recorded.log ++ [⟨recorded.world, ticked.1, ticked.2⟩]⟩
  | .removePlayer entity => { recorded with world := recorded.world.removePlayer entity }

def run (recorded : Recorded) (events : List WorldEvent) : Recorded := events.foldl step recorded

/-- Every player's death so far. -/
def deaths (recorded : Recorded) : List Death := recorded.log.flatMap (·.result.state.deaths)

/-- Every action Game policy has taken. -/
def actions (recorded : Recorded) : List Policy.Action := recorded.log.flatMap (·.result.actions)

end Recorded

/-- A tick that has `entity` in the World alive: it has a body, fires, is struck or dies. -/
def State.Names (state : State) (entity : EntityId) : Prop :=
  entity ∈ state.bodies.map (·.entity) ∨ entity ∈ state.alive ∨
    entity ∈ state.shots.map (·.shooter) ∨ entity ∈ state.hits.map (·.target) ∨
      entity ∈ state.deaths.map (·.victim)

/-- A tick whose books balance: each player's health is what its hits left of it, the hit that took
    it to zero is marked, and the marked hits are the deaths. -/
structure Balanced (ticked : Ticked) : Prop where
  ledger : ∀ entity player left, ticked.before.players.lookup entity = some player →
    ticked.after.players.lookup entity = some left → Ledger player.health
      (ticked.result.state.hits.filter fun hit => hit.target = entity) left.health
  blows : (ticked.result.state.deaths.map Death.blow).Perm
    ((ticked.result.state.hits.filter (·.reachedZero)).map Hit.blow)
  died : ∀ entity player left, ticked.before.players.lookup entity = some player →
    ticked.after.players.lookup entity = some left →
      (entity ∈ ticked.result.state.deaths.map (·.victim) ↔
        Binary32.zero.lt player.health = true ∧ left.health.le .zero = true)

/-! ### Where a Match starts from -/

section
variable {start : Binary32} {world : World}

theorem sound_addPlayer (hstart : start.Nonnegative ∧ 0 < start.key)
    (hparameters : world.parameters.startingHealth = start) (h : world.Sound start)
    (entity : EntityId) (spawn : Math.Vec3) (clips : Prediction.Clips) (identity : PlayerIdentity) :
    (world.addPlayer entity spawn clips identity).Sound start := by
  intro other player hplayer
  simp only [World.addPlayer, AList.emplace] at hplayer
  split at hplayer
  · exact h other player hplayer
  · rw [AList.lookup_insert_eq] at hplayer
    split at hplayer
    · obtain rfl := Option.some.inj hplayer
      exact ⟨by rw [hparameters]; exact hstart.1, by rw [hparameters],
        ⟨fun _ => by rw [hparameters]; exact hstart.2, fun _ => rfl⟩⟩
    · exact h other player hplayer

theorem sound_startMatch (hstart : start.Nonnegative ∧ 0 < start.key)
    (hparameters : world.parameters.startingHealth = start)
    (assigns : Policy.MatchView → ℕ → Option (List ℕ)) (entrants : List World.Entrant)
    (spawnPoints : List Math.Vec3) :
    (world.startMatch assigns entrants spawnPoints).1.Sound start ∧
      (world.startMatch assigns entrants spawnPoints).1.parameters = world.parameters := by
  have hadd (pairs : List (World.Entrant × Math.Vec3)) (w : World)
      (hw : w.parameters = world.parameters) (hsound : w.Sound start) :
      (pairs.foldl (fun w pair =>
          w.addPlayer pair.1.entity pair.2 pair.1.clips pair.1.identity) w).Sound start ∧
        (pairs.foldl (fun w pair =>
          w.addPlayer pair.1.entity pair.2 pair.1.clips pair.1.identity) w).parameters =
            world.parameters := by
    induction pairs generalizing w with
    | nil => exact ⟨hsound, hw⟩
    | cons pair rest ih =>
        exact ih _ hw (sound_addPlayer hstart (by rw [hw, hparameters]) hsound _ _ _ _)
  refine hadd _ world.endMatch rfl ?_
  intro entity player hplayer
  cases hplayer

/-- Parameters that are checked start players with some health, and hurt no one into more. -/
theorem harms_of_validate {parameters : Parameters} (hvalid : parameters.validate = .ok ()) :
    Harms parameters.ammo.damage ∧ parameters.startingHealth.Nonnegative ∧
      0 < parameters.startingHealth.key := by
  have hchecked := Parameters.checked_of_validate hvalid
  have hleast {value : Binary32} (h : Parameters.finiteAndAtLeast value .zero = true) :
      value.Nonnegative := Binary32.nonnegative_iff.mpr (Bool.and_eq_true_iff.mp h)
  have hhealth := hchecked.startingHealth
  rw [Parameters.finiteAndAbove, Bool.and_eq_true_iff] at hhealth
  have hkey : 0 < parameters.startingHealth.key := by
    have hlt := hhealth.2
    simp only [Binary32.lt, Bool.and_eq_true, decide_eq_true_eq] at hlt
    exact hlt.2
  refine ⟨?_, ⟨hhealth.1, Int.le_of_lt hkey⟩, hkey⟩
  intro part
  cases part
  · exact hleast hchecked.head
  · exact hleast hchecked.torso
  · exact hleast hchecked.limb

end

/-! ### What every step keeps -/

/-- What holds after any run of a Match: no one who died is back. -/
structure Recorded.Kept (parameters : Parameters) (recorded : Recorded) : Prop where
  same : recorded.world.parameters = parameters
  sound : recorded.world.Sound parameters.startingHealth
  dead : ∀ death ∈ recorded.deaths, death.victim ∉ recorded.world.living
  once : (recorded.deaths.map (·.victim)).Nodup
  silent : recorded.log.Pairwise fun earlier later =>
    ∀ death ∈ earlier.result.state.deaths, ¬ later.result.state.Names death.victim
  ended : recorded.actions = [] ∨
    (recorded.world.matchEnded = true ∧ ∃ action, recorded.actions = [action])
  balanced : ∀ ticked ∈ recorded.log, Balanced ticked

/-- No player is back that was gone, and none is healed. -/
structure Declines (world after : World) : Prop where
  gone : ∀ entity, world.players.lookup entity = none → after.players.lookup entity = none
  falls : ∀ entity player left, world.players.lookup entity = some player →
    after.players.lookup entity = some left → left.health.key ≤ player.health.key

theorem Declines.refl (world : World) : Declines world world :=
  ⟨fun _ h => h, fun _ _ _ h h' => by rw [h] at h'; obtain rfl := Option.some.inj h'; exact le_rfl⟩

theorem Declines.trans {a b c : World} (h : Declines a b) (h' : Declines b c) : Declines a c where
  gone := fun entity hnone => h'.gone entity (h.gone entity hnone)
  falls := by
    intro entity player left hplayer hleft
    cases hmiddle : b.players.lookup entity with
    | none => rw [h'.gone entity hmiddle] at hleft; cases hleft
    | some middle =>
        exact Int.le_trans (h'.falls entity middle left hmiddle hleft)
          (h.falls entity player middle hplayer hmiddle)

section
variable {parameters : Parameters} {recorded : Recorded}

theorem declines_removePlayer (world : World) (entity : EntityId) :
    Declines world (world.removePlayer entity) := by
  constructor
  · intro other hnone
    rw [World.removePlayer, AList.lookup_erase_eq, hnone]
    exact ite_self _
  · intro other player left hplayer hleft
    rw [World.removePlayer, AList.lookup_erase_eq] at hleft
    split at hleft
    · cases hleft
    · rw [hplayer] at hleft
      obtain rfl := Option.some.inj hleft
      exact Int.le_refl _

theorem Accounted.declines {start : Binary32} {world after : World} {result : TickResult}
    (h : Accounted start world result after) : Declines world after := by
  refine ⟨h.gone, fun entity player left hplayer hleft => ?_⟩
  obtain ⟨other, hother, -, hle, -⟩ := h.wounds entity player hplayer
  rw [hother] at hleft
  obtain rfl := Option.some.inj hleft
  exact hle

/-- An account's books balance. -/
theorem Accounted.balanced {start : Binary32} {world after : World} {result : TickResult}
    (h : Accounted start world result after) (hsound : world.Sound start) :
    Balanced ⟨world, result, after⟩ := by
  refine ⟨?_, h.blows, ?_⟩
  · intro entity player left hplayer hleft
    obtain ⟨other, hother, -, -, hledger⟩ := h.wounds entity player hplayer
    rw [hother] at hleft
    obtain rfl := Option.some.inj hleft
    exact hledger
  · intro entity player left hplayer hleft
    obtain ⟨other, hother, hstill, -, -⟩ := h.wounds entity player hplayer
    rw [hother] at hleft
    obtain rfl := Option.some.inj hleft
    have hbefore := hsound entity player hplayer
    have hliving : entity ∈ world.living ↔ Binary32.zero.lt player.health = true := by
      rw [World.mem_living, lt_zero_iff hbefore.health, ← hbefore.living, hplayer]
      simp
    have hleft : entity ∉ after.living ↔ other.health.le .zero = true := by
      rw [World.mem_living, le_zero_iff hstill.health, ← hstill.living, hother]
      simp
    exact (h.died entity).trans (and_congr hliving hleft)

/-- Whom a tick names was alive when it began. -/
theorem Accounted.names {start : Binary32} {world after : World} {result : TickResult}
    (h : Accounted start world result after) {entity : EntityId}
    (hnames : result.state.Names entity) : entity ∈ world.living := by
  rcases hnames with hbody | halive | hshot | hhit | hdeath
  · exact h.still entity ((h.bodies entity).mp hbody)
  · exact h.still entity ((h.alive entity).mp halive)
  · obtain ⟨shot, hmem, rfl⟩ := List.mem_map.mp hshot
    exact h.fired shot hmem
  · obtain ⟨hit, hmem, rfl⟩ := List.mem_map.mp hhit
    exact h.struck hit hmem
  · exact ((h.died entity).mp hdeath).1

theorem kept_tick (hharms : Harms parameters.ammo.damage) (h : recorded.Kept parameters)
    (commands : List (EntityId × Command)) (deltaTime : Binary32) (outside : Outside) :
    (recorded.step (.tick commands deltaTime outside)).Kept parameters := by
  obtain ⟨result, hresult⟩ : ∃ result,
      result = recorded.world.ticked commands deltaTime outside := ⟨_, rfl⟩
  have haccount : Accounted parameters.startingHealth recorded.world result.1 result.2 := by
    rw [hresult]
    exact accounted_ticked (by rw [h.same]; exact hharms) h.sound commands deltaTime outside
  have hstep : recorded.step (.tick commands deltaTime outside) =
      ⟨result.2, recorded.log ++ [⟨recorded.world, result.1, result.2⟩]⟩ := by
    rw [hresult]
    rfl
  have hdeaths : (recorded.step (.tick commands deltaTime outside)).deaths =
      recorded.deaths ++ result.1.state.deaths := by
    rw [hstep, Recorded.deaths, List.flatMap_append, List.flatMap_singleton]
    rfl
  have hactions : (recorded.step (.tick commands deltaTime outside)).actions =
      recorded.actions ++ result.1.actions := by
    rw [hstep, Recorded.actions, List.flatMap_append, List.flatMap_singleton]
    rfl
  refine ⟨?_, ?_, ?_, ?_, ?_, ?_, ?_⟩
  · rw [hstep]; exact haccount.parameters.trans h.same
  · intro entity player hplayer
    rw [hstep] at hplayer
    cases hbefore : recorded.world.players.lookup entity with
    | none => rw [haccount.gone entity hbefore] at hplayer; cases hplayer
    | some before =>
        obtain ⟨left, hleft, hsound, -, -⟩ := haccount.wounds entity before hbefore
        rw [hleft] at hplayer
        obtain rfl := Option.some.inj hplayer
        exact hsound
  · rw [hdeaths, hstep]
    intro death hdeath
    rcases List.mem_append.mp hdeath with hold | hnew
    · exact fun hback => h.dead death hold (haccount.still _ hback)
    · exact ((haccount.died _).mp (List.mem_map_of_mem hnew)).2
  · rw [hdeaths, List.map_append]
    refine h.once.append haccount.once ?_
    intro entity hold hnew
    obtain ⟨death, hdeath, rfl⟩ := List.mem_map.mp hold
    exact h.dead death hdeath ((haccount.died _).mp hnew).1
  · rw [hstep]
    refine List.pairwise_append.mpr ⟨h.silent, List.pairwise_singleton _ _, ?_⟩
    intro earlier hearlier later hlater death hdeath
    rw [List.mem_singleton.mp hlater]
    exact fun hnames => h.dead death (List.mem_flatMap.mpr ⟨earlier, hearlier, hdeath⟩)
      (haccount.names hnames)
  · rw [hactions, hstep]
    rcases haccount.ended with ⟨hnone, hsame⟩ | ⟨action, hone, hopen, hended⟩
    · rw [hnone, List.append_nil, hsame]
      exact h.ended
    · rcases h.ended with hquiet | ⟨hended', -⟩
      · exact .inr ⟨hended, action, by rw [hquiet, hone, List.nil_append]⟩
      · rw [hended'] at hopen; cases hopen
  · rw [hstep]
    intro ticked hmem
    rcases List.mem_append.mp hmem with hold | hnew
    · exact h.balanced ticked hold
    · rw [List.mem_singleton.mp hnew]
      exact haccount.balanced h.sound

theorem kept_step (hharms : Harms parameters.ammo.damage) (h : recorded.Kept parameters)
    (event : WorldEvent) : (recorded.step event).Kept parameters := by
  cases event with
  | tick commands deltaTime outside => exact kept_tick hharms h commands deltaTime outside
  | removePlayer entity =>
      have hliving : ∀ other ∈ (recorded.world.removePlayer entity).living,
          other ∈ recorded.world.living := by
        intro other hother
        obtain ⟨player, hplayer, halive⟩ := World.mem_living.mp hother
        rw [World.removePlayer, AList.lookup_erase_eq] at hplayer
        split at hplayer
        · cases hplayer
        · exact World.mem_living.mpr ⟨player, hplayer, halive⟩
      refine ⟨h.same, ?_, fun death hdeath hback => h.dead death hdeath (hliving _ hback),
        h.once, h.silent, h.ended, h.balanced⟩
      intro other player hplayer
      change AList.lookup other (recorded.world.removePlayer entity).players = some player at hplayer
      rw [World.removePlayer, AList.lookup_erase_eq] at hplayer
      split at hplayer
      · cases hplayer
      · exact h.sound other player hplayer

theorem kept_run (hharms : Harms parameters.ammo.damage) (h : recorded.Kept parameters)
    (events : List WorldEvent) : (recorded.run events).Kept parameters := by
  induction events generalizing recorded with
  | nil => exact h
  | cons event rest ih => exact ih (kept_step hharms h event)

theorem declines_run (hharms : Harms parameters.ammo.damage) (h : recorded.Kept parameters)
    (events : List WorldEvent) : Declines recorded.world (recorded.run events).world := by
  induction events generalizing recorded with
  | nil => exact .refl _
  | cons event rest ih =>
      refine Declines.trans ?_ (ih (kept_step hharms h event))
      cases event with
      | tick commands deltaTime outside =>
          exact (accounted_ticked (by rw [h.same]; exact hharms) h.sound commands deltaTime
            outside).declines
      | removePlayer entity => exact declines_removePlayer _ entity

end

theorem le_of_key {x y : Binary32} (hx : x.Nonnegative) (hy : y.Nonnegative) (h : x.key ≤ y.key) :
    x.le y = true := by
  simp [Binary32.le, Binary32.isNaN_of_isFinite hx.1, Binary32.isNaN_of_isFinite hy.1, h]

/-- CORRECT: in any run of a Match health stays between none and what it started at and never grows,
    each player dies at most once, on the hit its ledger marks, and is named by no later tick, and
    Game policy ends the Match at most once. -/
theorem combat_ledger {world : World} (hvalid : world.parameters.validate = .ok ())
    (assigns : Policy.MatchView → ℕ → Option (List ℕ)) (entrants : List World.Entrant)
    (spawnPoints : List Math.Vec3) (events : List WorldEvent) :
    let recorded := (Recorded.mk (world.startMatch assigns entrants spawnPoints).1 []).run events
    (∀ entity player, recorded.world.players.lookup entity = some player →
      Binary32.zero.le player.health = true ∧
        player.health.le world.parameters.startingHealth = true ∧
        ∀ more later, (recorded.run more).world.players.lookup entity = some later →
          later.health.le player.health = true) ∧
    (∀ ticked ∈ recorded.log, Balanced ticked) ∧
    (recorded.deaths.map (·.victim)).Nodup ∧
    (recorded.log.Pairwise fun earlier later =>
      ∀ death ∈ earlier.result.state.deaths, ¬ later.result.state.Names death.victim) ∧
    recorded.actions.length ≤ 1 := by
  intro recorded
  obtain ⟨hharms, hstart⟩ := harms_of_validate hvalid
  obtain ⟨hsound, hparameters⟩ := sound_startMatch hstart rfl assigns entrants spawnPoints
  have hbegun : (Recorded.mk (world.startMatch assigns entrants spawnPoints).1 []).Kept
      world.parameters :=
    ⟨hparameters, hsound, fun _ h => (nomatch h), .nil, .nil, .inl rfl, fun _ h => (nomatch h)⟩
  have hkept : recorded.Kept world.parameters := kept_run hharms hbegun events
  refine ⟨?_, hkept.balanced, hkept.once, hkept.silent, ?_⟩
  · intro entity player hplayer
    have hplayerSound := hkept.sound entity player hplayer
    refine ⟨(Binary32.nonnegative_iff.mp hplayerSound.health).2,
      le_of_key hplayerSound.health hstart.1 hplayerSound.most, ?_⟩
    intro more later hlater
    have hlaterSound := (kept_run hharms hkept more).sound entity later hlater
    exact le_of_key hlaterSound.health hplayerSound.health
      ((declines_run hharms hkept more).falls entity player later hplayer hlater)
  · rcases hkept.ended with hnone | ⟨-, action, hone⟩
    · rw [hnone]; exact Nat.zero_le _
    · rw [hone]; exact Nat.le_refl _

/-- Two players, and a torso hit that is all the health they start with. -/
def duelWorld : World where
  parameters := { ammo := { damage := { torso := .one } } }
  collision := { move := fun position _ _ _ => (position, true), fits := fun _ _ => true }

def duelists : List World.Entrant :=
  [1, 2].map fun entity => ⟨entity, {}, { strideLength := fun _ _ _ => .one, transitions := {} }, none⟩

/-- Every bullet strikes the first it may, and the rules end the Match once someone is dead. -/
def duelGround : Outside where
  order := fun _ entities => entities
  order_perm := fun _ _ => .refl _
  flightOrder := fun bullets => bullets
  flightOrder_perm := fun _ => .refl _
  barrel := fun _ round => .clear {} round.yaw round.pitch
  flight := fun _ targets =>
    match targets with
    | [] => .expired
    | target :: _ => .hitbox target .torso
  struck_mem := by
    rintro bullet (_ | ⟨first, rest⟩) target part h
    · cases h
    · obtain ⟨rfl, -⟩ := Flight.hitbox.inj h
      exact List.mem_cons_self
  onTick := fun view _ => if view.players.all (·.alive) then none else some (.matchEnd none)

/-- The first fires on the first tick, and is ordered to fire on. -/
def duelEvents : List WorldEvent :=
  [.tick [(1, { fire := true })] ⟨0x3C888889⟩ duelGround,
    .tick [(1, { fire := true }), (2, { fire := true })] ⟨0x3C888889⟩ duelGround]

def duel : Recorded :=
  (Recorded.mk (duelWorld.startMatch (fun _ _ => none) duelists []).1 []).run duelEvents

theorem combat_ledger_duel : duel.deaths.map (·.victim) = [2] ∧
    duel.actions = [.matchEnd none] ∧ (∀ ticked ∈ duel.log, Balanced ticked) ∧
    (duel.log.Pairwise fun earlier later =>
      ∀ death ∈ earlier.result.state.deaths, ¬ later.result.state.Names death.victim) := by
  have h := @combat_ledger duelWorld rfl (fun _ _ => none) duelists [] duelEvents
  exact ⟨by decide +kernel, by decide +kernel, h.2.1, h.2.2.2.1⟩

end Augusta.Simulation
