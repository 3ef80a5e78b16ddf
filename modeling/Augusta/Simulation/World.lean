import Augusta.Lib.Table
import Augusta.Simulation.Player
import Mathlib.Data.List.Sort

/-! `augusta::simulation::World`: a Match's players and the bullets they have in flight.

      Tick :  Commands ─▶ Posing ─▶ Ballistics ─▶ Damage ─▶ Scripts/Behaviours ─▶ Commit
              body, rifle  Shots     hits          deaths    Match end              bodies, alive

    Where a barrel is, where a bullet gets to, what order the players are stored in and what the
    rules answer are not the World's to decide: each tick is handed them. -/

namespace Augusta

/-! ### What Game policy is handed and takes -/

namespace Policy
open Lib (Binary32)

/-- One player in the Match as Game policy sees it. -/
structure PlayerView where
  entity : EntityId
  session : SessionId
  character : String
  alive : Bool
  health : Binary32
  /-- Whoever killed it, only on the tick it was killed. -/
  killer : Option EntityId
  deriving DecidableEq, Repr

structure MatchView where
  playerCount : UInt8
  players : List PlayerView
  deriving DecidableEq, Repr

/-- Every action the rules' `on_tick` may take. -/
inductive Action
  | matchEnd (winner : Option SessionId)
  deriving DecidableEq, Repr

def Action.isMatchEnd : Action → Bool
  | .matchEnd _ => true

/-- The Spawn point each player takes with no Game policy for it: in order, starting over. -/
def inOrderSpawns (players spawnPoints : ℕ) : List ℕ :=
  (List.range players).map fun i => i % spawnPoints

end Policy

namespace Simulation
open Lib (Binary32 Table)
open Prediction (Scene Rules Clips)

inductive Phase
  | commandIngestion | movement | weaponHandling | posing | ballistics | hitDetection | damage
  | scriptsBehaviours | commit
  deriving DecidableEq, Repr

/-! ### Players, bullets, and what a tick says of them -/

structure PlayerIdentity where
  session : SessionId := 0
  character : String := ""
  deriving DecidableEq, Repr

/-- A round its rifle fired this tick, which Posing is to fire from its Muzzle. -/
structure FiredRound where
  yaw : Binary32
  pitch : Binary32
  recoil : Weapon.RecoilOffset
  deriving DecidableEq, Repr

structure Player where
  identity : PlayerIdentity
  clips : Clips
  health : Binary32
  /-- What its Commands move; a dead player has none. -/
  living : Option Mover
  fired : Option FiredRound := none

structure Bullet where
  handle : ℕ
  shooter : EntityId
  yaw : Binary32
  pitch : Binary32
  deriving DecidableEq, Repr

structure EntityState where
  entity : EntityId
  body : Physics.BodyState
  yaw : Binary32
  pitch : Binary32
  ads : Bool
  health : Binary32
  rifle : Weapon.State
  deriving DecidableEq, Repr

structure Shot where
  shooter : EntityId
  origin : Math.Vec3
  yaw : Binary32
  pitch : Binary32
  deriving DecidableEq, Repr

structure Hit where
  shooter : EntityId
  target : EntityId
  damage : Binary32
  /-- The health the target has left after it. -/
  health : Binary32
  part : BodyPart
  reachedZero : Bool
  deriving DecidableEq, Repr

structure Death where
  victim : EntityId
  killer : EntityId
  yaw : Binary32
  pitch : Binary32
  part : BodyPart
  deriving DecidableEq, Repr

/-- A player a bullet struck this tick. -/
structure PlayerHit where
  shooter : EntityId
  target : EntityId
  yaw : Binary32
  pitch : Binary32
  part : BodyPart
  deriving DecidableEq, Repr

structure State where
  tick : Tick := 0
  bodies : List EntityState := []
  alive : List EntityId := []
  deaths : List Death := []
  shots : List Shot := []
  mapImpacts : List Math.Vec3 := []
  hits : List Hit := []
  bulletsInFlight : ℕ := 0
  deriving DecidableEq, Repr

structure TickResult where
  state : State
  actions : List Policy.Action
  deriving DecidableEq, Repr

structure World where
  parameters : Parameters
  collision : Physics.Collision
  tick : Tick := 0
  players : Table EntityId Player := ∅
  bullets : List Bullet := []
  bulletsFired : ℕ := 0
  /-- Whether Game policy has ended the Match. -/
  matchEnded : Bool := false

/-! ### What a tick is handed -/

/-- Where a rifle that fires is: its barrel clear, or in the Map from where it enters it. -/
inductive Barrel
  | clear (origin : Math.Vec3) (yaw pitch : Binary32)
  | inTheMap (origin : Math.Vec3) (yaw pitch : Binary32) (entry : Math.Vec3)

/-- Where a tick takes a bullet. -/
inductive Flight
  | inFlight
  | expired
  | map (point : Math.Vec3)
  | hitbox (target : EntityId) (part : BodyPart)

/-- What is outside the World in a tick: the order players and bullets are stored in, the rifles'
    barrels, the bullets' flights and Game policy. -/
structure Outside where
  order : Phase → List EntityId → List EntityId
  order_perm : ∀ phase entities, (order phase entities).Perm entities
  flightOrder : List Bullet → List Bullet
  flightOrder_perm : ∀ bullets, (flightOrder bullets).Perm bullets
  barrel : EntityId → FiredRound → Barrel
  /-- A bullet's, against the players it may strike. -/
  flight : Bullet → List EntityId → Flight
  struck_mem : ∀ bullet targets target part,
    flight bullet targets = .hitbox target part → target ∈ targets
  /-- Nothing where the hook takes no action, and where its call decides nothing. -/
  onTick : Policy.MatchView → Tick → Option Policy.Action

/-- A World part way through a tick. -/
structure Ticking where
  world : World
  state : State := {}
  playerHits : List PlayerHit := []
  actions : List Policy.Action := []

/-! ### The phases -/

/-- CommandIngestion, Movement and WeaponHandling of one player. -/
def Player.act (collision : Physics.Collision) (rules : Rules) (deltaTime : Binary32)
    (command : Option Command) (player : Player) : Player :=
  match player.living with
  | none => player
  | some mover =>
      let scene : Scene := ⟨collision, player.clips, deltaTime⟩
      let moved := (mover.onCommandIngestion command).onMovement scene rules
      let result := moved.onWeaponHandling scene rules command
      { player with
        living := some { moved with rifle := result.state }
        fired := if result.fired then some ⟨result.yaw, result.pitch, moved.rifle.recoil⟩
          else none }

namespace World
variable (world : World)

def rules : Rules := ⟨world.parameters.stamina, world.parameters.rifle⟩

def act (commands : Table EntityId Command) (deltaTime : Binary32) : World :=
  { world with players := world.players.mapEntries fun entity player =>
      player.act world.collision world.rules deltaTime (commands.lookup entity) }

/-- The living players: those with a body. -/
def living : List EntityId := (world.players.filter fun _ player => player.living.isSome).keys

/-- The round a living player's rifle fired this tick. -/
def firing (entity : EntityId) : Option FiredRound :=
  (world.players.lookup entity).bind fun player =>
    if player.living.isSome then player.fired else none

/-- Who a bullet of `shooter` may strike. -/
def targets (shooter : EntityId) : List EntityId := world.living.filter fun entity => entity ≠ shooter

end World

namespace Ticking
variable (ticking : Ticking)

/-- Announces `shot` and puts its bullet in flight. -/
def fire (shot : Shot) : Ticking :=
  { ticking with
    state := { ticking.state with shots := ticking.state.shots ++ [shot] }
    world := { ticking.world with
      bullets := ticking.world.bullets ++
        [⟨ticking.world.bulletsFired, shot.shooter, shot.yaw, shot.pitch⟩]
      bulletsFired := ticking.world.bulletsFired + 1 } }

/-- Announces `shot`, and its round on the Map where its barrel enters it: no bullet flies. -/
def fireIntoTheMap (shot : Shot) (entry : Math.Vec3) : Ticking :=
  { ticking with
    state := { ticking.state with
      shots := ticking.state.shots ++ [shot]
      mapImpacts := ticking.state.mapImpacts ++ [entry] } }

/-- Posing of one player, as far as it fires. -/
def onPosing (outside : Outside) (entity : EntityId) : Ticking :=
  match ticking.world.firing entity with
  | none => ticking
  | some round =>
      match outside.barrel entity round with
      | .clear origin yaw pitch =>
          ticking.fire ⟨entity, Math.snapPosition origin, Math.snapAngle yaw, Math.snapAngle pitch⟩
      | .inTheMap origin yaw pitch entry =>
          ticking.fireIntoTheMap
            ⟨entity, Math.snapPosition origin, Math.snapAngle yaw, Math.snapAngle pitch⟩ entry

/-- Ballistics and HitDetection of one bullet, taken out of the World beforehand. -/
def onBallistics (outside : Outside) (bullet : Bullet) : Ticking :=
  match outside.flight bullet (ticking.world.targets bullet.shooter) with
  | .inFlight =>
      { ticking with
        state := { ticking.state with bulletsInFlight := ticking.state.bulletsInFlight + 1 }
        world := { ticking.world with bullets := ticking.world.bullets ++ [bullet] } }
  | .expired => ticking
  | .map point =>
      { ticking with
        state := { ticking.state with mapImpacts := ticking.state.mapImpacts ++ [point] } }
  | .hitbox target part =>
      { ticking with
        playerHits := ticking.playerHits ++
          [⟨bullet.shooter, target, bullet.yaw, bullet.pitch, part⟩] }

end Ticking

/-- `DamageFor`. -/
def damageFor (damage : BodyPart.Damage) : BodyPart → Binary32
  | .head => damage.head
  | .torso => damage.torso
  | .limb => damage.limb

/-- A player, and what Damage has said of it so far. -/
structure Wounded where
  player : Player
  hits : List Hit := []
  deaths : List Death := []

/-- One of the tick's hits on a player, off its health. -/
def Wounded.takeHit (damage : BodyPart.Damage) (wounded : Wounded) (hit : PlayerHit) : Wounded :=
  let amount := damageFor damage hit.part
  let hadHealth := Binary32.zero.lt wounded.player.health
  let health := Binary32.less wounded.player.health amount
  let reachedZero := hadHealth && health.le .zero
  { player := { wounded.player with
      health
      living := if reachedZero then none else wounded.player.living }
    hits := wounded.hits ++ [⟨hit.shooter, hit.target, amount, health, hit.part, reachedZero⟩]
    deaths := wounded.deaths ++
      if reachedZero then [⟨hit.target, hit.shooter, hit.yaw, hit.pitch, hit.part⟩] else [] }

/-- Damage of one player: the tick's hits on it, in the order they struck. -/
def Player.onDamage (damage : BodyPart.Damage) (hits : List PlayerHit) (entity : EntityId)
    (player : Player) : Wounded :=
  (hits.filter fun hit => hit.target = entity).foldl (Wounded.takeHit damage) ⟨player, [], []⟩

def EntityState.ofPlayer (entity : EntityId) (player : Player) : Option EntityState :=
  player.living.map fun mover =>
    { entity, body := mover.body.state, yaw := mover.facing.yaw, pitch := mover.facing.pitch
      ads := mover.facing.ads, health := player.health, rifle := mover.rifle }

namespace World
variable (world : World)

/-- What Damage says of `entity`: nothing, where there is no such player. -/
def woundsOf (hits : List PlayerHit) (entity : EntityId) : List Wounded :=
  ((world.players.lookup entity).map fun player =>
    player.onDamage world.parameters.ammo.damage hits entity).toList

/-- `TickView`. -/
def view (deaths : List Death) : Policy.MatchView where
  playerCount := world.parameters.playerCount
  players := world.players.entries.map fun ⟨entity, player⟩ =>
    { entity, session := player.identity.session, character := player.identity.character
      alive := player.living.isSome, health := player.health
      killer := (deaths.find? fun death => death.victim = entity).map (·.killer) }

end World

namespace Ticking
variable (ticking : Ticking) (outside : Outside)

def posing : Ticking :=
  (outside.order .posing ticking.world.players.keys).foldl (fun t entity => t.onPosing outside entity)
    ticking

def ballistics : Ticking :=
  (outside.flightOrder ticking.world.bullets).foldl (fun t bullet => t.onBallistics outside bullet)
    { ticking with world := { ticking.world with bullets := [] } }

def damage : Ticking :=
  let wounded := (outside.order .damage ticking.world.players.keys).flatMap
    (ticking.world.woundsOf ticking.playerHits)
  { ticking with
    state := { ticking.state with
      hits := wounded.flatMap (·.hits)
      deaths := wounded.flatMap (·.deaths) }
    world := { ticking.world with players := ticking.world.players.mapEntries fun entity player =>
      (player.onDamage ticking.world.parameters.ammo.damage ticking.playerHits entity).player } }

def scriptsBehaviours : Ticking :=
  if ticking.world.players.size = 0 ∨ ticking.world.matchEnded then ticking
  else
    match outside.onTick (ticking.world.view ticking.state.deaths) ticking.world.tick with
    | none => ticking
    | some action =>
        { ticking with
          actions := ticking.actions ++ [action]
          world := { ticking.world with matchEnded := action.isMatchEnd } }

def commit : Ticking :=
  let bodies := (outside.order .commit ticking.world.players.keys).filterMap fun entity =>
    (ticking.world.players.lookup entity).bind (EntityState.ofPlayer entity)
  { ticking with state := { ticking.state with bodies, alive := bodies.map (·.entity) } }

end Ticking

/-- A State as it is given out, each list ordered by id. -/
def State.ordered (state : State) : State :=
  { state with
    bodies := state.bodies.insertionSort fun a b => a.entity ≤ b.entity
    alive := state.alive.insertionSort (· ≤ ·)
    deaths := state.deaths.insertionSort fun a b => a.victim ≤ b.victim
    shots := state.shots.insertionSort fun a b => a.shooter ≤ b.shooter
    hits := state.hits.insertionSort fun a b => a.target ≤ b.target }

namespace World
variable (world : World)

/-- A player's last Command of those handed a tick. -/
def commandsOf (commands : List (EntityId × Command)) : Table EntityId Command :=
  commands.foldl (fun table entry => table.insert entry.1 entry.2) ∅

/-- A tick up to where its State is ordered. -/
def progress (commands : List (EntityId × Command)) (deltaTime : Binary32) (outside : Outside) :
    Ticking :=
  let begun : Ticking :=
    { world := { world with tick := world.tick + 1 }.act (commandsOf commands) deltaTime
      state := { tick := world.tick + 1 } }
  (((begun.posing outside).ballistics outside).damage outside).scriptsBehaviours outside
    |>.commit outside

/-- `Tick`. -/
def ticked (commands : List (EntityId × Command)) (deltaTime : Binary32) (outside : Outside) :
    TickResult × World :=
  let done := world.progress commands deltaTime outside
  (⟨done.state.ordered, done.actions⟩, done.world)

/-! ### Matches -/

/-- A player of a Match about to start. -/
structure Entrant where
  entity : EntityId
  identity : PlayerIdentity
  clips : Clips
  spawn : Option Math.Vec3 := none

/-- A player the World already has is added no more. -/
def addPlayer (entity : EntityId) (spawn : Math.Vec3) (clips : Clips) (identity : PlayerIdentity) :
    World :=
  let player : Player :=
    { identity, clips, health := world.parameters.startingHealth
      living := some (.spawned world.rules spawn) }
  { world with players := world.players.emplace entity player }

def removePlayer (entity : EntityId) : World :=
  { world with players := world.players.erase entity }

def endMatch : World :=
  { world with players := ∅, bullets := [], bulletsFired := 0, matchEnded := false }

/-- The Spawn points of those that name none of their own, as Game policy `assigns` them. -/
def assignSpawns (assigns : Policy.MatchView → ℕ → Option (List ℕ)) (entrants : List Entrant)
    (spawnPoints : ℕ) : List ℕ :=
  let view : Policy.MatchView :=
    { playerCount := world.parameters.playerCount
      players := entrants.map fun entrant =>
        { entity := entrant.entity, session := entrant.identity.session
          character := entrant.identity.character, alive := true
          health := world.parameters.startingHealth, killer := none } }
  (assigns view spawnPoints).getD (Policy.inOrderSpawns entrants.length spawnPoints)

/-- Where each entrant spawns: where it says, or at the next point assigned. -/
def spawnsOf (points : List Math.Vec3) : List Entrant → List ℕ → List Math.Vec3
  | [], _ => []
  | entrant :: rest, indices =>
      match entrant.spawn with
      | some spawn => spawn :: spawnsOf points rest indices
      | none => points.getD (indices.headD 0) {} :: spawnsOf points rest indices.tail

/-- `StartMatch`: the World of the new Match, and where each player spawned. -/
def startMatch (assigns : Policy.MatchView → ℕ → Option (List ℕ)) (entrants : List Entrant)
    (spawnPoints : List Math.Vec3) : World × List Math.Vec3 :=
  let ended := world.endMatch
  -- a Map without Spawn points spawns everyone at the origin
  let origin : Math.Vec3 := {}
  let points := if spawnPoints = [] then [origin] else spawnPoints
  let assigned := entrants.filter fun entrant => entrant.spawn.isNone
  let indices := if assigned.isEmpty then [] else ended.assignSpawns assigns assigned points.length
  let spawned := spawnsOf points entrants indices
  ((entrants.zip spawned).foldl (fun w (entrant, spawn) =>
      w.addPlayer entrant.entity spawn entrant.clips entrant.identity) ended, spawned)

end World
end Simulation
end Augusta
