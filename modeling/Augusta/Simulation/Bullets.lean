import Augusta.Gameplay.Ballistics
import Augusta.Simulation.World

/-! The World's bullets where they are kept: an ECS entity each, and `ballistics::World`.

      Posing      Shot ─▶ Fire ─▶ handle ──▶ entity {handle, shooter, …}
      Ballistics  entity ─▶ NextSegment(handle), Step(handle) ─▶ in flight │ entity destructed
      EndMatch    both emptied, handles counted from 0 again

    What moves a bullet, and what it strikes on the way, is not decided here. A handle that is not in
    flight has no Step: a tick that asks for one comes to nothing. -/

namespace Augusta.Simulation
open Lib (Binary32 Table)
open Ballistics (BulletHandle Moved Outcome)

/-- `Bullet`, the component of a bullet's entity. -/
structure TrackedBullet where
  handle : BulletHandle
  shooter : EntityId
  yaw : Binary32
  pitch : Binary32
  deriving DecidableEq, Repr

/-- What a bullet strikes: the Map, or a player's hitbox. -/
inductive Impact
  | map (point : Math.Vec3)
  | hitbox (target : EntityId) (part : BodyPart)
  deriving DecidableEq, Repr

/-- What is outside the World in a tick. The bullets are those of the two stores: what `outside` says
    of flights is not asked. -/
structure Surroundings (Body : Type) where
  outside : Outside
  entityOrder : List TrackedBullet → List TrackedBullet
  entityOrder_perm : ∀ bullets, (entityOrder bullets).Perm bullets
  /-- A Shot's bullet as it leaves the barrel. -/
  fired : Shot → Body
  /-- Where a Step takes a bullet, against the players it may strike. -/
  moved : TrackedBullet → List EntityId → Body → Moved Body Impact
  struck_mem : ∀ bullet targets body target part,
    (moved bullet targets body).nearest = some (.hitbox target part) → target ∈ targets

/-- The World: `core` is all but its bullets, and its own list of them is not used. -/
structure StoredWorld (Body : Type) where
  core : World
  tracked : List TrackedBullet := []
  ballistics : Ballistics.World Body := {}

/-! ### What a tick did to the bullets, beside what it computes -/

/-- A Shot announced, and where its round went. -/
inductive Announced
  | inTheMap (shot : Shot) (entry : Math.Vec3)
  | fired (shot : Shot) (bullet : TrackedBullet)

def Announced.shot : Announced → Shot
  | .inTheMap shot _ => shot
  | .fired shot _ => shot

/-- Where the barrel enters the Map. -/
def Announced.entry : Announced → Option Math.Vec3
  | .inTheMap _ entry => some entry
  | .fired _ _ => none

/-- The bullet put in flight. -/
def Announced.bullet : Announced → Option TrackedBullet
  | .inTheMap _ _ => none
  | .fired _ bullet => some bullet

/-- One Step of a bullet: which of its Steps, and what it came to. -/
structure Flown where
  bullet : TrackedBullet
  step : ℕ
  outcome : Outcome Impact

/-- Whether it flies on. -/
def Flown.inFlight (flown : Flown) : Bool :=
  match flown.outcome with
  | .inFlight => true
  | _ => false

/-- Where it struck the Map. -/
def Flown.mapPoint (flown : Flown) : Option Math.Vec3 :=
  match flown.outcome with
  | .struck (.map point) => some point
  | _ => none

/-- The player it struck. -/
def Flown.playerHit (flown : Flown) : Option PlayerHit :=
  match flown.outcome with
  | .struck (.hitbox target part) =>
      some ⟨flown.bullet.shooter, target, flown.bullet.yaw, flown.bullet.pitch, part⟩
  | _ => none

/-- A World part way through a tick. -/
structure Underway (Body : Type) where
  ticking : Ticking
  tracked : List TrackedBullet
  ballistics : Ballistics.World Body
  announced : List Announced := []
  flown : List Flown := []

/-! ### The phases -/

/-- What a Step's outcome says in the tick's State, or leaves to Damage. -/
def Ticking.land (ticking : Ticking) (flown : Flown) : Ticking :=
  match flown.outcome with
  | .inFlight =>
      { ticking with
        state := { ticking.state with bulletsInFlight := ticking.state.bulletsInFlight + 1 } }
  | .expired => ticking
  | .struck (.map point) =>
      { ticking with
        state := { ticking.state with mapImpacts := ticking.state.mapImpacts ++ [point] } }
  | .struck (.hitbox target part) =>
      { ticking with
        playerHits := ticking.playerHits ++
          [⟨flown.bullet.shooter, target, flown.bullet.yaw, flown.bullet.pitch, part⟩] }

namespace Underway
variable {Body : Type} (underway : Underway Body) (surroundings : Surroundings Body)

/-- `Fire`: announces `shot` and puts its bullet in flight. -/
def fire (shot : Shot) : Underway Body :=
  let (handle, ballistics) := underway.ballistics.fire (surroundings.fired shot)
  let bullet : TrackedBullet := ⟨handle, shot.shooter, shot.yaw, shot.pitch⟩
  { underway with
    ticking := { underway.ticking with
      state := { underway.ticking.state with shots := underway.ticking.state.shots ++ [shot] } }
    tracked := underway.tracked ++ [bullet]
    ballistics
    announced := underway.announced ++ [.fired shot bullet] }

/-- `FireIntoTheMap`. -/
def fireIntoTheMap (shot : Shot) (entry : Math.Vec3) : Underway Body :=
  { underway with
    ticking := underway.ticking.fireIntoTheMap shot entry
    announced := underway.announced ++ [.inTheMap shot entry] }

/-- Posing of one player, as far as it fires. -/
def onPosing (entity : EntityId) : Underway Body :=
  match underway.ticking.world.firing entity with
  | none => underway
  | some round =>
      match surroundings.outside.barrel entity round with
      | .clear origin yaw pitch =>
          underway.fire surroundings
            ⟨entity, Math.snapPosition origin, Math.snapAngle yaw, Math.snapAngle pitch⟩
      | .inTheMap origin yaw pitch entry =>
          underway.fireIntoTheMap
            ⟨entity, Math.snapPosition origin, Math.snapAngle yaw, Math.snapAngle pitch⟩ entry

/-- Ballistics of one bullet: the hitboxes near its next segment, then its Step. -/
def onBallistics (maxFlightSteps : ℕ) (bullet : TrackedBullet) : Option (Underway Body) := do
  -- `NextSegment`
  let flying ← underway.ballistics.bullets.lookup bullet.handle
  let targets := underway.ticking.world.targets bullet.shooter
  let (result, ballistics) ← underway.ballistics.step maxFlightSteps
    (surroundings.moved bullet targets) bullet.handle
  let flown : Flown := ⟨bullet, flying.steps + 1, result.outcome⟩
  some { underway with
    ticking := underway.ticking.land flown
    tracked := if flown.inFlight then underway.tracked ++ [bullet] else underway.tracked
    ballistics
    flown := underway.flown ++ [flown] }

def posing : Underway Body :=
  (surroundings.outside.order .posing underway.ticking.world.players.keys).foldl
    (fun underway entity => underway.onPosing surroundings entity) underway

/-- Every entity in turn; one that is destructed is tracked no more. -/
def ballisticsPhase (maxFlightSteps : ℕ) : Option (Underway Body) :=
  (surroundings.entityOrder underway.tracked).foldlM
    (fun underway bullet => underway.onBallistics surroundings maxFlightSteps bullet)
    { underway with tracked := [] }

end Underway

/-- What a tick announced, and every Step it made. -/
structure Report where
  announced : List Announced
  flown : List Flown

namespace StoredWorld
variable {Body : Type} (world : StoredWorld Body)

/-- `Tick`; nothing where a bullet's handle is not in flight. -/
def ticked (commands : List (EntityId × Command)) (deltaTime : Binary32)
    (surroundings : Surroundings Body) : Option (TickResult × Report × StoredWorld Body) := do
  let tick := world.core.tick + 1
  let begun : Underway Body :=
    { ticking :=
        { world := { world.core with tick }.act (World.commandsOf commands) deltaTime
          state := { tick } }
      tracked := world.tracked
      ballistics := world.ballistics }
  let flown ← (begun.posing surroundings).ballisticsPhase surroundings
    (Ballistics.maxFlightStepsOf deltaTime)
  let done := ((flown.ticking.damage surroundings.outside).scriptsBehaviours
    surroundings.outside).commit surroundings.outside
  some (⟨done.state.ordered, done.actions⟩, ⟨flown.announced, flown.flown⟩,
    ⟨done.world, flown.tracked, flown.ballistics⟩)

/-- `RemovePlayer`; its bullets fly on. -/
def removePlayer (entity : EntityId) : StoredWorld Body :=
  { world with core := world.core.removePlayer entity }

/-- `EndMatch`. -/
def endMatch : StoredWorld Body := ⟨world.core.endMatch, [], {}⟩

/-- `StartMatch`. -/
def startMatch (assigns : Policy.MatchView → ℕ → Option (List ℕ)) (entrants : List World.Entrant)
    (spawnPoints : List Math.Vec3) : StoredWorld Body × List Math.Vec3 :=
  let started := world.core.startMatch assigns entrants spawnPoints
  (⟨started.1, [], {}⟩, started.2)

end StoredWorld
end Augusta.Simulation
