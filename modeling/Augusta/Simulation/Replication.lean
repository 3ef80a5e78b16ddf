import Augusta.Link.TickWire
import Augusta.Simulation.World

/-! `augusta::replication`: what of a tick's State each player is sent. -/

namespace Augusta.Simulation
open Lib (Binary32)

/-! ### How a round was judged -/

structure JudgedPlayer where
  entity : EntityId
  position : Math.Vec3 := {}
  stance : Physics.Stance := .standing
  yaw : Binary32 := .zero
  deriving DecidableEq

structure ShotJudgementEntry where
  ticksAfterShot : UInt32 := 0
  players : List JudgedPlayer := []
  deriving DecidableEq

/-- How the server judged one round, once its flight has ended. -/
structure ShotJudgement where
  shooter : EntityId
  shotTick : Tick := 0
  shootersDelay : Binary32 := .zero
  struck : Link.Struck := .nothing
  part : BodyPart := .torso
  point : Math.Vec3 := {}
  target : Option EntityId := none
  entries : List ShotJudgementEntry := []
  entriesLeftOut : Bool := false
  deriving DecidableEq

end Augusta.Simulation

namespace Augusta.Replication
open Lib (Binary32)
open Simulation (State EntityState)

/-- A player the tick's State goes to. -/
structure Recipient where
  entity : EntityId
  acknowledgedSequence : Sequence := 0
  queuedCommands : UInt8 := 0
  deriving DecidableEq, Repr

/-- What one recipient alone is told. -/
structure RecipientUpdate where
  entity : EntityId
  acknowledgedSequence : Sequence
  rifle : Weapon.State
  health : Binary32
  queuedCommands : UInt8
  deriving DecidableEq, Repr

structure Updates where
  tick : Tick
  bodies : List Link.EntityBody
  recipients : List RecipientUpdate
  deriving DecidableEq

/-- A hit, and whom it is confirmed to. -/
structure HitConfirmation where
  recipient : EntityId
  confirmed : Link.HitConfirmation
  deriving DecidableEq

/-- The body of the player who controls `entity`: the first not below it, if it is its. A dead
    player has none. -/
def bodyOf (state : State) (entity : EntityId) : Option EntityState :=
  (state.bodies.dropWhile fun body => body.entity < entity).head?.filter
    fun body => body.entity = entity

def planUpdates (state : State) (tick : Tick) (recipients : List Recipient) : Updates where
  tick := tick
  bodies := state.bodies.map fun body =>
    { entity := body.entity, body := body.body, yaw := body.yaw, pitch := body.pitch, ads := body.ads }
  recipients := recipients.map fun recipient =>
    let body := bodyOf state recipient.entity
    { entity := recipient.entity
      acknowledgedSequence := recipient.acknowledgedSequence
      rifle := (body.map (·.rifle)).getD {}
      health := (body.map (·.health)).getD .zero
      queuedCommands := recipient.queuedCommands }

def planShots (state : State) (tick : Tick) : List Link.Shot :=
  state.shots.map fun shot =>
    { shooter := shot.shooter, tick, origin := shot.origin, yaw := shot.yaw, pitch := shot.pitch }

def planHitConfirmations (state : State) : List HitConfirmation :=
  state.hits.map fun hit =>
    { recipient := hit.shooter
      confirmed := { target := hit.target, damage := hit.damage, part := hit.part } }

def planDeaths (state : State) : List Link.Death :=
  state.deaths.map fun death =>
    { victim := death.victim
      killer := death.killer
      yaw := death.yaw
      pitch := death.pitch
      part := death.part }

/-- The State a tick gives out is ordered by entity. -/
theorem ticked_bodies_ordered (world : Simulation.World) (commands : List (EntityId × Command))
    (deltaTime : Binary32) (outside : Simulation.Outside) :
    (world.ticked commands deltaTime outside).1.state.bodies.Pairwise
      fun a b => a.entity ≤ b.entity :=
  haveI : Std.Total fun a b : EntityState => a.entity ≤ b.entity :=
    ⟨fun a b => UInt32.le_total a.entity b.entity⟩
  haveI : IsTrans EntityState fun a b => a.entity ≤ b.entity := ⟨fun _ _ _ => UInt32.le_trans⟩
  List.pairwise_insertionSort _ _

/-- In a State ordered by entity, a player's body is the one that is its. -/
theorem bodyOf_eq_find? {state : State}
    (h : state.bodies.Pairwise fun a b => a.entity ≤ b.entity) (entity : EntityId) :
    bodyOf state entity = state.bodies.find? fun body => body.entity = entity := by
  rw [bodyOf]
  generalize state.bodies = bodies at h ⊢
  induction bodies with
  | nil => rfl
  | cons first rest ih =>
      obtain ⟨hfirst, hrest⟩ := List.pairwise_cons.mp h
      by_cases hbelow : first.entity < entity
      · have hother : first.entity ≠ entity := fun heq => UInt32.lt_irrefl _ (heq ▸ hbelow)
        rw [List.dropWhile_cons, if_pos (decide_eq_true hbelow), List.find?_cons_of_neg (by
          simpa using hother)]
        exact ih hrest
      · rw [List.dropWhile_cons, if_neg (by simpa using hbelow), List.head?_cons]
        by_cases hsame : first.entity = entity
        · rw [List.find?_cons_of_pos (by simpa using hsame)]
          simp [hsame]
        · have habove : entity < first.entity :=
            UInt32.lt_of_le_of_ne (UInt32.not_lt.mp hbelow) (Ne.symm hsame)
          have hnone : rest.find? (fun body => decide (body.entity = entity)) = none := by
            rw [List.find?_eq_none]
            intro body hmem heq
            have hle := hfirst body hmem
            rw [of_decide_eq_true heq] at hle
            exact UInt32.lt_irrefl _ (UInt32.lt_of_lt_of_le habove hle)
          rw [List.find?_cons_of_neg (by simpa using hsame), hnone]
          simp [hsame]

end Augusta.Replication
