import Augusta.Lib.Arithmetic
import Augusta.Link.CaptureRecords
import Augusta.Protocol.Readdress

/-! What a tick's messages carry on the wire, and an Authoritative State readdressed from one
    recipient to another.

      encode state ──▶ [ tick, bodies │ one recipient's own ]
                                       ▼ the bytes before stay
      readdressed  ──▶ [ tick, bodies │ another's own ]                -/

namespace Augusta.Link
open Lib (Binary32)
open Lib.Protobuf
open Protocol

/-! ### The messages -/

def bodyPartToWire : BodyPart → BodyPartWire
  | .head => .head
  | .torso => .torso
  | .limb => .limb

def struckToWire : Struck → StruckWire
  | .nothing => .nothing
  | .map => .map
  | .prop => .prop
  | .hitbox => .hitbox

def kExhausted : UInt8 := 1

def kAds : UInt8 := 2

def kGrounded : UInt8 := 4

def bodyStateToWire (body : Physics.BodyState) : BodyStateWire where
  position := body.position
  velocity := body.velocity
  stamina := body.stamina
  flags := (if body.exhausted then kExhausted else 0) ||| (if body.grounded then kGrounded else 0)
  stance := stanceToWire body.stance
  stride := body.stride
  previousStance := stanceToWire body.previousStance
  stanceProgress := body.stanceProgress

/-- Aiming down sights shares the body's flags. -/
def entityBodyToWire (body : EntityBody) : EntityStateWire where
  entity := body.entity
  body :=
    let wire := bodyStateToWire body.body
    { wire with flags := wire.flags ||| (if body.ads then kAds else 0) }
  yaw := body.yaw
  pitch := body.pitch

/-- `FillRecipientFields`, of the wire's state. -/
def fillWireFields (state : AuthoritativeStateWire) (recipient : AuthoritativeState) :
    AuthoritativeStateWire :=
  { state with
    rifle :=
      { cooldown := recipient.rifle.cooldown
        reloadRemaining := recipient.rifle.reloadRemaining
        recoilPitch := recipient.rifle.recoil.pitch
        recoilYaw := recipient.rifle.recoil.yaw
        rounds := recipient.rifle.rounds
        burstIndex := recipient.rifle.burstIndex }
    health := recipient.health
    acknowledgedSequence := recipient.acknowledgedSequence
    queuedCommands := recipient.queuedCommands }

def stateToWire (state : AuthoritativeState) : AuthoritativeStateWire :=
  fillWireFields { tick := state.tick, bodies := state.bodies.map entityBodyToWire } state

def shotToWire (shot : Shot) : ShotWire where
  tick := shot.tick
  origin := shot.origin
  shooter := shot.shooter
  yaw := shot.yaw
  pitch := shot.pitch

def hitToWire (hit : HitConfirmation) : HitConfirmationWire where
  target := hit.target
  damage := hit.damage
  part := bodyPartToWire hit.part

def deathToWire (death : Death) : DeathWire where
  victim := death.victim
  killer := death.killer
  yaw := death.yaw
  pitch := death.pitch
  part := bodyPartToWire death.part

/-- 255 -/
def kMaxDelayTicks : Binary32 := ⟨0x437F0000⟩

/-- The whole part of a number of ticks that is not negative. -/
def wholeTicks (delay : Binary32) : ℕ := (delay.units / 2 ^ 149).toNat

def judgementToWire (judgement : ShotJudgement) : ShotJudgementWire :=
  let delay :=
    if judgement.shootersDelay.lt .zero then Binary32.zero
    else if kMaxDelayTicks.lt judgement.shootersDelay then kMaxDelayTicks
    else judgement.shootersDelay
  let whole := wholeTicks delay
  { shotTick := judgement.shotTick
    entries := judgement.entries.map fun entry =>
      { players := entry.players.map fun player =>
          { position := player.position
            entity := player.entity
            yaw := player.yaw
            stance := stanceToWire player.stance }
        ticksAfterShot := entry.ticksAfterShot }
    point := judgement.point
    target := judgement.target.getD 0
    delayFraction := delay.sub (.ofInt whole)
    delayTicks := UInt8.ofNat whole
    struck := struckToWire judgement.struck
    part := bodyPartToWire judgement.part
    flags := if judgement.entriesLeftOut then 1 else 0 }

/-- One of a tick's messages. -/
inductive TickMessage
  | authoritativeState (state : AuthoritativeState)
  | shot (shot : Shot)
  | hitConfirmation (hit : HitConfirmation)
  | death (death : Death)
  | shotJudgement (judgement : ShotJudgement)
  deriving DecidableEq

def TickMessage.toWire : TickMessage → MessageWire
  | .authoritativeState told => .authoritativeState (stateToWire told)
  | .shot told => .shot (shotToWire told)
  | .hitConfirmation told => .hitConfirmation (hitToWire told)
  | .death told => .death (deathToWire told)
  | .shotJudgement told => .shotJudgement (judgementToWire told)

/-! ### Encoded to be sent -/

/-- A message encoded, and the type it travels as. -/
structure Outgoing where
  type : MessageTypeWire
  payload : Bytes
  deriving DecidableEq

/-- `OutgoingAccess::Make`. -/
def encode (message : TickMessage) : Except EncodeError Outgoing :=
  (fun payload => ⟨typeOfPayload payload, payload⟩) <$> Protocol.encode isUtf8 message.toWire

/-- The same state, told another recipient: only its own fields are converted. -/
def readdressed (state : Outgoing) (recipient : AuthoritativeState) :
    Except EncodeError Outgoing :=
  if state.type ≠ 5 then .error .notAnAuthoritativeState
  else
    match readdress state.payload (fillWireFields {} recipient) with
    | (.ok (), payload) => .ok ⟨state.type, payload⟩
    | (.error error, _) => .error error

theorem encode_eq_ok {message : TickMessage} {outgoing : Outgoing} :
    encode message = .ok outgoing ↔ ∃ payload,
      Protocol.encode isUtf8 message.toWire = .ok payload ∧
        outgoing = ⟨typeOf message.toWire, payload⟩ := by
  rw [encode, Except.map_eq_ok]
  refine exists_congr fun payload => and_congr_right fun hpayload => ?_
  obtain ⟨written, hwritten, rfl⟩ := Except.map_eq_ok.mp hpayload
  rw [MessageWire.type_write hwritten, eq_comm]

/-- Whether a state can be encoded, and why not, is its bodies' alone. -/
theorem encode_state_error {state other : AuthoritativeState} {error : EncodeError}
    (hbodies : state.bodies = other.bodies)
    (h : encode (.authoritativeState state) = .error error) :
    encode (.authoritativeState other) = .error error := by
  have hshared : (stateToWire state).bodies = (stateToWire other).bodies := by
    simp only [stateToWire, fillWireFields, hbodies]
  simp only [encode, Protocol.encode, TickMessage.toWire, MessageWire.write,
    AuthoritativeStateWire.write, hshared] at h ⊢
  cases hlist : writeList (stateToWire other).bodies Limits.kMaxPlayers EntityStateWire.write with
  | error failed =>
      rw [hlist] at h
      exact h
  | ok bodies =>
      rw [hlist] at h
      cases h

/-- One encoding, readdressed, is the message that encoding the other recipient's state from scratch
    gives. -/
theorem encode_bind_readdressed {first own : AuthoritativeState} (htick : first.tick = own.tick)
    (hbodies : first.bodies = own.bodies) :
    (encode (.authoritativeState first) >>= fun shared => readdressed shared own) =
      encode (.authoritativeState own) := by
  cases hfirst : encode (.authoritativeState first) with
  | error error =>
      rw [encode_state_error hbodies hfirst]
      rfl
  | ok shared =>
      obtain ⟨payload, hpayload, rfl⟩ := encode_eq_ok.mp hfirst
      obtain ⟨other, hother, hreaddress⟩ :=
        (readdress_encode (show Protocol.encode isUtf8 (.authoritativeState (stateToWire first)) = _
          from hpayload)).1 (fillWireFields {} own)
      have haddressed : (stateToWire first).addressed (fillWireFields {} own) = stateToWire own := by
        simp only [AuthoritativeStateWire.addressed, stateToWire, fillWireFields, htick, hbodies]
      rw [haddressed] at hother
      have htype : typeOf (TickMessage.authoritativeState first).toWire = 5 := rfl
      have hown : encode (.authoritativeState own) = .ok ⟨5, other⟩ :=
        encode_eq_ok.mpr ⟨other, hother, rfl⟩
      rw [Except.ok_bind, hown]
      simp only [readdressed, htype, ne_eq, not_true_eq_false, if_false, hreaddress]

end Augusta.Link
