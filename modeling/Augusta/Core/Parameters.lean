import Augusta.Core.Command
import Augusta.Lib.Outcome

/-! The parameters a server runs a Match on and tells its clients: the stamina rules, the rifle, its
    ammunition, the health players start with and how many play. -/

namespace Augusta
open Lib (Binary32)

inductive BodyPart
  | head | torso | limb
  deriving DecidableEq, Repr, Inhabited

structure BodyPart.Damage where
  head : Binary32 := .zero
  torso : Binary32 := .zero
  limb : Binary32 := .zero
  deriving DecidableEq, Repr, Inhabited

structure Physics.StaminaConfig where
  depletePerSecond : Binary32 := .zero
  regenPerSecond : Binary32 := .zero
  forcedWalkBelow : Binary32 := .zero
  deriving DecidableEq, Repr, Inhabited

structure Ballistics.BulletConfig where
  gravity : Binary32 := .zero
  maxRange : Binary32 := .zero
  deriving DecidableEq, Repr, Inhabited

namespace Weapon

structure RecoilKick where
  pitch : Binary32 := .zero
  yaw : Binary32 := .zero
  deriving DecidableEq, Repr, Inhabited

structure Rifle where
  roundsPerMinute : Binary32 := .one
  muzzleVelocity : Binary32 := .one
  reloadSeconds : Binary32 := .zero
  recoilRecoveryPerSecond : Binary32 := .zero
  adsRecoilScale : Binary32 := .one
  adsFieldOfView : Binary32 := .one
  zeroRange : Binary32 := .one
  recoilPattern : List RecoilKick := []
  magazineCapacity : UInt8 := 1
  deriving DecidableEq, Repr, Inhabited

structure Ammo where
  flight : Ballistics.BulletConfig := { maxRange := .one }
  damage : BodyPart.Damage := {}
  deriving DecidableEq, Repr, Inhabited

end Weapon

namespace Limits

def kMaxPlayers : ℕ := 8

def kMaxRecoilKicks : ℕ := 64

def kMaxShotJudgementEntries : ℕ := 16

end Limits

structure Parameters where
  stamina : Physics.StaminaConfig := {}
  rifle : Weapon.Rifle := {}
  ammo : Weapon.Ammo := {}
  startingHealth : Binary32 := .one
  playerCount : UInt8 := 1
  deriving DecidableEq, Repr, Inhabited

namespace Parameters

/-- The parameter that is out of its bounds, by its path in the configuration. -/
structure InvalidParameter where
  path : String
  deriving DecidableEq, Repr

/-- A finite number of at least `min`. -/
def finiteAndAtLeast (value min : Binary32) : Bool := value.isFinite && min.le value

/-- A finite number above `min`. -/
def finiteAndAbove (value min : Binary32) : Bool := value.isFinite && min.lt value

/-- One check of the parameter at `path`. -/
def require (holds : Bool) (path : String) : Except InvalidParameter Unit :=
  if holds then .ok () else .error ⟨path⟩

/-- `π` as a binary32. -/
def pi : Binary32 := ⟨0x40490FDB⟩

def validateStamina (stamina : Physics.StaminaConfig) : Except InvalidParameter Unit := do
  require (finiteAndAtLeast stamina.depletePerSecond .zero) "stamina.deplete_per_second"
  require (finiteAndAtLeast stamina.regenPerSecond .zero) "stamina.regen_per_second"
  require (finiteAndAtLeast stamina.forcedWalkBelow .zero && !Binary32.one.le stamina.forcedWalkBelow)
    "stamina.forced_walk_below"

def validateRifle (rifle : Weapon.Rifle) : Except InvalidParameter Unit := do
  require (finiteAndAbove rifle.roundsPerMinute .zero) "rifle.rounds_per_minute"
  require (finiteAndAbove rifle.muzzleVelocity .zero) "rifle.muzzle_velocity"
  require (finiteAndAtLeast rifle.reloadSeconds .zero) "rifle.reload_seconds"
  require (finiteAndAtLeast rifle.recoilRecoveryPerSecond .zero) "rifle.recoil_recovery_per_second"
  require (finiteAndAbove rifle.adsRecoilScale .zero && !Binary32.one.lt rifle.adsRecoilScale)
    "rifle.ads_recoil_scale"
  require (finiteAndAbove rifle.adsFieldOfView .zero && !pi.le rifle.adsFieldOfView)
    "rifle.ads_field_of_view"
  require (finiteAndAbove rifle.zeroRange .zero) "rifle.zero_range"
  require (rifle.recoilPattern.length ≤ Limits.kMaxRecoilKicks) "rifle.recoil_pattern"
  require (rifle.recoilPattern.all fun kick => kick.pitch.isFinite && kick.yaw.isFinite)
    "rifle.recoil_pattern"
  require (1 ≤ rifle.magazineCapacity) "rifle.magazine_capacity"

def validateAmmo (ammo : Weapon.Ammo) : Except InvalidParameter Unit := do
  require (finiteAndAtLeast ammo.flight.gravity .zero) "ammo.gravity"
  require (finiteAndAbove ammo.flight.maxRange .zero) "ammo.max_range"
  require (finiteAndAtLeast ammo.damage.head .zero) "ammo.damage.head"
  require (finiteAndAtLeast ammo.damage.torso .zero) "ammo.damage.torso"
  require (finiteAndAtLeast ammo.damage.limb .zero) "ammo.damage.limb"

def validate (parameters : Parameters) : Except InvalidParameter Unit := do
  require (1 ≤ parameters.playerCount ∧ parameters.playerCount.toNat ≤ Limits.kMaxPlayers)
    "player_count"
  validateStamina parameters.stamina
  validateRifle parameters.rifle
  validateAmmo parameters.ammo
  require (finiteAndAbove parameters.startingHealth .zero) "starting_health"

def isValidTickRate (tickRateHz : UInt8) : Bool := 0 < tickRateHz

theorem require_eq_ok {holds : Bool} {path : String} {u : Unit} :
    require holds path = .ok u ↔ holds = true := by
  rw [require]
  split <;> simp_all

theorem validateStamina_eq_ok {stamina : Physics.StaminaConfig} {u : Unit} :
    validateStamina stamina = .ok u ↔
      finiteAndAtLeast stamina.depletePerSecond .zero = true ∧
        finiteAndAtLeast stamina.regenPerSecond .zero = true ∧
        (finiteAndAtLeast stamina.forcedWalkBelow .zero &&
          !Binary32.one.le stamina.forcedWalkBelow) = true := by
  simp only [validateStamina, Except.bind_eq_ok, require_eq_ok]
  simp

/-- What a Match is played by once its Parameters are checked. -/
structure Checked (parameters : Parameters) : Prop where
  playerCount : 1 ≤ parameters.playerCount ∧ parameters.playerCount.toNat ≤ Limits.kMaxPlayers
  roundsPerMinute : finiteAndAbove parameters.rifle.roundsPerMinute .zero = true
  reloadSeconds : finiteAndAtLeast parameters.rifle.reloadSeconds .zero = true
  head : finiteAndAtLeast parameters.ammo.damage.head .zero = true
  torso : finiteAndAtLeast parameters.ammo.damage.torso .zero = true
  limb : finiteAndAtLeast parameters.ammo.damage.limb .zero = true
  startingHealth : finiteAndAbove parameters.startingHealth .zero = true

theorem checked_of_validate {parameters : Parameters} (h : parameters.validate = .ok ()) :
    Checked parameters := by
  obtain ⟨_, hcount, h⟩ := Except.bind_eq_ok.mp h
  obtain ⟨_, -, h⟩ := Except.bind_eq_ok.mp h
  obtain ⟨_, hrifle, h⟩ := Except.bind_eq_ok.mp h
  obtain ⟨_, hammo, hhealth⟩ := Except.bind_eq_ok.mp h
  simp only [validateRifle, Except.bind_eq_ok, require_eq_ok] at hrifle
  simp only [validateAmmo, Except.bind_eq_ok, require_eq_ok] at hammo
  obtain ⟨_, hrate, _, -, _, hreload, -⟩ := hrifle
  obtain ⟨_, -, _, -, _, hhead, _, htorso, hlimb⟩ := hammo
  exact ⟨of_decide_eq_true (require_eq_ok.mp hcount), hrate, hreload, hhead, htorso, hlimb,
    require_eq_ok.mp hhealth⟩

end Parameters

/-- What an untouched configuration holds is a Match that can be played. -/
example : (({} : Parameters).validate) = .ok () := rfl

end Augusta
