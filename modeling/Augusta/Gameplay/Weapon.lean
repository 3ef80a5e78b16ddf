import Augusta.Lib.Arithmetic
import Augusta.Link.Messages
import Augusta.Math.Grid

/-! `augusta::weapon`: one tick of a player's rifle, the same function on both sides.

      trigger held :  fire ── cooldown ── fire ── cooldown ── …      each round kicks the rifle
      let go       :  ────────── recovers to the view ──────────
      reloading    :  ── reloadRemaining ─▶ 0, a full magazine

    The rifle travels exactly, so the two sides compare theirs with no tolerance. -/

namespace Augusta.Weapon
open Lib (Binary32)

def kSecondsPerMinute : Binary32 := .ofInt 60

/-- 1e-4: a wait with this little left is over. -/
def kReadyWithin : Binary32 := ⟨0x38D1B717⟩

/-- What the rifle points off the view by once the round it just fired has kicked it. -/
def kicked (rifle : Rifle) (state : State) (ads : Bool) : RecoilOffset :=
  match rifle.recoilPattern with
  | [] => state.recoil
  | first :: rest =>
      -- past the pattern's end the last kick again
      let kick := (first :: rest).getD (min state.burstIndex.toNat rest.length) first
      let scale := if ads then rifle.adsRecoilScale else .one
      { pitch := Math.snapAngle (state.recoil.pitch.add (kick.pitch.mul scale))
        yaw := Math.snapAngle (state.recoil.yaw.add (kick.yaw.mul scale)) }

/-- `recoil` after shrinking by `angle` toward zero, along its own line. -/
def recovered (recoil : RecoilOffset) (angle : Binary32) : RecoilOffset :=
  let length := ((recoil.pitch.mul recoil.pitch).add (recoil.yaw.mul recoil.yaw)).sqrt
  if length.le angle then {}
  else
    let kept := (length.sub angle).div length
    { pitch := Math.snapAngle (recoil.pitch.mul kept)
      yaw := Math.snapAngle (recoil.yaw.mul kept) }

/-- A full magazine, ready to fire along the view. -/
def loaded (rifle : Rifle) : State where
  rounds := rifle.magazineCapacity

structure Result where
  state : State
  yaw : Binary32 := .zero
  pitch : Binary32 := .zero
  fired : Bool := false
  deriving DecidableEq, Repr

section
variable (rifle : Rifle) (state : State) (command : Command)

def startsReload : Bool :=
  command.reload && state.reloadRemaining.le .zero && state.rounds < rifle.magazineCapacity

def reloading : Bool := startsReload rifle state command || Binary32.zero.lt state.reloadRemaining

/-- An empty magazine pulls no trigger, and neither does a rifle being reloaded. -/
def trigger : Bool := command.fire && 0 < state.rounds && !reloading rifle state command

def fires : Bool := trigger rifle state command && state.cooldown.le kReadyWithin

/-- The time left once `deltaTime` has passed: held, the trigger keeps no more than the tick a round
    has been ready for; let go, it keeps none. -/
def cooled (deltaTime : Binary32) : Binary32 :=
  let cooldown :=
    if fires rifle state command then
      state.cooldown.add (kSecondsPerMinute.div rifle.roundsPerMinute)
    else state.cooldown
  (cooldown.sub deltaTime).max (if trigger rifle state command then deltaTime.neg else .zero)

def recoiled (deltaTime : Binary32) : RecoilOffset :=
  if fires rifle state command then kicked rifle state command.ads
  else if trigger rifle state command then state.recoil
  else recovered state.recoil (rifle.recoilRecoveryPerSecond.mul deltaTime)

/-- The reload's time left, and whether it ended on this tick. -/
def reloaded (deltaTime : Binary32) : Binary32 × Bool :=
  let remaining := if startsReload rifle state command then rifle.reloadSeconds
    else state.reloadRemaining
  if ¬ reloading rifle state command then (remaining, false)
  else if (remaining.sub deltaTime).le kReadyWithin then (.zero, true)
  else (remaining.sub deltaTime, false)

/-- One fixed tick of `deltaTime` seconds on `command`. -/
def step (deltaTime : Binary32) : Result :=
  let fired := fires rifle state command
  let reload := reloaded rifle state command deltaTime
  { state :=
      { cooldown := cooled rifle state command deltaTime
        reloadRemaining := reload.1
        recoil := recoiled rifle state command deltaTime
        rounds := if reload.2 then rifle.magazineCapacity
          else if fired then state.rounds - 1 else state.rounds
        burstIndex := if fired then state.burstIndex + 1
          else if trigger rifle state command then state.burstIndex else 0 }
    yaw := if fired then command.yaw.add state.recoil.yaw else .zero
    pitch := if fired then command.pitch.add state.recoil.pitch else .zero
    fired }

end

/-! ### Rifles that compare equal -/

/-- `==` of two offsets, and below of two rifles: each float as C++ compares it. -/
def RecoilOffset.eq (a b : RecoilOffset) : Bool := a.pitch.eq b.pitch && a.yaw.eq b.yaw

def State.eq (a b : State) : Bool :=
  a.cooldown.eq b.cooldown && a.reloadRemaining.eq b.reloadRemaining && a.recoil.eq b.recoil &&
    a.rounds = b.rounds && a.burstIndex = b.burstIndex

/-- The same offset but for the signs of its zeros. -/
structure RecoilOffset.Same (a b : RecoilOffset) : Prop where
  pitch : a.pitch.Same b.pitch
  yaw : a.yaw.Same b.yaw

/-- The same rifle but for the signs of its zeros, which nothing it does tells apart. -/
structure State.Same (a b : State) : Prop where
  cooldown : a.cooldown.Same b.cooldown
  reloadRemaining : a.reloadRemaining.Same b.reloadRemaining
  recoil : a.recoil.Same b.recoil
  rounds : a.rounds = b.rounds
  burstIndex : a.burstIndex = b.burstIndex

theorem RecoilOffset.Same.refl (a : RecoilOffset) : a.Same a := ⟨.refl _, .refl _⟩

theorem State.Same.refl (a : State) : a.Same a := ⟨.refl _, .refl _, .refl _, rfl, rfl⟩

theorem State.Same.symm {a b : State} (h : a.Same b) : b.Same a :=
  ⟨h.cooldown.symm, h.reloadRemaining.symm, ⟨h.recoil.pitch.symm, h.recoil.yaw.symm⟩,
    h.rounds.symm, h.burstIndex.symm⟩

theorem State.same_of_eq {a b : State} (h : a.eq b = true) : a.Same b := by
  simp only [State.eq, RecoilOffset.eq, Bool.and_eq_true, decide_eq_true_eq] at h
  obtain ⟨⟨⟨⟨hcooldown, hreload⟩, hpitch, hyaw⟩, hrounds⟩, hburst⟩ := h
  exact ⟨Binary32.same_of_eq hcooldown, Binary32.same_of_eq hreload,
    ⟨Binary32.same_of_eq hpitch, Binary32.same_of_eq hyaw⟩, hrounds, hburst⟩

/-- A zero's sign does not reach the grid. -/
theorem snapAngle_same {x y : Binary32} (h : x.Same y) : Math.snapAngle x = Math.snapAngle y := by
  rcases h with rfl | ⟨hx, hy⟩
  · rfl
  · have hsteps {z : Binary32} (hz : z.magnitude = 0) : Math.toSteps z Math.kAngleGrid = 0 := by
      have hfinite := Binary32.isFinite_of_magnitude_eq_zero hz
      have hsignificand : z.significand = 0 := by
        simp [Binary32.significand, Binary32.exponent_eq, Binary32.fraction_eq, hz]
      have hround : z.roundScaled Math.kAngleGrid.shift = 0 := by
        simp [Binary32.roundScaled, hsignificand, Binary32.roundHalfEven]
      rw [Math.toSteps, Binary32.isNaN_of_isFinite hfinite, hfinite, hround]
      rfl
    rw [Math.snapAngle, Math.snap, Math.snapAngle, Math.snap, hsteps hx, hsteps hy]

theorem recovered_same {a b : RecoilOffset} (h : a.Same b) (angle : Binary32) :
    recovered a angle = recovered b angle := by
  simp only [recovered, h.pitch.mul_self_eq, h.yaw.mul_self_eq, snapAngle_same (h.pitch.mul_left _),
    snapAngle_same (h.yaw.mul_left _)]

theorem kicked_same {a b : State} (h : a.Same b) (rifle : Rifle) (ads : Bool) :
    (kicked rifle a ads).Same (kicked rifle b ads) := by
  unfold kicked
  split
  · exact h.recoil
  · simp only [h.burstIndex, snapAngle_same (h.recoil.pitch.add_left _),
      snapAngle_same (h.recoil.yaw.add_left _)]
    exact .refl _

section
variable {a b : State} (h : a.Same b) (rifle : Rifle) (command : Command)
include h

theorem startsReload_same : startsReload rifle a command = startsReload rifle b command := by
  rw [startsReload, startsReload, h.reloadRemaining.le_left, h.rounds]

theorem reloading_same : reloading rifle a command = reloading rifle b command := by
  rw [reloading, reloading, startsReload_same h, h.reloadRemaining.lt_right]

theorem trigger_same : trigger rifle a command = trigger rifle b command := by
  rw [trigger, trigger, reloading_same h, h.rounds]

theorem fires_same : fires rifle a command = fires rifle b command := by
  rw [fires, fires, trigger_same h, h.cooldown.le_left]

theorem cooled_same (deltaTime : Binary32) :
    (cooled rifle a command deltaTime).Same (cooled rifle b command deltaTime) := by
  rw [cooled, cooled, fires_same h, trigger_same h]
  refine Binary32.Same.max_left ?_ _
  split
  · exact (h.cooldown.add_left _).sub_left _
  · exact h.cooldown.sub_left _

theorem recoiled_same (deltaTime : Binary32) :
    (recoiled rifle a command deltaTime).Same (recoiled rifle b command deltaTime) := by
  rw [recoiled, recoiled, fires_same h, trigger_same h, recovered_same h.recoil]
  split
  · exact kicked_same h rifle command.ads
  · split
    · exact h.recoil
    · exact .refl _

theorem reloaded_same (deltaTime : Binary32) :
    (reloaded rifle a command deltaTime).1.Same (reloaded rifle b command deltaTime).1 ∧
      (reloaded rifle a command deltaTime).2 = (reloaded rifle b command deltaTime).2 := by
  obtain ⟨x, hx⟩ : ∃ x, x = if startsReload rifle b command then rifle.reloadSeconds
    else a.reloadRemaining := ⟨_, rfl⟩
  obtain ⟨y, hy⟩ : ∃ y, y = if startsReload rifle b command then rifle.reloadSeconds
    else b.reloadRemaining := ⟨_, rfl⟩
  have hremaining : x.Same y := by
    rw [hx, hy]
    split
    · exact .refl _
    · exact h.reloadRemaining
  unfold reloaded
  rw [startsReload_same h, reloading_same h, ← hx, ← hy]
  simp only [(hremaining.sub_left deltaTime).le_left]
  split
  · exact ⟨hremaining, rfl⟩
  · split
    · exact ⟨.refl _, rfl⟩
    · exact ⟨hremaining.sub_left deltaTime, rfl⟩

/-- Rifles that compare equal stay so, whatever is commanded. -/
theorem step_same (deltaTime : Binary32) :
    (step rifle a command deltaTime).state.Same (step rifle b command deltaTime).state := by
  obtain ⟨hreload, hended⟩ := reloaded_same h rifle command deltaTime
  refine ⟨cooled_same h rifle command deltaTime, hreload, recoiled_same h rifle command deltaTime,
    ?_, ?_⟩
  · simp only [step, hended, fires_same h, h.rounds]
  · simp only [step, fires_same h, trigger_same h, h.burstIndex]

end

/-! ### A rifle's times are numbers -/

structure RecoilOffset.Numbers (recoil : RecoilOffset) : Prop where
  pitch : recoil.pitch.isNaN = false
  yaw : recoil.yaw.isNaN = false

/-- No time of the rifle is a NaN, so that it compares equal to itself. -/
structure State.Numbers (state : State) : Prop where
  cooldown : state.cooldown.Held
  reloadRemaining : state.reloadRemaining.isNaN = false
  recoil : state.recoil.Numbers

theorem RecoilOffset.numbers_zero : ({} : RecoilOffset).Numbers := by
  constructor
  · decide
  · decide

theorem State.Numbers.eq_self {state : State} (h : state.Numbers) : state.eq state = true := by
  simp [State.eq, RecoilOffset.eq, Binary32.eq_self h.cooldown.1,
    Binary32.eq_self h.reloadRemaining, Binary32.eq_self h.recoil.pitch,
    Binary32.eq_self h.recoil.yaw]

/-- Values a rifle can be stepped by. -/
structure Usable (rifle : Rifle) (deltaTime : Binary32) : Prop where
  rate : rifle.roundsPerMinute.isFinite = true ∧ rifle.roundsPerMinute.magnitude ≠ 0 ∧
    rifle.roundsPerMinute.negative = false
  reload : rifle.reloadSeconds.isNaN = false
  deltaTime : deltaTime.isFinite = true

theorem numbers_loaded (rifle : Rifle) : (loaded rifle).Numbers where
  cooldown := (by decide : Binary32.zero.isNaN = false ∧
    (Binary32.zero.isFinite = true ∨ Binary32.zero.negative = false))
  reloadRemaining := (by decide : Binary32.zero.isNaN = false)
  recoil := RecoilOffset.numbers_zero

theorem snapAngle_not_isNaN (x : Binary32) : (Math.snapAngle x).isNaN = false :=
  Math.isFinite_not_isNaN (Math.snap_isFinite x _)

theorem numbers_recoiled {rifle : Rifle} {state : State} (h : state.recoil.Numbers)
    (command : Command) (deltaTime : Binary32) :
    (recoiled rifle state command deltaTime).Numbers := by
  unfold recoiled kicked recovered
  simp only
  split_ifs
  · split
    · exact h
    · exact ⟨snapAngle_not_isNaN _, snapAngle_not_isNaN _⟩
  · split
    · exact h
    · exact ⟨snapAngle_not_isNaN _, snapAngle_not_isNaN _⟩
  · exact h
  · exact RecoilOffset.numbers_zero
  · exact ⟨snapAngle_not_isNaN _, snapAngle_not_isNaN _⟩

theorem numbers_step {rifle : Rifle} {deltaTime : Binary32} (husable : Usable rifle deltaTime)
    {state : State} (h : state.Numbers) (command : Command) :
    (step rifle state command deltaTime).state.Numbers := by
  have hdelta := Binary32.isNaN_of_isFinite husable.deltaTime
  obtain ⟨hcooldown, hheld⟩ := h.cooldown
  refine ⟨?_, ?_, ?_⟩
  · -- the interval added is a number from zero up
    have hinterval := Binary32.div_not_isNaN (x := kSecondsPerMinute) (by decide) husable.rate.1
      husable.rate.2.1
    have hpositive : (kSecondsPerMinute.div rifle.roundsPerMinute).negative = false := by
      rw [hinterval.2, husable.rate.2.2]
      decide
    have hadded : (state.cooldown.add (kSecondsPerMinute.div rifle.roundsPerMinute)).isNaN =
        false := by
      refine Binary32.sub_not_isNaN hcooldown ((Binary32.isNaN_neg _).trans hinterval.1) ?_
      rcases hheld with hfinite | hnegative
      · exact .inl hfinite
      · refine .inr (.inr ?_)
        rw [hnegative, Binary32.negative_neg, hpositive]
        decide
    have hcooled : ∀ x : Binary32, x.isNaN = false → (x.sub deltaTime).isNaN = false :=
      fun x hx => Binary32.sub_not_isNaN hx hdelta (.inr (.inl husable.deltaTime))
    change (cooled rifle state command deltaTime).Held
    rw [cooled]
    refine Binary32.held_max ?_ ?_
    · split
      · exact hcooled _ hadded
      · exact hcooled _ hcooldown
    · split
      · rw [Binary32.isFinite_neg, husable.deltaTime]
      · rfl
  · change (reloaded rifle state command deltaTime).1.isNaN = false
    obtain ⟨x, hx⟩ : ∃ x, x = if startsReload rifle state command then rifle.reloadSeconds
      else state.reloadRemaining := ⟨_, rfl⟩
    have hremaining : x.isNaN = false := by
      rw [hx]
      split
      · exact husable.reload
      · exact h.reloadRemaining
    unfold reloaded
    simp only [← hx]
    split
    · exact hremaining
    · split
      · rfl
      · exact Binary32.sub_not_isNaN hremaining hdelta (.inr (.inl husable.deltaTime))
  · exact numbers_recoiled h.recoil command deltaTime

/-- The rifle after each of `commands` in turn. -/
def run (rifle : Rifle) (deltaTime : Binary32) (state : State) (commands : List Command) : State :=
  commands.foldl (fun state command => (step rifle state command deltaTime).state) state

theorem run_same (rifle : Rifle) (deltaTime : Binary32) (commands : List Command) {a b : State}
    (h : a.Same b) : (run rifle deltaTime a commands).Same (run rifle deltaTime b commands) := by
  induction commands generalizing a b with
  | nil => exact h
  | cons command rest ih => exact ih (step_same h rifle command deltaTime)

end Augusta.Weapon
