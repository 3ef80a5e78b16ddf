import Augusta.Lib.Countdown
import Augusta.Math.Exact
import Augusta.Physics.Movement

/-! A body's counters alone, in any arithmetic: how far its change of stance has gone, its stamina
    and whether it is exhausted.

      binary32 ──┐
                 ├── step ──▶ stance, progress, stamina, exhausted     (the movement left out)
      exact ℚ  ──┘                                                                            -/

namespace Augusta.Physics
open Lib (Binary32)

/-- Numbers a body's counters can be counted in. -/
class Amount (α : Type) extends Zero α, One α, Add α, Sub α, Mul α, Div α, Max α, Min α where
  le : α → α → Bool
  lt : α → α → Bool
  ofInt : ℤ → α
  /-- The nearest whole number, a tie away from zero. -/
  roundAway : α → ℤ
  /-- Onto the grid stamina travels on. -/
  snapStamina : α → α

/-- As the code counts. -/
instance : Amount Binary32 where
  zero := .zero
  one := .one
  add := .add
  sub := .sub
  mul := .mul
  div := .div
  max := .max
  min := .min
  le := Binary32.le
  lt := Binary32.lt
  ofInt := .ofInt
  roundAway := Binary32.roundAway
  snapStamina := Math.snapStamina

/-- Over exact arithmetic, but for the grids. -/
instance : Amount ℚ where
  toZero := MulZeroClass.toZero
  toOne := AddMonoidWithOne.toOne
  le x y := x ≤ y
  lt x y := x < y
  ofInt n := n
  roundAway x := if x < 0 then -⌊-x + 1 / 2⌋ else ⌊x + 1 / 2⌋
  snapStamina x := Math.exactSnap x Math.kStaminaGrid

/-- `StanceTransitionsData`. -/
structure Transitions (α : Type) where
  standingCrouching : α
  standingProne : α
  crouchingProne : α

/-- `StaminaConfig`. -/
structure StaminaRules (α : Type) where
  depletePerSecond : α
  regenPerSecond : α
  forcedWalkBelow : α

/-- What of a body's state counts time. -/
@[ext] structure Counters (α : Type) where
  stance : Stance
  previousStance : Stance
  stanceProgress : UInt8
  stamina : α
  exhausted : Bool

/-- What a tick asks of a body, as far as its counters go by it. -/
structure Asked where
  desiredStance : Stance
  /-- Whether the body has the room for it. -/
  fits : Bool
  sprint : Bool
  /-- Whether it asks to move at all. -/
  moving : Bool

def StanceTransitions.counted (transitions : StanceTransitions) : Transitions Binary32 :=
  ⟨transitions.standingCrouching, transitions.standingProne, transitions.crouchingProne⟩

def StaminaConfig.counted (config : StaminaConfig) : StaminaRules Binary32 :=
  ⟨config.depletePerSecond, config.regenPerSecond, config.forcedWalkBelow⟩

def BodyState.counters (state : BodyState) : Counters Binary32 :=
  ⟨state.stance, state.previousStance, state.stanceProgress, state.stamina, state.exhausted⟩

/-- What `input` asks of a body among what it stands against. -/
def asked (collision : Collision) (state : BodyState) (input : MovementInput) : Asked where
  desiredStance := input.desiredStance
  fits := canChangeStance collision state input.desiredStance
  sprint := input.sprint
  moving := Binary32.zero.lt input.direction.normalize.length

namespace Counters
variable {α : Type} [Amount α]

omit [Amount α] in
/-- A change of stance starts, or turns round where it has got to. -/
def changeStance (state : Counters α) (asked : Asked) : Counters α :=
  if asked.desiredStance ≠ state.stance ∧ asked.fits = true then
    { state with
      stanceProgress :=
        if asked.desiredStance = state.previousStance then
          kStanceProgressSteps - state.stanceProgress
        else 0
      previousStance := state.stance
      stance := asked.desiredStance }
  else state

def advanceStanceProgress (progress : UInt8) (deltaTime duration : α) : UInt8 :=
  if ¬ Amount.lt 0 duration then kStanceProgressSteps
  else
    let steps := Amount.roundAway
      (deltaTime / duration * (Amount.ofInt kStanceProgressSteps.toNat : α))
    UInt8.ofInt (min (progress.toNat + steps) kStanceProgressSteps.toNat)

def transitionDuration (transitions : Transitions α) (source target : Stance) : α :=
  if source = target then 0
  else if source ≠ .prone ∧ target ≠ .prone then transitions.standingCrouching
  else if source ≠ .crouching ∧ target ≠ .crouching then transitions.standingProne
  else transitions.crouchingProne

/-- `StaminaResult`. -/
structure Spent (α : Type) where
  sprinting : Bool
  stamina : α
  exhausted : Bool

def resolveStamina (sprintRequested standingAndMoving : Bool) (currentStamina : α)
    (currentlyExhausted : Bool) (rules : StaminaRules α) (deltaTime : α) : Spent α :=
  let sprinting := sprintRequested && standingAndMoving && !currentlyExhausted
  let stamina :=
    if sprinting then max 0 (currentStamina - rules.depletePerSecond * deltaTime)
    else min 1 (currentStamina + rules.regenPerSecond * deltaTime)
  { sprinting
    stamina
    exhausted := if currentlyExhausted then Amount.le stamina rules.forcedWalkBelow
      else Amount.le stamina 0 }

section
variable (rules : StaminaRules α) (transitions : Transitions α) (deltaTime : α)

/-- What a tick makes of a body's stamina. -/
def spent (state : Counters α) (asked : Asked) : Spent α :=
  let state := state.changeStance asked
  resolveStamina asked.sprint (state.stance = .standing && asked.moving) state.stamina
    state.exhausted rules deltaTime

/-- `Step`, as far as the counters go. -/
def step (state : Counters α) (asked : Asked) : Counters α :=
  let changed := state.changeStance asked
  let stamina := spent rules deltaTime state asked
  { changed with
    stanceProgress := advanceStanceProgress changed.stanceProgress deltaTime
      (transitionDuration transitions changed.previousStance changed.stance)
    stamina := Amount.snapStamina stamina.stamina
    exhausted := stamina.exhausted }

/-- The counters after each number of ticks of what is asked in turn. -/
def after (start : Counters α) (asked : ℕ → Asked) : ℕ → Counters α
  | 0 => start
  | n + 1 => step rules transitions deltaTime (after start asked n) (asked n)

end
end Counters

theorem counters_changeStance (collision : Collision) (state : BodyState) (input : MovementInput) :
    (changeStance collision state input.desiredStance).counters =
      state.counters.changeStance (asked collision state input) := by
  rw [changeStance, Counters.changeStance]
  by_cases hchanges : input.desiredStance ≠ state.stance ∧
      canChangeStance collision state input.desiredStance = true
  · rw [if_pos hchanges]
    exact (if_pos hchanges).symm
  · rw [if_neg hchanges]
    exact (if_neg hchanges).symm

/-- The body's step is that of its counters, as the code counts them. -/
theorem counters_step (collision : Collision) (config : StaminaConfig) (record : BodyRecord)
    (input : MovementInput) (deltaTime : Binary32) (pacing : Pacing) :
    (step collision config record input deltaTime pacing).state.counters =
      Counters.step config.counted pacing.transitions.counted deltaTime record.state.counters
        (asked collision record.state input) := by
  simp only [Counters.step, Counters.spent, ← counters_changeStance]
  rfl

/-! ### The numbers the floats stand for -/

def StanceTransitions.exactly (transitions : StanceTransitions) : Transitions ℚ :=
  ⟨transitions.standingCrouching.toRat, transitions.standingProne.toRat,
    transitions.crouchingProne.toRat⟩

def StaminaConfig.exactly (config : StaminaConfig) : StaminaRules ℚ :=
  ⟨config.depletePerSecond.toRat, config.regenPerSecond.toRat, config.forcedWalkBelow.toRat⟩

def BodyState.exactly (state : BodyState) : Counters ℚ :=
  { state.counters with stamina := state.stamina.toRat }

/-- Stamina on the grid is a count of its steps. -/
theorem toRat_snapStamina (stamina : Binary32) :
    (Math.snapStamina stamina).toRat = Math.toSteps stamina Math.kStaminaGrid / 2 ^ 15 := by
  have hmem := Math.toSteps_mem stamina Math.kStaminaGrid
  simp only [Math.kStaminaGrid] at hmem
  exact Binary32.toRat_ofScaled (by simp only [Math.kStaminaGrid]; omega) (by decide)

end Augusta.Physics
