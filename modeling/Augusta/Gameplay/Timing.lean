import Augusta.Gameplay.Weapon
import Augusta.Lib.Rounding

/-! The rifle's times and counters alone, in any arithmetic: the floats they are counted in and the
    exact numbers those stand for.

      binary32 ──┐
                 ├── step ──▶ cooldown, reload, rounds, burst        (the recoil left out)
      exact ℚ  ──┘                                                                            -/

namespace Augusta.Weapon
open Lib (Binary32)

/-- Numbers a rifle's times can be counted in. -/
class Seconds (α : Type) extends Zero α, Add α, Sub α, Neg α, Div α, Max α where
  le : α → α → Bool
  lt : α → α → Bool
  /-- The number a float stands for. -/
  ofFloat : Binary32 → α

/-- As the code counts. -/
instance : Seconds Binary32 where
  zero := .zero
  add := .add
  sub := .sub
  neg := .neg
  div := .div
  max := .max
  le := Binary32.le
  lt := Binary32.lt
  ofFloat x := x

/-- Over exact arithmetic. -/
instance : Seconds ℚ where
  le x y := x ≤ y
  lt x y := x < y
  ofFloat := Binary32.toRat

/-- What of a rifle its times and counters go by. -/
structure Rates (α : Type) where
  roundsPerMinute : α
  reloadSeconds : α
  magazineCapacity : UInt8

/-- What of a rifle's state they are. -/
@[ext] structure Times (α : Type) where
  cooldown : α
  reloadRemaining : α
  rounds : UInt8
  burstIndex : UInt8

def Rifle.rates (rifle : Rifle) : Rates Binary32 :=
  ⟨rifle.roundsPerMinute, rifle.reloadSeconds, rifle.magazineCapacity⟩

def State.times (state : State) : Times Binary32 :=
  ⟨state.cooldown, state.reloadRemaining, state.rounds, state.burstIndex⟩

namespace Times
variable {α : Type} [Seconds α] (rates : Rates α) (state : Times α) (command : Command)

/-- `Loaded`. -/
def loaded : Times α := ⟨0, 0, rates.magazineCapacity, 0⟩

def startsReload : Bool :=
  command.reload && Seconds.le state.reloadRemaining 0 && state.rounds < rates.magazineCapacity

def reloading : Bool := startsReload rates state command || Seconds.lt 0 state.reloadRemaining

def trigger : Bool := command.fire && 0 < state.rounds && !reloading rates state command

def fires : Bool :=
  trigger rates state command && Seconds.le state.cooldown (Seconds.ofFloat kReadyWithin)

/-- How long a round is after the one before it. -/
def interval : α := Seconds.ofFloat kSecondsPerMinute / rates.roundsPerMinute

def cooled (deltaTime : α) : α :=
  let cooldown := if fires rates state command then state.cooldown + interval rates
    else state.cooldown
  max (cooldown - deltaTime) (if trigger rates state command then -deltaTime else 0)

/-- The reload's time left, and whether it ended on this tick. -/
def reloaded (deltaTime : α) : α × Bool :=
  let remaining := if startsReload rates state command then rates.reloadSeconds
    else state.reloadRemaining
  if ¬ reloading rates state command then (remaining, false)
  else if Seconds.le (remaining - deltaTime) (Seconds.ofFloat kReadyWithin) then (0, true)
  else (remaining - deltaTime, false)

/-- What one tick did to the times and counters. -/
structure Ticked (α : Type) where
  state : Times α
  fired : Bool
  /-- Whether a reload ended on it. -/
  filled : Bool

/-- `Step`. -/
def step (deltaTime : α) : Ticked α :=
  let fired := fires rates state command
  let reload := reloaded rates state command deltaTime
  { state :=
      { cooldown := cooled rates state command deltaTime
        reloadRemaining := reload.1
        rounds := if reload.2 then rates.magazineCapacity
          else if fired then state.rounds - 1 else state.rounds
        burstIndex := if fired then state.burstIndex + 1
          else if trigger rates state command then state.burstIndex else 0 }
    fired
    filled := reload.2 }

/-- The ticks of `commands` in turn, from `state` on. -/
def ticks (deltaTime : α) : Times α → List Command → List (Ticked α)
  | _, [] => []
  | state, command :: rest =>
      let ticked := step rates state command deltaTime
      ticked :: ticks deltaTime ticked.state rest

/-- The times and counters after `commands` in turn. -/
def run (deltaTime : α) (state : Times α) (commands : List Command) : Times α :=
  commands.foldl (fun state command => (step rates state command deltaTime).state) state

end Times

/-- The rifle's step is that of its times and counters, as the code counts them. -/
theorem times_step (rifle : Rifle) (state : State) (command : Command) (deltaTime : Binary32) :
    (step rifle state command deltaTime).state.times =
        (Times.step rifle.rates state.times command deltaTime).state ∧
      (step rifle state command deltaTime).fired =
        (Times.step rifle.rates state.times command deltaTime).fired :=
  ⟨rfl, rfl⟩

end Augusta.Weapon
