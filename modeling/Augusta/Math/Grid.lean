import Augusta.Core.Command
import Mathlib.Tactic.SplitIfs

/-! The wire's grids: what a float is rounded to before it travels, as a whole number of steps.

      value ──toSteps──▶ steps ∈ [min, max] ──fromSteps──▶ steps · 2^-shift
                └──────────────── snap ────────────────────────┘

    A step is a power of two, so dividing by it is exact: the one rounding is to the nearest whole
    number of steps. -/

namespace Augusta.Math
open Lib (Binary32)

/-- A step of `2 ^ -shift`, the bytes its steps travel in, and the steps there are. -/
structure Grid where
  shift : ℕ
  bytes : ℕ
  min : ℤ
  max : ℤ
  /-- Every number of steps is a binary32 exactly, and zero is one. -/
  narrow : shift ≤ 126 ∧ -2 ^ 24 < min ∧ min ≤ 0 ∧ 0 ≤ max ∧ max < 2 ^ 24 := by decide

def kPositionGrid : Grid where shift := 10; bytes := 3; min := -2 ^ 23; max := 2 ^ 23 - 1

def kVelocityGrid : Grid where shift := 9; bytes := 2; min := -2 ^ 15; max := 2 ^ 15 - 1

def kDirectionGrid : Grid where shift := 14; bytes := 2; min := -2 ^ 15; max := 2 ^ 15 - 1

def kAngleGrid : Grid where shift := 21; bytes := 3; min := -2 ^ 23; max := 2 ^ 23 - 1

def kStaminaGrid : Grid where shift := 15; bytes := 2; min := 0; max := 2 ^ 16 - 1

def kFractionGrid : Grid where shift := 8; bytes := 1; min := 0; max := 2 ^ 8 - 1

/-- How many steps `value` is, held to those there are; a NaN is none. -/
def toSteps (value : Binary32) (grid : Grid) : ℤ :=
  if value.isNaN then 0
  else if ¬ value.isFinite then if value.negative then grid.min else grid.max
  else max grid.min (min (value.roundScaled grid.shift) grid.max)

def fromSteps (steps : ℤ) (grid : Grid) : Binary32 := .ofScaled steps grid.shift

def snap (value : Binary32) (grid : Grid) : Binary32 := fromSteps (toSteps value grid) grid

def Vec3.snap (value : Vec3) (grid : Grid) : Vec3 :=
  ⟨Math.snap value.x grid, Math.snap value.y grid, Math.snap value.z grid⟩

def snapPosition (position : Vec3) : Vec3 := position.snap kPositionGrid

def snapVelocity (velocity : Vec3) : Vec3 := velocity.snap kVelocityGrid

def snapDirection (direction : Vec3) : Vec3 := direction.snap kDirectionGrid

def snapAngle (radians : Binary32) : Binary32 := snap radians kAngleGrid

def snapStamina (stamina : Binary32) : Binary32 := snap stamina kStaminaGrid

def snapFraction (fraction : Binary32) : Binary32 := snap fraction kFractionGrid

theorem toSteps_mem (value : Binary32) (grid : Grid) :
    grid.min ≤ toSteps value grid ∧ toSteps value grid ≤ grid.max := by
  have := grid.narrow
  unfold toSteps
  split_ifs <;> omega

theorem isFinite_not_isNaN {x : Binary32} (h : x.isFinite = true) : x.isNaN = false := by
  simp only [Binary32.isFinite, ne_eq, decide_not, Bool.not_eq_eq_eq_not, Bool.not_true,
    decide_eq_false_iff_not] at h
  simp [Binary32.isNaN, h]

/-- What is on a grid is finite, whatever it was snapped from. -/
theorem snap_isFinite (value : Binary32) (grid : Grid) : (snap value grid).isFinite = true := by
  have hnarrow := grid.narrow
  have hmem := toSteps_mem value grid
  exact Binary32.ofScaled_isFinite (by omega) hnarrow.1

theorem Vec3.snap_isFinite (value : Vec3) (grid : Grid) : (value.snap grid).isFinite = true := by
  simp only [Vec3.snap, isFinite, Math.snap_isFinite, Bool.and_self]

/-- A value on the grid is the number of steps it was made from. -/
theorem toSteps_fromSteps {steps : ℤ} {grid : Grid} (h : grid.min ≤ steps ∧ steps ≤ grid.max) :
    toSteps (fromSteps steps grid) grid = steps := by
  have hnarrow := grid.narrow
  have hlt : steps.natAbs < 2 ^ 24 := by omega
  have hfinite := Binary32.ofScaled_isFinite hlt hnarrow.1
  rw [toSteps, fromSteps, isFinite_not_isNaN hfinite, hfinite,
    Binary32.roundScaled_ofScaled hlt hnarrow.1]
  simp only [Bool.false_eq_true, not_true_eq_false, if_false]
  omega

@[simp] theorem snap_fromSteps (value : Binary32) (grid : Grid) :
    fromSteps (toSteps value grid) grid = snap value grid := rfl

/-- A value on the grid snaps to itself. -/
@[simp] theorem snap_snap (value : Binary32) (grid : Grid) :
    snap (snap value grid) grid = snap value grid := by
  rw [snap, snap, toSteps_fromSteps (toSteps_mem value grid)]

@[simp] theorem Vec3.snap_snap (value : Vec3) (grid : Grid) :
    (value.snap grid).snap grid = value.snap grid := by
  simp [Vec3.snap]

end Augusta.Math
