import Augusta.Lib.Rounding
import Augusta.Math.Grid
import Mathlib.Data.Rat.Cast.Defs
import Mathlib.Tactic.Abel
import Mathlib.Tactic.Module

/-! `augusta::math` over exact arithmetic: a point is its three numbers, and blending it takes no
    rounding.

      lerp        (1 - t) · source + t · target           mix
      lerpAngle   source + t · the shorter way round      never past half a turn              -/

namespace Augusta.Math
open Lib (Binary32 roundEven remainder)

/-- 2π as a binary32. -/
def kTurn : Binary32 := ⟨0x40C90FDB⟩

section
variable {𝕜 : Type*} [Field 𝕜] [LinearOrder 𝕜] [FloorRing 𝕜]

abbrev Point (𝕜 : Type*) := Fin 3 → 𝕜

/-- `math::Lerp`. -/
def lerp (source target : Point 𝕜) (t : 𝕜) : Point 𝕜 := (1 - t) • source + t • target

/-- How far `target` is from `source`, the shorter way round. -/
def arc (source target : 𝕜) : 𝕜 := remainder (target - source) (kTurn.toRat : 𝕜)

/-- `math::LerpAngle`. -/
def lerpAngle (source target t : 𝕜) : 𝕜 := source + arc source target * t

omit [LinearOrder 𝕜] [FloorRing 𝕜] in
theorem lerp_eq (source target : Point 𝕜) (t : 𝕜) :
    lerp source target t = source + t • (target - source) := by
  rw [lerp]
  module

omit [LinearOrder 𝕜] [FloorRing 𝕜] in
@[simp] theorem lerp_zero (source target : Point 𝕜) : lerp source target 0 = source := by
  rw [lerp_eq, zero_smul, add_zero]

@[simp] theorem lerpAngle_zero (source target : 𝕜) : lerpAngle source target 0 = source := by
  rw [lerpAngle, mul_zero, add_zero]

omit [LinearOrder 𝕜] [FloorRing 𝕜] in
/-- Two moments between the same bodies lie apart by as much of their movement. -/
theorem lerp_apart (source target : Point 𝕜) (s t : 𝕜) :
    lerp source target s = lerp source target t + (s - t) • (target - source) := by
  rw [lerp_eq, lerp_eq]
  module

theorem lerpAngle_apart (source target s t : 𝕜) :
    lerpAngle source target s = lerpAngle source target t + (s - t) * arc source target := by
  rw [lerpAngle, lerpAngle]
  ring

end

/-! ### Matrices -/

/-- A matrix by its columns. -/
abbrev Mat4 (𝕜 : Type*) := Fin 4 → Fin 4 → 𝕜

section
variable {𝕜 : Type*}

/-- The first three numbers of a column. -/
def Mat4.column (transform : Mat4 𝕜) (j : Fin 4) : Point 𝕜 := fun i => transform j i.castSucc

attribute [local instance] Lib.neZero_three Lib.neZero_four in
/-- `math::TransformPoint`. -/
def transformPoint [CommRing 𝕜] (transform : Mat4 𝕜) (point : Point 𝕜) : Point 𝕜 :=
  point 0 • transform.column 0 + point 1 • transform.column 1 + point 2 • transform.column 2 +
    transform.column 3

end

/-! ### The grids, exactly -/

/-- How many steps a number is, held to those there are. -/
def exactSteps (value : ℚ) (grid : Grid) : ℤ :=
  max grid.min (min (roundEven (value * 2 ^ grid.shift)) grid.max)

def exactSnap (value : ℚ) (grid : Grid) : ℚ := exactSteps value grid / 2 ^ grid.shift

/-- A float's steps are those of the number it stands for. -/
theorem toSteps_eq_exactSteps {value : Binary32} (h : value.isFinite = true) (grid : Grid) :
    toSteps value grid = exactSteps value.toRat grid := by
  rw [toSteps, isFinite_not_isNaN h, exactSteps, Binary32.roundScaled_eq]
  simp only [h, Bool.false_eq_true, not_true_eq_false, if_false]

end Augusta.Math
