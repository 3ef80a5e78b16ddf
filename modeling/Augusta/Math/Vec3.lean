import Augusta.Core.Command
import Augusta.Lib.Arithmetic
import Augusta.Math.Grid

/-! Vectors of binary32 numbers, each operation in the order GLM makes it. -/

namespace Augusta.Math.Vec3
open Lib (Binary32)

def add (a b : Vec3) : Vec3 := ⟨a.x.add b.x, a.y.add b.y, a.z.add b.z⟩

def sub (a b : Vec3) : Vec3 := ⟨a.x.sub b.x, a.y.sub b.y, a.z.sub b.z⟩

def scale (v : Vec3) (factor : Binary32) : Vec3 :=
  ⟨v.x.mul factor, v.y.mul factor, v.z.mul factor⟩

def div (v : Vec3) (divisor : Binary32) : Vec3 :=
  ⟨v.x.div divisor, v.y.div divisor, v.z.div divisor⟩

def dot (a b : Vec3) : Binary32 := ((a.x.mul b.x).add (a.y.mul b.y)).add (a.z.mul b.z)

def length (v : Vec3) : Binary32 := (v.dot v).sqrt

/-- The zero vector is returned unchanged. -/
def normalize (v : Vec3) : Vec3 :=
  if Binary32.zero.lt v.length then v.scale (Binary32.one.div (v.dot v).sqrt) else v

/-- Whether the numbers are equal: a NaN equals nothing, and each zero the other. -/
def equals (a b : Vec3) : Bool :=
  a.x.le b.x && b.x.le a.x && (a.y.le b.y && b.y.le a.y) && (a.z.le b.z && b.z.le a.z)

theorem equals_self {v : Vec3} (h : v.isFinite = true) : v.equals v = true := by
  simp only [isFinite, Bool.and_eq_true] at h
  obtain ⟨⟨hx, hy⟩, hz⟩ := h
  have hle {x : Binary32} (hfinite : x.isFinite = true) : x.le x = true := by
    have hnumber := isFinite_not_isNaN hfinite
    simp [Binary32.le, hnumber]
  simp only [equals, hle hx, hle hy, hle hz, Bool.and_self]

/-- A finite position is no distance from itself. -/
theorem length_sub_self {v : Vec3} (h : v.isFinite = true) : (v.sub v).length = .zero := by
  simp only [isFinite, Bool.and_eq_true] at h
  obtain ⟨⟨hx, hy⟩, hz⟩ := h
  rw [sub, Binary32.sub_self_of_isFinite hx, Binary32.sub_self_of_isFinite hy,
    Binary32.sub_self_of_isFinite hz]
  decide

end Augusta.Math.Vec3
