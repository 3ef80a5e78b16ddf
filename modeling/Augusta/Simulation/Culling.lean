import Augusta.Lib.Euclid
import Augusta.Simulation.HitboxPosing

/-! Culling by reach: a segment that passes out of a character's reach crosses none of its hitboxes.

      center ─── |origin - center| ─── origin of the joint ─── radius · stretch ─── corner
      └───────────────────────────── reach, less the margin ──────────────────────────┘

    Over the real numbers, whatever the joints' matrices scale and shear. -/

namespace Augusta.Simulation
open Math (Point Mat4 transformPoint)
open Ballistics (Segment Triangle crossingFraction crossing_meets)
open Lib.Euclid

/-- A running maximum is no less than where it began, nor than what it has seen. -/
theorem le_foldl_max {α β : Type} [LinearOrder β] (f : α → β) :
    ∀ (items : List α) (start : β), start ≤ items.foldl (fun most item => max most (f item)) start ∧
      ∀ item ∈ items, f item ≤ items.foldl (fun most item => max most (f item)) start
  | [], start => ⟨le_rfl, fun _ hmem => absurd hmem List.not_mem_nil⟩
  | first :: rest, start => by
      obtain ⟨hstart, hrest⟩ := le_foldl_max f rest (max start (f first))
      refine ⟨(le_max_left _ _).trans hstart, ?_⟩
      intro item hmem
      rcases List.mem_cons.mp hmem with rfl | hmem
      · exact (le_max_right _ _).trans hstart
      · exact hrest item hmem

theorem kReachMargin_nonneg : (0 : ℝ) ≤ kReachMargin.toRat := by
  have h : (0 : ℚ) ≤ kReachMargin.toRat := by decide +kernel
  exact_mod_cast h

section
variable {n : ℕ} {hitboxes : List (CharacterHitbox ℝ n)} {hitbox : CharacterHitbox ℝ n}
  {joints : WorldJoints ℝ n}

/-- What `transformPoint` takes a point to, apart from where it takes the origin. -/
theorem transformPoint_sub (joint : Mat4 ℝ) (point : Point ℝ) :
    transformPoint joint point - joint.column 3 =
      ∑ j : Fin 3, point j • joint.column j.castSucc := by
  rw [transformPoint, add_sub_cancel_right, Fin.sum_univ_three]
  rfl

/-- A point is no farther from a joint's origin in the world than the joint may stretch it. -/
theorem length_transformPoint_le (joint : Mat4 ℝ) (point : Point ℝ) :
    length (transformPoint joint point - joint.column 3) ≤ length point * stretch Real.sqrt joint := by
  have hcolumns := length_columns_le (fun j : Fin 3 => joint.column j.castSucc) point
  rw [transformPoint_sub]
  rw [Fin.sum_univ_three (fun j : Fin 3 => joint.column j.castSucc ⬝ᵥ joint.column j.castSucc)]
    at hcolumns
  exact hcolumns

/-- How far a hitbox reaches from its joint's origin, in the joint's own space. -/
noncomputable def radiusOf (hitbox : CharacterHitbox ℝ n) : ℝ :=
  hitbox.points.foldl (fun radius point => max radius (length point)) 0

theorem length_le_radiusOf {point : Point ℝ} (h : point ∈ hitbox.points) :
    length point ≤ radiusOf hitbox :=
  (le_foldl_max _ _ _).2 point h

/-- A corner of a placed triangle is as near its joint's origin as its hitbox's radius, stretched. -/
theorem length_corner_le (joint : Mat4 ℝ) {point : Point ℝ} (h : point ∈ hitbox.points) :
    length (transformPoint joint point - joint.column 3) ≤
      radiusOf hitbox * stretch Real.sqrt joint :=
  (length_transformPoint_le joint point).trans
    (mul_le_mul_of_nonneg_right (length_le_radiusOf h) (Real.sqrt_nonneg _))

/-- Each hitbox is within the character's reach, less the margin. -/
theorem extent_le_reach (center : Point ℝ) (h : hitbox ∈ hitboxes) :
    length ((joints hitbox.joint).column 3 - center) +
        radiusOf hitbox * stretch Real.sqrt (joints hitbox.joint) ≤
      (Reach.measure Real.sqrt hitboxes).of Real.sqrt center joints := by
  have hmem : (⟨hitbox.joint, radiusOf hitbox⟩ : Extent ℝ n) ∈ Reach.measure Real.sqrt hitboxes :=
    List.mem_map.mpr ⟨hitbox, h, rfl⟩
  have hextent := (le_foldl_max (fun extent : Extent ℝ n => extent.reach Real.sqrt center joints)
    (Reach.measure Real.sqrt hitboxes) 0).2 _ hmem
  rw [Reach.of]
  exact hextent.trans (le_add_of_nonneg_right kReachMargin_nonneg)

/-- A point of a placed triangle is within the character's reach. -/
theorem length_placed_le (center : Point ℝ) (h : hitbox ∈ hitboxes) {triangle : Triangle ℝ}
    (htriangle : triangle ∈ hitbox.triangles) {u v : ℝ} (hu : 0 ≤ u) (hv : 0 ≤ v)
    (huv : u + v ≤ 1) {point : Point ℝ}
    (hpoint : point = transformPoint (joints hitbox.joint) triangle.a +
      u • (transformPoint (joints hitbox.joint) triangle.b -
        transformPoint (joints hitbox.joint) triangle.a) +
      v • (transformPoint (joints hitbox.joint) triangle.c -
        transformPoint (joints hitbox.joint) triangle.a)) :
    length (center - point) ≤ (Reach.measure Real.sqrt hitboxes).of Real.sqrt center joints := by
  have hcorner : ∀ corner ∈ [triangle.a, triangle.b, triangle.c],
      length (transformPoint (joints hitbox.joint) corner - (joints hitbox.joint).column 3) ≤
        radiusOf hitbox * stretch Real.sqrt (joints hitbox.joint) := by
    intro corner hcorner
    exact length_corner_le _ (List.mem_flatMap.mpr ⟨triangle, htriangle, hcorner⟩)
  have hnear := length_triangle_le (hcorner triangle.a (by simp)) (hcorner triangle.b (by simp))
    (hcorner triangle.c (by simp)) hu hv huv
  rw [← hpoint] at hnear
  calc length (center - point)
      = length (((joints hitbox.joint).column 3 - center) +
          (point - (joints hitbox.joint).column 3)) := by
        rw [length_sub_comm]
        congr 1
        abel
    _ ≤ length ((joints hitbox.joint).column 3 - center) +
          length (point - (joints hitbox.joint).column 3) := length_add_le _ _
    _ ≤ _ := (add_le_add_right hnear _).trans (extent_le_reach center h)

/-- A segment that crosses a placed hitbox passes within the character's reach. -/
theorem reaches_of_crossing (center : Point ℝ) (segment : Segment ℝ)
    {placed : PlacedHitbox ℝ} (hplaced : placed ∈ place hitboxes joints) {triangle : Triangle ℝ}
    (htriangle : triangle ∈ placed.triangles) {t : ℝ}
    (hcrossing : crossingFraction segment.from_ (segment.to_ - segment.from_) triangle = some t) :
    reaches segment center ((Reach.measure Real.sqrt hitboxes).of Real.sqrt center joints) := by
  obtain ⟨hitbox, hhitbox, rfl⟩ := List.mem_map.mp hplaced
  obtain ⟨bound, hbound, rfl⟩ := List.mem_map.mp htriangle
  obtain ⟨ht0, ht1, u, v, hu, hv, huv, hmeets⟩ := crossing_meets hcrossing
  have hwithin := length_placed_le center hhitbox hbound hu hv huv hmeets
  have hnonneg := (length_nonneg _).trans hwithin
  have hfoot := dot_foot_le segment.from_ (segment.to_ - segment.from_) center ht0 ht1
  exact decide_eq_true (hfoot.trans ((length_le_iff hnonneg).mp hwithin))

end
end Augusta.Simulation
