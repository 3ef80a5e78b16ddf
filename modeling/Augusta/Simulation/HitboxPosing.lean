import Augusta.Core.Parameters
import Augusta.Gameplay.Ballistics
import Augusta.Simulation.HitboxHistory

/-! `augusta::simulation`'s Hitbox posing: the players' hitboxes placed where a tick's bullets judge
    them, each player's once a moment, and numbered as Surfaces.

      posings         (target, time) ─▶ first, count ─┐
      posedHitboxes   … │ h₅ │ h₆ │ h₇ │ …         ◀──┘     Surface of hᵢ  =  the Map's + 1 + i
      posedTriangles  … │  first, count  │ …       ◀── hᵢ

    Over exact arithmetic, Surfaces aside: 32 bits number so many of them. -/

namespace Augusta

/-- An opaque id of what a raycast or a bullet strikes. -/
abbrev Physics.SurfaceId := UInt32

namespace Simulation
open Lib (Binary32 Table)
open Math (Point Mat4 transformPoint)
open Ballistics (Triangle Segment)
open Physics (SurfaceId)

/-! ### Placing -/

/-- One hitbox of a Character of so many joints, in the space of its own. -/
structure CharacterHitbox (𝕜 : Type) (joints : ℕ) where
  part : BodyPart
  triangles : List (Triangle 𝕜)
  joint : Fin joints

/-- One hitbox in world space. -/
structure PlacedHitbox (𝕜 : Type) where
  part : BodyPart
  triangles : List (Triangle 𝕜)

/-- Each joint's world transform. -/
abbrev WorldJoints (𝕜 : Type) (joints : ℕ) := Fin joints → Mat4 𝕜

section
variable {𝕜 : Type} [Field 𝕜] {n : ℕ}

def transformTriangle (joint : Mat4 𝕜) (triangle : Triangle 𝕜) : Triangle 𝕜 :=
  ⟨transformPoint joint triangle.a, transformPoint joint triangle.b,
    transformPoint joint triangle.c⟩

/-- `hitbox::Place`. -/
def place (hitboxes : List (CharacterHitbox 𝕜 n)) (joints : WorldJoints 𝕜 n) :
    List (PlacedHitbox 𝕜) :=
  hitboxes.map fun hitbox =>
    ⟨hitbox.part, hitbox.triangles.map (transformTriangle (joints hitbox.joint))⟩

end

/-! ### How far a character reaches -/

/-- `kReachMargin`, 0.1. -/
def kReachMargin : Binary32 := ⟨0x3DCCCCCD⟩

/-- A hitbox's joint, and how far from its origin the hitbox reaches. -/
structure Extent (𝕜 : Type) (joints : ℕ) where
  joint : Fin joints
  radius : 𝕜

/-- A character's extents: `Reach`. -/
abbrev Reach (𝕜 : Type) (joints : ℕ) := List (Extent 𝕜 joints)

section
variable {𝕜 : Type} [Field 𝕜] [LinearOrder 𝕜] {n : ℕ} (root : 𝕜 → 𝕜)

/-- Whether a segment passes within `reach` of a point. -/
def reaches (segment : Segment 𝕜) (center : Point 𝕜) (reach : 𝕜) : Bool :=
  let along := segment.to_ - segment.from_
  let lengthSquared := along ⬝ᵥ along
  let fraction := if 0 < lengthSquared then
      max 0 (min ((center - segment.from_) ⬝ᵥ along / lengthSquared) 1)
    else 0
  let apart := center - (segment.from_ + fraction • along)
  apart ⬝ᵥ apart ≤ reach * reach

/-- The corners of a hitbox's triangles. -/
def CharacterHitbox.points (hitbox : CharacterHitbox 𝕜 n) : List (Point 𝕜) :=
  hitbox.triangles.flatMap fun triangle => [triangle.a, triangle.b, triangle.c]

/-- Measures hitboxes, each in the space of its joint. -/
def Reach.measure (hitboxes : List (CharacterHitbox 𝕜 n)) : Reach 𝕜 n :=
  hitboxes.map fun hitbox =>
    ⟨hitbox.joint, hitbox.points.foldl (fun radius point => max radius (root (point ⬝ᵥ point))) 0⟩

attribute [local instance] Lib.neZero_four in
/-- How far a joint may stretch: the root of its linear part's squares. -/
def stretch (joint : Mat4 𝕜) : 𝕜 :=
  root (joint.column 0 ⬝ᵥ joint.column 0 + joint.column 1 ⬝ᵥ joint.column 1 +
    joint.column 2 ⬝ᵥ joint.column 2)

attribute [local instance] Lib.neZero_four in
/-- How far an extent's hitbox reaches from `center`. -/
def Extent.reach (center : Point 𝕜) (joints : WorldJoints 𝕜 n) (extent : Extent 𝕜 n) : 𝕜 :=
  let joint := joints extent.joint
  let apart := joint.column 3 - center
  root (apart ⬝ᵥ apart) + extent.radius * stretch root joint

/-- `Reach::Of`. -/
def Reach.of (reach : Reach 𝕜 n) (center : Point 𝕜) (joints : WorldJoints 𝕜 n) : 𝕜 :=
  reach.foldl (fun farthest extent => max farthest (extent.reach root center joints)) 0 +
    kReachMargin.toRat

end

/-! ### The tick's posed hitboxes -/

def kMapSurface : SurfaceId := 0

structure StruckHitbox where
  target : EntityId
  part : BodyPart
  deriving DecidableEq, Repr

/-- What a strike is on. -/
inductive Struck
  | map
  | hitbox (struck : StruckHitbox)
  deriving DecidableEq, Repr

structure PosedTarget (𝕜 : Type) where
  target : EntityId
  pose : Pose 𝕜

/-- Its triangles are `count` of the posed triangles, from `first`. -/
structure PosedHitbox where
  struck : StruckHitbox
  first : ℕ
  count : ℕ

structure PosingKey (𝕜 : Type) where
  target : EntityId
  time : 𝕜
  deriving DecidableEq

/-- Its hitboxes are `count` of the posed hitboxes, from `first`. -/
structure Posing where
  first : ℕ
  count : ℕ

structure HitboxPosing (𝕜 : Type) where
  posedTriangles : List (Triangle 𝕜) := []
  posedHitboxes : List PosedHitbox := []
  posings : Table (PosingKey 𝕜) Posing := ∅
  bulletTime : 𝕜
  bulletSegment : Segment 𝕜
  bulletPosings : List Posing := []
  bulletTargets : List (PosedTarget 𝕜) := []

def surfaceOf (posedHitbox : ℕ) : SurfaceId := UInt32.ofNat (kMapSurface.toNat + 1 + posedHitbox)

/-- The inverse of `surfaceOf`; it is asserted that it is not asked about the Map's. -/
def posedHitboxOf (surface : SurfaceId) : Option ℕ :=
  if surface = kMapSurface then none else some (surface - kMapSurface - 1).toNat

namespace HitboxPosing
variable {𝕜 : Type} (posing : HitboxPosing 𝕜)

def clear : HitboxPosing 𝕜 := { posing with posedTriangles := [], posedHitboxes := [], posings := ∅ }

def beginBullet (time : 𝕜) (segment : Segment 𝕜) : HitboxPosing 𝕜 :=
  { posing with
    bulletTime := time, bulletSegment := segment, bulletPosings := [], bulletTargets := [] }

/-- One placed hitbox after those posed so far. -/
def push (target : EntityId) (placed : PlacedHitbox 𝕜) : HitboxPosing 𝕜 :=
  { posing with
    posedHitboxes := posing.posedHitboxes ++
      [⟨⟨target, placed.part⟩, posing.posedTriangles.length, placed.triangles.length⟩]
    posedTriangles := posing.posedTriangles ++ placed.triangles }

def pushAll (target : EntityId) (placed : List (PlacedHitbox 𝕜)) : HitboxPosing 𝕜 :=
  placed.foldl (fun posing placed => posing.push target placed) posing

def emplaced (key : PosingKey 𝕜) (kept : Posing) [DecidableEq 𝕜] : HitboxPosing 𝕜 :=
  { posing with posings := posing.posings.insert key kept }

/-- The hitboxes of a posing, each with its Surface. -/
def hitboxesOf (kept : Posing) : List (Ballistics.Hitbox 𝕜 SurfaceId) :=
  (List.range' kept.first kept.count).filterMap fun index =>
    (posing.posedHitboxes[index]?).map fun hitbox =>
      ⟨surfaceOf index, (posing.posedTriangles.drop hitbox.first).take hitbox.count⟩

/-- What the bullet is tested against. -/
def bulletHitboxes : List (Ballistics.Hitbox 𝕜 SurfaceId) :=
  posing.bulletPosings.flatMap posing.hitboxesOf

/-- What a strike on a surface means; nothing for a broken id. -/
def struck (surface : SurfaceId) : Option StruckHitbox :=
  (posedHitboxOf surface).bind fun index => (posing.posedHitboxes[index]?).map (·.struck)

variable [Field 𝕜] [LinearOrder 𝕜] {n : ℕ} (target : EntityId)
  (hitboxes : List (CharacterHitbox 𝕜 n))

/-- A target's posing at the bullet's time: posed now, if no bullet of the tick has asked for it. -/
def posed (joints : WorldJoints 𝕜 n) : Posing × HitboxPosing 𝕜 :=
  let key : PosingKey 𝕜 := ⟨target, posing.bulletTime⟩
  match posing.posings.lookup key with
  | some kept => (kept, posing)
  | none =>
      let added : Posing := ⟨posing.posedHitboxes.length, hitboxes.length⟩
      (added, (posing.emplaced key added).pushAll target (place hitboxes joints))

def consider (reach : 𝕜) (pose : Pose 𝕜) (joints : WorldJoints 𝕜 n) : HitboxPosing 𝕜 :=
  if reaches posing.bulletSegment pose.position reach then
    let (kept, posing) := posing.posed target hitboxes joints
    { posing with
      bulletPosings := posing.bulletPosings ++ [kept]
      bulletTargets := posing.bulletTargets ++ [⟨target, pose⟩] }
  else posing

end HitboxPosing

/-! ### What is posed stays -/

namespace HitboxPosing
variable {𝕜 : Type} {posing posing' posing'' : HitboxPosing 𝕜}

/-- Hitboxes are only ever posed after those already there. -/
def Grows (posing posing' : HitboxPosing 𝕜) : Prop :=
  posing.posedHitboxes <+: posing'.posedHitboxes ∧ posing.posedTriangles <+: posing'.posedTriangles

theorem Grows.refl (posing : HitboxPosing 𝕜) : posing.Grows posing :=
  ⟨List.prefix_rfl, List.prefix_rfl⟩

theorem Grows.trans (h : posing.Grows posing') (h' : posing'.Grows posing'') :
    posing.Grows posing'' :=
  ⟨h.1.trans h'.1, h.2.trans h'.2⟩

/-- A posed hitbox is the one placed for its target. -/
def Shows (posing : HitboxPosing 𝕜) (target : EntityId) (posed : PosedHitbox)
    (placed : PlacedHitbox 𝕜) : Prop :=
  posed.struck = ⟨target, placed.part⟩ ∧ posed.count = placed.triangles.length ∧
    placed.triangles <+: posing.posedTriangles.drop posed.first

theorem Shows.mono (hgrows : posing.Grows posing') {target : EntityId} {posed : PosedHitbox}
    {placed : PlacedHitbox 𝕜} (h : posing.Shows target posed placed) :
    posing'.Shows target posed placed :=
  ⟨h.1, h.2.1, h.2.2.trans (hgrows.2.drop _)⟩

/-- A posing is of the hitboxes placed for its target, in their order. -/
def Holds (posing : HitboxPosing 𝕜) (target : EntityId) (kept : Posing)
    (placed : List (PlacedHitbox 𝕜)) : Prop :=
  kept.count = placed.length ∧ ∃ posed, posed <+: posing.posedHitboxes.drop kept.first ∧
    List.Forall₂ (posing.Shows target) posed placed

theorem Holds.mono (hgrows : posing.Grows posing') {target : EntityId} {kept : Posing}
    {placed : List (PlacedHitbox 𝕜)} (h : posing.Holds target kept placed) :
    posing'.Holds target kept placed := by
  obtain ⟨hcount, posed, hprefix, hshows⟩ := h
  exact ⟨hcount, posed, hprefix.trans (hgrows.1.drop _), hshows.imp fun _ _ h => h.mono hgrows⟩

/-! ### Posing a target -/

section
variable (target : EntityId)

theorem grows_push (posing : HitboxPosing 𝕜) (placed : PlacedHitbox 𝕜) :
    posing.Grows (posing.push target placed) :=
  ⟨List.prefix_append .., List.prefix_append ..⟩

/-- What is pushed is shown, after what was there. -/
theorem pushAll_posed (posing : HitboxPosing 𝕜) (placed : List (PlacedHitbox 𝕜)) :
    posing.Grows (posing.pushAll target placed) ∧
      ∃ posed, (posing.pushAll target placed).posedHitboxes = posing.posedHitboxes ++ posed ∧
        List.Forall₂ ((posing.pushAll target placed).Shows target) posed placed := by
  induction placed generalizing posing with
  | nil => exact ⟨Grows.refl _, [], (List.append_nil _).symm, .nil⟩
  | cons one rest ih =>
      obtain ⟨hgrows, posed, hposed, hshows⟩ := ih (posing.push target one)
      rw [pushAll, List.foldl_cons, ← pushAll]
      refine ⟨(grows_push target posing one).trans hgrows,
        ⟨⟨target, one.part⟩, posing.posedTriangles.length, one.triangles.length⟩ :: posed, ?_,
        .cons ?_ hshows⟩
      · rw [hposed, push, List.append_assoc, List.singleton_append]
      · refine Shows.mono hgrows ⟨rfl, rfl, ?_⟩
        rw [push, List.drop_left]

@[simp] theorem posings_pushAll (posing : HitboxPosing 𝕜) (placed : List (PlacedHitbox 𝕜)) :
    (posing.pushAll target placed).posings = posing.posings := by
  induction placed generalizing posing with
  | nil => rfl
  | cons one rest ih => exact ih (posing.push target one)

/-- What the bullet asks is not the posed hitboxes' to change. -/
theorem pushAll_bullet (posing : HitboxPosing 𝕜) (placed : List (PlacedHitbox 𝕜)) :
    (posing.pushAll target placed).bulletTime = posing.bulletTime ∧
      (posing.pushAll target placed).bulletSegment = posing.bulletSegment ∧
      (posing.pushAll target placed).bulletPosings = posing.bulletPosings := by
  induction placed generalizing posing with
  | nil => exact ⟨rfl, rfl, rfl⟩
  | cons one rest ih => exact ih (posing.push target one)

variable [Field 𝕜] [LinearOrder 𝕜] {n : ℕ} {hitboxes : List (CharacterHitbox 𝕜 n)}
  {joints : WorldJoints 𝕜 n}

omit [LinearOrder 𝕜] in
theorem length_place : (place hitboxes joints).length = hitboxes.length := List.length_map _

/-- Every posing of a target is of what is placed for it. -/
def Keeps (posing : HitboxPosing 𝕜) (target : EntityId)
    (placedAt : 𝕜 → List (PlacedHitbox 𝕜)) : Prop :=
  ∀ time, ∀ kept ∈ posing.posings.lookup ⟨target, time⟩, posing.Holds target kept (placedAt time)

variable {target} {placedAt : 𝕜 → List (PlacedHitbox 𝕜)}

theorem posed_of_kept {kept : Posing}
    (h : posing.posings.lookup ⟨target, posing.bulletTime⟩ = some kept) :
    posing.posed target hitboxes joints = (kept, posing) := by
  rw [posed, h]

theorem posed_of_new (h : posing.posings.lookup ⟨target, posing.bulletTime⟩ = none) :
    posing.posed target hitboxes joints =
      (⟨posing.posedHitboxes.length, hitboxes.length⟩,
        (posing.emplaced ⟨target, posing.bulletTime⟩
          ⟨posing.posedHitboxes.length, hitboxes.length⟩).pushAll target
            (place hitboxes joints)) := by
  rw [posed, h]

/-- A target's posing, whether posed now or before, is of what is placed for it. -/
theorem posed_holds (hkeeps : posing.Keeps target placedAt)
    (hplaced : place hitboxes joints = placedAt posing.bulletTime) :
    posing.Grows (posing.posed target hitboxes joints).2 ∧
      (posing.posed target hitboxes joints).2.Holds target (posing.posed target hitboxes joints).1
        (placedAt posing.bulletTime) := by
  cases hlookup : posing.posings.lookup ⟨target, posing.bulletTime⟩ with
  | some kept =>
      rw [posed_of_kept hlookup]
      exact ⟨Grows.refl _, hkeeps _ kept hlookup⟩
  | none =>
      rw [posed_of_new hlookup, ← hplaced]
      obtain ⟨hgrows, posed, hposed, hshows⟩ := pushAll_posed target
        (posing.emplaced ⟨target, posing.bulletTime⟩
          ⟨posing.posedHitboxes.length, hitboxes.length⟩) (place hitboxes joints)
      refine ⟨hgrows, length_place.symm, posed, ?_, hshows⟩
      rw [hposed, emplaced, List.drop_left]

/-- Posing one target keeps what is known of another's posings. -/
theorem posed_keeps (hkeeps : posing.Keeps target placedAt) {other : EntityId}
    {m : ℕ} {otherHitboxes : List (CharacterHitbox 𝕜 m)} {otherJoints : WorldJoints 𝕜 m}
    (hplaced : other = target → place otherHitboxes otherJoints = placedAt posing.bulletTime) :
    (posing.posed other otherHitboxes otherJoints).2.Keeps target placedAt := by
  intro time kept hkept
  cases hlookup : posing.posings.lookup ⟨other, posing.bulletTime⟩ with
  | some known =>
      rw [posed_of_kept hlookup] at hkept ⊢
      exact hkeeps time kept hkept
  | none =>
      by_cases hkey : (⟨target, time⟩ : PosingKey 𝕜) = ⟨other, posing.bulletTime⟩
      · -- The posing just made.
        obtain ⟨rfl, rfl⟩ := PosingKey.mk.inj hkey
        have hholds := (posed_holds hkeeps (hplaced rfl)).2
        rw [posed_of_new hlookup] at hkept hholds ⊢
        rw [posings_pushAll, emplaced, AList.lookup_insert, Option.mem_some_iff] at hkept
        rw [← hkept]
        exact hholds
      · rw [posed_of_new hlookup] at hkept ⊢
        rw [posings_pushAll, emplaced, AList.lookup_insert_ne hkey] at hkept
        have hgrows := (pushAll_posed other (posing.emplaced ⟨other, posing.bulletTime⟩
          ⟨posing.posedHitboxes.length, otherHitboxes.length⟩)
            (place otherHitboxes otherJoints)).1
        exact (hkeeps time kept hkept).mono hgrows

/-- Posing a target takes a Surface for each of its hitboxes, or none. -/
theorem length_posed (posing : HitboxPosing 𝕜) (target : EntityId) :
    (posing.posed target hitboxes joints).2.posedHitboxes.length ≤
      posing.posedHitboxes.length + hitboxes.length := by
  cases hlookup : posing.posings.lookup ⟨target, posing.bulletTime⟩ with
  | some kept =>
      rw [posed_of_kept hlookup]
      exact Nat.le_add_right _ _
  | none =>
      rw [posed_of_new hlookup]
      obtain ⟨-, posed, hposed, hshows⟩ := pushAll_posed target
        (posing.emplaced ⟨target, posing.bulletTime⟩
          ⟨posing.posedHitboxes.length, hitboxes.length⟩) (place hitboxes joints)
      rw [hposed, List.length_append, hshows.length_eq, length_place, emplaced]

theorem posed_bullet (posing : HitboxPosing 𝕜) (target : EntityId) :
    (posing.posed target hitboxes joints).2.bulletTime = posing.bulletTime ∧
      (posing.posed target hitboxes joints).2.bulletSegment = posing.bulletSegment ∧
      (posing.posed target hitboxes joints).2.bulletPosings = posing.bulletPosings := by
  cases hlookup : posing.posings.lookup ⟨target, posing.bulletTime⟩ with
  | some kept =>
      rw [posed_of_kept hlookup]
      exact ⟨rfl, rfl, rfl⟩
  | none =>
      rw [posed_of_new hlookup]
      exact pushAll_bullet target _ (place hitboxes joints)

end

/-! ### What a bullet is handed -/

/-- What a surface means: the Map, or whose hitbox and which part; nothing for a broken id. -/
def meaning (posing : HitboxPosing 𝕜) (surface : SurfaceId) : Option Struck :=
  if surface = kMapSurface then some .map else (posing.struck surface).map .hitbox

/-- A surface's meaning is what it is called by. -/
def Means (posing : HitboxPosing 𝕜) (surface : SurfaceId) (struck : Struck) : Prop :=
  posing.meaning surface = some struck

/-- Placed hitboxes, each called by what a strike on it means. -/
def named (target : EntityId) (placed : List (PlacedHitbox 𝕜)) :
    List (Ballistics.Hitbox 𝕜 Struck) :=
  placed.map fun one => ⟨.hitbox ⟨target, one.part⟩, one.triangles⟩

/-- Every one posed has a Surface of its own. -/
def Numbers (posing : HitboxPosing 𝕜) : Prop := posing.posedHitboxes.length < 2 ^ 32

theorem meaning_surfaceOf (hnumbers : posing.Numbers) {index : ℕ} {hitbox : PosedHitbox}
    (h : posing.posedHitboxes[index]? = some hitbox) :
    posing.meaning (surfaceOf index) = some (.hitbox hitbox.struck) := by
  obtain ⟨hlt, -⟩ := List.getElem?_eq_some_iff.mp h
  have hsurface : (surfaceOf index).toNat = 1 + index := by
    rw [surfaceOf, UInt32.toNat_ofNat_of_lt' (by
      change 0 + 1 + index < 2 ^ 32
      rw [Numbers] at hnumbers
      omega)]
    exact Nat.zero_add _ ▸ rfl
  have hne : surfaceOf index ≠ kMapSurface := by
    rintro hmap
    rw [hmap] at hsurface
    change 0 = 1 + index at hsurface
    omega
  have hindex : (surfaceOf index - kMapSurface - 1).toNat = index := by
    have hone : (1 : SurfaceId) ≤ surfaceOf index := by
      rw [UInt32.le_iff_toNat_le, hsurface]
      exact Nat.le_add_right 1 index
    rw [kMapSurface, UInt32.sub_zero, UInt32.toNat_sub_of_le _ _ hone, hsurface]
    exact Nat.add_sub_cancel_left 1 index
  rw [meaning, if_neg hne, struck, posedHitboxOf, if_neg hne, hindex, Option.bind_some, h]
  rfl

/-- A posing's hitboxes are those placed for its target, by other names. -/
theorem hitboxesOf_same (hnumbers : posing.Numbers) {target : EntityId} {kept : Posing}
    {placed : List (PlacedHitbox 𝕜)} (h : posing.Holds target kept placed) :
    List.Forall₂ (Ballistics.Hitbox.Same posing.Means) (posing.hitboxesOf kept)
      (named target placed) := by
  obtain ⟨hcount, posed, hprefix, hshows⟩ := h
  rw [hitboxesOf, hcount]
  clear hcount
  generalize kept.first = first at hprefix
  induction hshows generalizing first with
  | nil => exact .nil
  | @cons one placed posed rest hone _ ih =>
      obtain ⟨more, hmore⟩ := hprefix
      have hat : posing.posedHitboxes[first]? = some one := by
        rw [← List.head?_drop, ← hmore, List.cons_append, List.head?_cons]
      have hnext : posed <+: posing.posedHitboxes.drop (first + 1) := by
        rw [← List.tail_drop, ← hmore]
        exact List.prefix_append ..
      rw [List.length_cons, List.range'_succ, List.filterMap_cons, hat]
      refine .cons ⟨?_, ?_⟩ (ih _ hnext)
      · rw [Means, meaning_surfaceOf hnumbers hat, hone.1]
      · change (posing.posedTriangles.drop one.first).take one.count = placed.triangles
        rw [hone.2.1]
        exact (List.prefix_iff_eq_take.mp hone.2.2).symm

/-- So a bullet is handed the hitboxes placed for each target it asked of, by other names. -/
theorem bulletHitboxes_same (hnumbers : posing.Numbers) {α : Type} {targets : List α}
    {entityOf : α → EntityId} {placedOf : α → List (PlacedHitbox 𝕜)}
    (h : List.Forall₂ (fun kept target => posing.Holds (entityOf target) kept (placedOf target))
      posing.bulletPosings targets) :
    List.Forall₂ (Ballistics.Hitbox.Same posing.Means) posing.bulletHitboxes
      (targets.flatMap fun target => named (entityOf target) (placedOf target)) := by
  rw [bulletHitboxes]
  generalize posing.bulletPosings = keeps at h
  induction h with
  | nil => exact .nil
  | cons hone _ ih =>
      rw [List.flatMap_cons, List.flatMap_cons]
      exact List.rel_append (hitboxesOf_same hnumbers hone) ih

/-! ### Considering a target -/

section
variable [Field 𝕜] [LinearOrder 𝕜] {target : EntityId} {n : ℕ}
  {hitboxes : List (CharacterHitbox 𝕜 n)} {joints : WorldJoints 𝕜 n} (reach : 𝕜) (pose : Pose 𝕜)

/-- Considering asks the same bullet's question of the next target. -/
theorem consider_bullet (posing : HitboxPosing 𝕜) :
    (posing.consider target hitboxes reach pose joints).bulletTime = posing.bulletTime ∧
      (posing.consider target hitboxes reach pose joints).bulletSegment =
        posing.bulletSegment := by
  rw [consider]
  split_ifs with hreached
  · exact ⟨(posed_bullet posing target).1, (posed_bullet posing target).2.1⟩
  · exact ⟨rfl, rfl⟩

theorem length_consider (posing : HitboxPosing 𝕜) :
    (posing.consider target hitboxes reach pose joints).posedHitboxes.length ≤
      posing.posedHitboxes.length + hitboxes.length := by
  rw [consider]
  split_ifs with hreached
  · exact length_posed posing target
  · exact Nat.le_add_right _ _

theorem consider_keeps {other : EntityId} {placedAt : 𝕜 → List (PlacedHitbox 𝕜)}
    (hkeeps : posing.Keeps other placedAt)
    (hplaced : target = other → place hitboxes joints = placedAt posing.bulletTime) :
    (posing.consider target hitboxes reach pose joints).Keeps other placedAt := by
  rw [consider]
  split_ifs with hreached
  · exact posed_keeps hkeeps hplaced
  · exact hkeeps

/-- A target the bullet reaches is handed it; another leaves all as it was. -/
theorem consider_holds {placedAt : 𝕜 → List (PlacedHitbox 𝕜)}
    (hkeeps : posing.Keeps target placedAt)
    (hplaced : place hitboxes joints = placedAt posing.bulletTime) :
    posing.Grows (posing.consider target hitboxes reach pose joints) ∧
      if reaches posing.bulletSegment pose.position reach then
        ∃ kept, (posing.consider target hitboxes reach pose joints).bulletPosings =
            posing.bulletPosings ++ [kept] ∧
          (posing.consider target hitboxes reach pose joints).Holds target kept
            (placedAt posing.bulletTime)
      else (posing.consider target hitboxes reach pose joints).bulletPosings =
        posing.bulletPosings := by
  rw [consider]
  split_ifs with hreached
  · obtain ⟨hgrows, hholds⟩ := posed_holds hkeeps hplaced
    exact ⟨hgrows, _, congrArg (· ++ _) (posed_bullet posing target).2.2, hholds⟩
  · exact ⟨Grows.refl _, rfl⟩

end
end HitboxPosing
end Simulation
end Augusta
