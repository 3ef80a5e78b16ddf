import Augusta.Simulation.Culling

/-! What a tick's bullets strike.

      onBallistics    targets ─▶ cull ─▶ posed once a moment ─▶ Surfaces ─▶ Step ─▶ Struck
      judgedAfresh    targets ─────────▶ placed ────────────────────────▶ Step

    No segment crosses a hitbox of a target it passes out of reach of, and a posing is of what would
    be placed: so the two come to the same. -/

namespace Augusta.Simulation
open Math (Point Mat4 transformPoint)
open Ballistics (BulletHandle Flight RaycastMap Segment StepResult Triangle maxFlightSteps)
open Physics (SurfaceId)

/-! ### The players and bullets of a tick -/

/-- A character's hitboxes, and how far they reach, measured when it is added. -/
structure Hitboxes {𝕜 : Type} [Field 𝕜] [LinearOrder 𝕜] (root : 𝕜 → 𝕜) (joints : ℕ) where
  bound : List (CharacterHitbox 𝕜 joints)
  reach : Reach 𝕜 joints
  reach_eq : reach = Reach.measure root bound

/-- A living player: its hitboxes, as Posing posed it this tick, and its Hitbox history. -/
structure Target {𝕜 : Type} [Field 𝕜] [LinearOrder 𝕜] (root : 𝕜 → 𝕜) (Joints : Type)
    (capacity : ℕ) where
  entity : EntityId
  jointCount : ℕ
  hitboxes : Hitboxes root jointCount
  posedRoot : Pose 𝕜
  posedWorld : WorldJoints 𝕜 jointCount
  history : PoseHistory 𝕜 Joints capacity
  /-- Its Skeleton's joints, composed onto a pose's root. -/
  worldOf : SkeletonPose 𝕜 Joints → WorldJoints 𝕜 jointCount

/-- A bullet as it is judged. -/
structure JudgedBullet (𝕜 : Type) where
  handle : BulletHandle
  shooter : EntityId
  shootersDelay : 𝕜

/-- What does not change while a tick's bullets fly. -/
structure BallisticsScene {𝕜 : Type} [Field 𝕜] [LinearOrder 𝕜] (root : 𝕜 → 𝕜) (Joints : Type)
    (capacity : ℕ) where
  tick : Tick
  deltaTime : 𝕜
  blendJoints : BlendJoints 𝕜 Joints
  raycastMap : RaycastMap 𝕜 SurfaceId
  /-- Every mesh of the Map is added with `kMapSurface`. -/
  raycastMap_surface : ∀ origin direction distance, ∀ hit ∈ raycastMap origin direction distance,
    hit.surface = kMapSurface
  targets : List (Target root Joints capacity)
  targets_nodup : (targets.map (·.entity)).Nodup

/-- What became of a bullet. -/
inductive Judged (𝕜 : Type)
  | inFlight
  | struck (what : Struck) (impactPoint : Point 𝕜)
  | expired

section
variable {𝕜 : Type} [Field 𝕜] [LinearOrder 𝕜] [FloorRing 𝕜] {root : 𝕜 → 𝕜} {Joints : Type}
  {capacity : ℕ}

/-- A target's root and joints at a time; with no tick behind it, as posed this tick. -/
def Target.judgedAt (blendJoints : BlendJoints 𝕜 Joints) (target : Target root Joints capacity)
    (time : 𝕜) : Pose 𝕜 × WorldJoints 𝕜 target.jointCount :=
  match target.history.poseAt blendJoints time with
  | some seen => (seen.root, target.worldOf seen)
  | none => (target.posedRoot, target.posedWorld)

/-- Its hitboxes placed there. -/
def Target.placedAt (blendJoints : BlendJoints 𝕜 Joints) (target : Target root Joints capacity)
    (time : 𝕜) : List (PlacedHitbox 𝕜) :=
  place target.hitboxes.bound (target.judgedAt blendJoints time).2

/-- How far they reach from its root there. -/
def Target.reachAt (blendJoints : BlendJoints 𝕜 Joints) (target : Target root Joints capacity)
    (time : 𝕜) : 𝕜 :=
  target.hitboxes.reach.of root (target.judgedAt blendJoints time).1.position
    (target.judgedAt blendJoints time).2

namespace BallisticsScene
variable (scene : BallisticsScene root Joints capacity)

def timeOf (bullet : JudgedBullet 𝕜) : 𝕜 := (scene.tick.toNat : 𝕜) - bullet.shootersDelay

def consider (bullet : JudgedBullet 𝕜) (posing : HitboxPosing 𝕜)
    (target : Target root Joints capacity) : HitboxPosing 𝕜 :=
  if target.entity = bullet.shooter then posing
  else
    let time := scene.timeOf bullet
    let seen := target.judgedAt scene.blendJoints time
    posing.consider target.entity target.hitboxes.bound (target.reachAt scene.blendJoints time)
      seen.1 seen.2

/-- `HitboxesFor`: the posing whose `bulletHitboxes` the bullet is handed. -/
def hitboxesFor (posing : HitboxPosing 𝕜) (bullet : JudgedBullet 𝕜) (segment : Segment 𝕜) :
    HitboxPosing 𝕜 :=
  scene.targets.foldl (scene.consider bullet) (posing.beginBullet (scene.timeOf bullet) segment)

/-- One bullet's tick, as `OnBallistics` reads it. -/
def onBallistics (state : HitboxPosing 𝕜 × Ballistics.World (Flight 𝕜)) (bullet : JudgedBullet 𝕜) :
    Option (Judged 𝕜 × HitboxPosing 𝕜 × Ballistics.World (Flight 𝕜)) := do
  let flying ← state.2.bullets.lookup bullet.handle
  let posing := scene.hitboxesFor state.1 bullet (flying.body.nextSegment scene.deltaTime)
  let (result, world) ← state.2.step (maxFlightSteps scene.deltaTime)
    (Flight.moved root scene.raycastMap scene.deltaTime posing.bulletHitboxes) bullet.handle
  match result.outcome with
  | .inFlight => some (.inFlight, posing, world)
  | .expired => some (.expired, posing, world)
  | .struck strike =>
      if strike.surface = kMapSurface then
        some (.struck .map strike.impactPoint, posing, world)
      else do
        let struck ← posing.struck strike.surface
        some (.struck (.hitbox struck) strike.impactPoint, posing, world)

/-! ### The same, every hitbox of every target placed for each bullet -/

/-- Every hitbox of every target but the shooter, called by what a strike on it means. -/
def hitboxesAfresh (bullet : JudgedBullet 𝕜) : List (Ballistics.Hitbox 𝕜 Struck) :=
  (scene.targets.filter fun target => target.entity ≠ bullet.shooter).flatMap fun target =>
    HitboxPosing.named target.entity (target.placedAt scene.blendJoints (scene.timeOf bullet))

def mapAfresh : RaycastMap 𝕜 Struck := fun origin direction distance =>
  (scene.raycastMap origin direction distance).map fun hit => ⟨hit.distance, .map, hit.point⟩

def Judged.ofOutcome : Ballistics.Outcome (Ballistics.Strike 𝕜 Struck) → Judged 𝕜
  | .inFlight => .inFlight
  | .expired => .expired
  | .struck strike => .struck strike.surface strike.impactPoint

def judgedAfresh (world : Ballistics.World (Flight 𝕜)) (bullet : JudgedBullet 𝕜) :
    Option (Judged 𝕜 × Ballistics.World (Flight 𝕜)) :=
  (world.step (maxFlightSteps scene.deltaTime)
    (Flight.moved root scene.mapAfresh scene.deltaTime (scene.hitboxesAfresh bullet))
      bullet.handle).map fun step => (Judged.ofOutcome step.1.outcome, step.2)

end BallisticsScene

/-- A tick's bullets, one after the other. -/
def judgeAll {σ : Type} (judge : σ → JudgedBullet 𝕜 → Option (Judged 𝕜 × σ)) :
    σ → List (JudgedBullet 𝕜) → Option (List (Judged 𝕜) × σ)
  | state, [] => some ([], state)
  | state, bullet :: bullets => do
      let (judged, state) ← judge state bullet
      let (rest, state) ← judgeAll judge state bullets
      some (judged :: rest, state)

end

/-! ### What the tick's posings are of -/

namespace BallisticsScene
variable {𝕜 : Type} [Field 𝕜] [LinearOrder 𝕜] [FloorRing 𝕜] {root : 𝕜 → 𝕜} {Joints : Type}
  {capacity : ℕ} (scene : BallisticsScene root Joints capacity)

/-- Each target's posings are of what is placed for it. -/
def Kept (posing : HitboxPosing 𝕜) : Prop :=
  ∀ target ∈ scene.targets, posing.Keeps target.entity (target.placedAt scene.blendJoints)

theorem kept_clear (posing : HitboxPosing 𝕜) : scene.Kept posing.clear := by
  intro target _ time kept hkept
  rw [HitboxPosing.clear, AList.lookup_empty] at hkept
  cases hkept

/-- How many hitboxes the targets have. -/
def hitboxCount (targets : List (Target root Joints capacity)) : ℕ :=
  (targets.map fun target => target.hitboxes.bound.length).sum

/-- Whether a bullet is tested against a target. -/
def asked (bullet : JudgedBullet 𝕜) (segment : Segment 𝕜) (target : Target root Joints capacity) :
    Bool :=
  target.entity ≠ bullet.shooter &&
    reaches segment (target.judgedAt scene.blendJoints (scene.timeOf bullet)).1.position
      (target.reachAt scene.blendJoints (scene.timeOf bullet))

/-- From one posing to another by considering targets for a bullet: those asked are held. -/
structure Considered (bullet : JudgedBullet 𝕜) (segment : Segment 𝕜)
    (targets : List (Target root Joints capacity)) (posing posing' : HitboxPosing 𝕜) : Prop where
  kept : scene.Kept posing'
  timed : posing'.bulletTime = scene.timeOf bullet
  along : posing'.bulletSegment = segment
  grows : posing.Grows posing'
  count : posing'.posedHitboxes.length ≤ posing.posedHitboxes.length + hitboxCount targets
  posings : ∃ keeps, posing'.bulletPosings = posing.bulletPosings ++ keeps ∧
    List.Forall₂ (fun kept (target : Target root Joints capacity) =>
      posing'.Holds target.entity kept (target.placedAt scene.blendJoints (scene.timeOf bullet)))
      keeps (targets.filter (scene.asked bullet segment))

variable {scene} {bullet : JudgedBullet 𝕜} {segment : Segment 𝕜}
  {target : Target root Joints capacity} {targets more : List (Target root Joints capacity)}
  {posing posing' posing'' : HitboxPosing 𝕜}

theorem considered_one (htarget : target ∈ scene.targets) (hkept : scene.Kept posing)
    (htime : posing.bulletTime = scene.timeOf bullet) (hsegment : posing.bulletSegment = segment) :
    scene.Considered bullet segment [target] posing (scene.consider bullet posing target) := by
  rw [consider]
  split_ifs with hshooter
  · -- The shooter is skipped.
    refine ⟨hkept, htime, hsegment, .refl _, Nat.le_add_right _ _, [],
      (List.append_nil _).symm, ?_⟩
    rw [List.filter_cons_of_neg (by simp [asked, hshooter])]
    exact .nil
  · have hplaced : place target.hitboxes.bound
        (target.judgedAt scene.blendJoints (scene.timeOf bullet)).2 =
        target.placedAt scene.blendJoints posing.bulletTime := by
      rw [htime, Target.placedAt]
    set seen := target.judgedAt scene.blendJoints (scene.timeOf bullet)
    set reach := target.reachAt scene.blendJoints (scene.timeOf bullet)
    have hbullet : (posing.consider target.entity target.hitboxes.bound reach seen.1
          seen.2).bulletTime = posing.bulletTime ∧
        (posing.consider target.entity target.hitboxes.bound reach seen.1 seen.2).bulletSegment =
          posing.bulletSegment :=
      HitboxPosing.consider_bullet reach seen.1 posing
    have hholds := HitboxPosing.consider_holds reach seen.1 (hkept target htarget) hplaced
    refine ⟨?_, hbullet.1.trans htime, hbullet.2.trans hsegment, hholds.1,
      HitboxPosing.length_consider reach seen.1 posing, ?_⟩
    · intro other hother
      refine HitboxPosing.consider_keeps reach seen.1 (hkept other hother) fun hsame => ?_
      obtain rfl := List.inj_on_of_nodup_map scene.targets_nodup htarget hother hsame
      exact hplaced
    · have hasked := hholds.2
      rw [hsegment] at hasked
      split_ifs at hasked with hreaches
      · obtain ⟨kept, hposings, hheld⟩ := hasked
        have hyes : scene.asked bullet segment target = true := by
          rw [asked, Bool.and_eq_true]
          exact ⟨decide_eq_true hshooter, hreaches⟩
        rw [htime] at hheld
        refine ⟨[kept], hposings, ?_⟩
        rw [List.filter_cons_of_pos hyes]
        exact .cons hheld .nil
      · have hno : ¬scene.asked bullet segment target = true := by
          rw [asked, Bool.and_eq_true]
          exact fun hyes => hreaches hyes.2
        refine ⟨[], hasked.trans (List.append_nil _).symm, ?_⟩
        rw [List.filter_cons_of_neg hno]
        exact .nil

theorem Considered.append (h : scene.Considered bullet segment targets posing posing')
    (h' : scene.Considered bullet segment more posing' posing'') :
    scene.Considered bullet segment (targets ++ more) posing posing'' := by
  obtain ⟨keeps, hkeeps, hheld⟩ := h.posings
  obtain ⟨keeps', hkeeps', hheld'⟩ := h'.posings
  refine ⟨h'.kept, h'.timed, h'.along, h.grows.trans h'.grows, ?_, keeps ++ keeps', ?_, ?_⟩
  · have hcount := h.count
    have hcount' := h'.count
    rw [hitboxCount, List.map_append, List.sum_append, ← hitboxCount, ← hitboxCount]
    omega
  · rw [hkeeps', hkeeps, List.append_assoc]
  · rw [List.filter_append]
    exact List.rel_append (hheld.imp fun _ _ hone => hone.mono h'.grows) hheld'

/-- The whole of a bullet's targets, one after the other. -/
theorem considered_all (htargets : ∀ target ∈ targets, target ∈ scene.targets)
    (hkept : scene.Kept posing) (htime : posing.bulletTime = scene.timeOf bullet)
    (hsegment : posing.bulletSegment = segment) :
    scene.Considered bullet segment targets posing
      (targets.foldl (scene.consider bullet) posing) := by
  induction targets generalizing posing with
  | nil =>
      exact ⟨hkept, htime, hsegment, .refl _, Nat.le_add_right _ _, [], (List.append_nil _).symm,
        .nil⟩
  | cons target rest ih =>
      have hone := considered_one (htargets target (List.mem_cons_self ..)) hkept htime hsegment
      exact hone.append (ih (fun other hmem => htargets other (List.mem_cons_of_mem _ hmem))
        hone.kept hone.timed hone.along)

/-- A bullet is handed the hitboxes placed for the targets asked, each meaning what it is. -/
theorem hitboxesFor_same (hkept : scene.Kept posing)
    (hnumbers : posing.posedHitboxes.length + hitboxCount scene.targets < 2 ^ 32) :
    scene.Kept (scene.hitboxesFor posing bullet segment) ∧
      (scene.hitboxesFor posing bullet segment).posedHitboxes.length ≤
        posing.posedHitboxes.length + hitboxCount scene.targets ∧
      List.Forall₂
        (Ballistics.Hitbox.Same (scene.hitboxesFor posing bullet segment).Means)
        (scene.hitboxesFor posing bullet segment).bulletHitboxes
        ((scene.targets.filter (scene.asked bullet segment)).flatMap fun target =>
          HitboxPosing.named target.entity
            (target.placedAt scene.blendJoints (scene.timeOf bullet))) := by
  have hbegun : scene.Kept (posing.beginBullet (scene.timeOf bullet) segment) := hkept
  have hall : scene.Considered bullet segment scene.targets
      (posing.beginBullet (scene.timeOf bullet) segment) (scene.hitboxesFor posing bullet segment) :=
    considered_all (fun _ hmem => hmem) hbegun rfl rfl
  obtain ⟨keeps, hkeeps, hheld⟩ := hall.posings
  refine ⟨hall.kept, hall.count,
    HitboxPosing.bulletHitboxes_same (Nat.lt_of_le_of_lt hall.count hnumbers) ?_⟩
  rw [hkeeps]
  exact hheld

end BallisticsScene

/-! ### Judged as afresh -/

section
variable {Joints : Type} {capacity : ℕ} {scene : BallisticsScene Real.sqrt Joints capacity}
  {bullet : JudgedBullet ℝ} {posing : HitboxPosing ℝ}

open BallisticsScene

/-- A target the bullet is not tested against is the shooter, or none of its hitboxes is crossed. -/
theorem uncrossed_of_not_asked {segment : Segment ℝ} {target : Target Real.sqrt Joints capacity}
    (hshooter : target.entity ≠ bullet.shooter) (h : scene.asked bullet segment target = false) :
    ∀ hitbox ∈ HitboxPosing.named target.entity
        (target.placedAt scene.blendJoints (scene.timeOf bullet)),
      ∀ triangle ∈ hitbox.triangles,
        Ballistics.crossingFraction segment.from_ (segment.to_ - segment.from_) triangle = none := by
  intro hitbox hhitbox triangle htriangle
  obtain ⟨placed, hplaced, rfl⟩ := List.mem_map.mp hhitbox
  refine Option.eq_none_iff_forall_ne_some.mpr fun t hcrossing => ?_
  have hreaches := reaches_of_crossing
    (target.judgedAt scene.blendJoints (scene.timeOf bullet)).1.position segment hplaced htriangle
    hcrossing
  rw [← target.hitboxes.reach_eq, ← Target.reachAt] at hreaches
  rw [asked, hreaches, Bool.and_true, decide_eq_false_iff_not] at h
  exact h hshooter

/-- Tested against the targets asked alone or against all but the shooter, the same is nearest. -/
theorem testHitboxes_asked (segment : Segment ℝ)
    (nearest : Option (Ballistics.Strike ℝ Struck)) :
    Ballistics.testHitboxes segment.from_ (segment.to_ - segment.from_) nearest
        ((scene.targets.filter (scene.asked bullet segment)).flatMap fun target =>
          HitboxPosing.named target.entity
            (target.placedAt scene.blendJoints (scene.timeOf bullet))) =
      Ballistics.testHitboxes segment.from_ (segment.to_ - segment.from_) nearest
        (scene.hitboxesAfresh bullet) := by
  have hfilter : scene.targets.filter (scene.asked bullet segment) =
      (scene.targets.filter fun target => target.entity ≠ bullet.shooter).filter
        (scene.asked bullet segment) := by
    rw [List.filter_filter]
    refine List.filter_congr fun target _ => ?_
    rw [asked, Bool.and_right_comm, Bool.and_self]
  rw [hitboxesAfresh, hfilter]
  refine Ballistics.testHitboxes_filter _ _ _ _ (fun target htarget hnot => ?_) nearest
  exact uncrossed_of_not_asked (of_decide_eq_true (List.mem_filter.mp htarget).2) hnot

/-- The Map's own Surface means the Map. -/
theorem mapAfresh_same (posing : HitboxPosing ℝ) (origin direction : Point ℝ) (distance : ℝ) :
    Option.Rel (Ballistics.MapRaycastHit.Same posing.Means)
      (scene.raycastMap origin direction distance) (scene.mapAfresh origin direction distance) := by
  rw [mapAfresh]
  cases hhit : scene.raycastMap origin direction distance with
  | none => exact .none
  | some hit =>
      have hmap := scene.raycastMap_surface origin direction distance hit hhit
      refine .some ⟨rfl, ?_, rfl⟩
      rw [HitboxPosing.Means, HitboxPosing.meaning, if_pos hmap]

/-- Along a segment, what `HitboxesFor` hands the bullet is struck as every hitbox placed is. -/
theorem nearest_same (hkept : scene.Kept posing)
    (hnumbers : posing.posedHitboxes.length + hitboxCount scene.targets < 2 ^ 32)
    (segment : Segment ℝ) :
    Option.Rel (Ballistics.Strike.Same (scene.hitboxesFor posing bullet segment).Means)
      (Ballistics.testHitboxes segment.from_ (segment.to_ - segment.from_)
        (Ballistics.mapStrike segment.from_ (segment.to_ - segment.from_) Real.sqrt
          scene.raycastMap)
        (scene.hitboxesFor posing bullet segment).bulletHitboxes)
      (Ballistics.testHitboxes segment.from_ (segment.to_ - segment.from_)
        (Ballistics.mapStrike segment.from_ (segment.to_ - segment.from_) Real.sqrt
          scene.mapAfresh)
        (scene.hitboxesAfresh bullet)) := by
  rw [← testHitboxes_asked]
  exact Ballistics.testHitboxes_same (hitboxesFor_same hkept hnumbers).2.2
    (Ballistics.mapStrike_same Real.sqrt (mapAfresh_same _))

variable (bullet) in
/-- So a bullet is moved the same. -/
theorem moved_same (hkept : scene.Kept posing)
    (hnumbers : posing.posedHitboxes.length + hitboxCount scene.targets < 2 ^ 32)
    (flight : Flight ℝ) :
    (flight.moved Real.sqrt scene.raycastMap scene.deltaTime
        (scene.hitboxesFor posing bullet (flight.nextSegment scene.deltaTime)).bulletHitboxes).Same
      (Ballistics.Strike.Same
        (scene.hitboxesFor posing bullet (flight.nextSegment scene.deltaTime)).Means)
      (flight.moved Real.sqrt scene.mapAfresh scene.deltaTime (scene.hitboxesAfresh bullet)) :=
  ⟨rfl, nearest_same hkept hnumbers (flight.nextSegment scene.deltaTime), rfl⟩

variable (bullet) in
/-- One bullet is judged as it is afresh, and every posing is still of what is placed. -/
theorem onBallistics_eq (hkept : scene.Kept posing)
    (hnumbers : posing.posedHitboxes.length + hitboxCount scene.targets < 2 ^ 32)
    (world : Ballistics.World (Flight ℝ)) :
    ∃ posing', scene.Kept posing' ∧ posing'.posedHitboxes.length ≤
        posing.posedHitboxes.length + hitboxCount scene.targets ∧
      scene.onBallistics (posing, world) bullet =
      (scene.judgedAfresh world bullet).map fun judged => (judged.1, posing', judged.2) := by
  rw [onBallistics, judgedAfresh]
  cases hflying : world.bullets.lookup bullet.handle with
  | none =>
      refine ⟨posing, hkept, Nat.le_add_right _ _, ?_⟩
      rw [Ballistics.World.step, hflying]
      rfl
  | some flying =>
      simp only [Option.bind_eq_bind, Option.bind_some]
      obtain ⟨hkept', hcount, -⟩ := @hitboxesFor_same _ _ _ _ _ _ _ scene bullet
        (flying.body.nextSegment scene.deltaTime) posing hkept hnumbers
      have hstep := Ballistics.World.step_same (maxFlightSteps scene.deltaTime)
        fun kept (hin : kept ∈ world.bullets.lookup bullet.handle) => by
          obtain rfl := Option.some.inj (hflying.symm.trans hin)
          exact moved_same bullet hkept hnumbers flying.body
      generalize scene.hitboxesFor posing bullet (flying.body.nextSegment scene.deltaTime) =
        posing' at hkept' hcount hstep ⊢
      refine ⟨posing', hkept', hcount, ?_⟩
      generalize world.step (maxFlightSteps scene.deltaTime) (Flight.moved Real.sqrt
        scene.raycastMap scene.deltaTime posing'.bulletHitboxes) bullet.handle = step at hstep ⊢
      generalize world.step (maxFlightSteps scene.deltaTime) (Flight.moved Real.sqrt
        scene.mapAfresh scene.deltaTime (scene.hitboxesAfresh bullet)) bullet.handle =
          step' at hstep ⊢
      cases hstep with
      | none => rfl
      | @some step step' hsame =>
          obtain ⟨⟨outcome, body⟩, after⟩ := step
          obtain ⟨⟨outcome', body'⟩, after'⟩ := step'
          obtain ⟨houtcome, -, rfl : after = after'⟩ := hsame
          cases houtcome with
          | inFlight => rfl
          | expired => rfl
          | @struck strike strike' hstrike =>
              obtain ⟨-, hmeans, hpoint⟩ := hstrike
              rw [HitboxPosing.Means, HitboxPosing.meaning] at hmeans
              simp only [Option.bind_some, Option.map_some, Judged.ofOutcome, hpoint]
              split_ifs at hmeans ⊢ with hmap
              · rw [← Option.some.inj hmeans]
              · obtain ⟨struck, hstruck, hsurface⟩ := Option.map_eq_some_iff.mp hmeans
                rw [hstruck, ← hsurface, Option.bind_some]

/-- A tick's bullets, one after the other, from any posings that are of what is placed. -/
theorem judgeAll_eq (bullets : List (JudgedBullet ℝ)) (hkept : scene.Kept posing)
    (hnumbers : posing.posedHitboxes.length + bullets.length * hitboxCount scene.targets < 2 ^ 32)
    (world : Ballistics.World (Flight ℝ)) :
    (judgeAll scene.onBallistics (posing, world) bullets).map (fun judged =>
        (judged.1, judged.2.2)) =
      judgeAll scene.judgedAfresh world bullets := by
  induction bullets generalizing posing world with
  | nil => rfl
  | cons bullet bullets ih =>
      rw [List.length_cons, Nat.succ_mul] at hnumbers
      obtain ⟨posing', hkept', hcount, hone⟩ :=
        onBallistics_eq bullet hkept (by omega) world
      rw [judgeAll, judgeAll, hone]
      cases scene.judgedAfresh world bullet with
      | none => rfl
      | some judged =>
          simp only [Option.map_some, Option.bind_eq_bind, Option.bind_some,
            ← ih hkept' (by omega) judged.2]
          cases judgeAll scene.onBallistics (posing', judged.2) bullets <;> rfl

/-- CORRECT: in every tick, whatever an earlier one left posed, every bullet in turn comes to the
    same outcome, impact point, player and part as when every hitbox of every living player but
    its shooter is placed for it and tested, as long as there is a Surface for each of them:
    `Struck` answers each time, and is not asked about the Map's Surface, for which it has no
    answer. -/
theorem culled_strikes (scene : BallisticsScene Real.sqrt Joints capacity)
    (posing : HitboxPosing ℝ) (world : Ballistics.World (Flight ℝ))
    (bullets : List (JudgedBullet ℝ))
    (hnumbers : bullets.length * hitboxCount scene.targets < 2 ^ 32) :
    (judgeAll scene.onBallistics (posing.clear, world) bullets).map (fun judged =>
        (judged.1, judged.2.2)) =
      judgeAll scene.judgedAfresh world bullets :=
  judgeAll_eq bullets (scene.kept_clear posing) (by rwa [HitboxPosing.clear, List.length_nil,
    Nat.zero_add]) world

end

/-! ### A tick that strikes -/

section
open BallisticsScene

/-- A triangle across its joint. -/
def duelHitbox : CharacterHitbox ℝ 1 where
  part := .torso
  triangles := [⟨![0, -1, -1], ![0, 1, -1], ![0, -1, 1]⟩]
  joint := 0

/-- A joint moved to a point, unturned. -/
def duelJoint (point : Point ℝ) : Mat4 ℝ :=
  ![![1, 0, 0, 0], ![0, 1, 0, 0], ![0, 0, 1, 0], ![point 0, point 1, point 2, 1]]

/-- A player so many metres along x, with no tick behind it. -/
noncomputable def duelTarget (entity : EntityId) (x : ℕ) : Target Real.sqrt Unit 1 where
  entity
  jointCount := 1
  hitboxes := ⟨[duelHitbox], _, rfl⟩
  posedRoot := ⟨![x, 0, 0], 0, .standing⟩
  posedWorld := fun _ => duelJoint ![x, 0, 0]
  history := {}
  worldOf := fun pose _ => duelJoint pose.root.position

/-- A shooter, the player before it and one out of reach; behind the shooter is a wall. -/
noncomputable def duelScene : BallisticsScene Real.sqrt Unit 1 where
  tick := 10
  deltaTime := 1
  blendJoints := fun joints _ _ => joints
  raycastMap := fun origin direction _ =>
    if direction 0 < 0 then some ⟨1, kMapSurface, origin + direction⟩ else none
  raycastMap_surface := by
    intro origin direction distance hit hhit
    split_ifs at hhit
    · cases hhit
      rfl
    · cases hhit
  targets := [duelTarget 1 0, duelTarget 2 1, duelTarget 3 900]
  targets_nodup := by simp [duelTarget]

/-- From the shooter, along x. -/
def duelFlight (velocity : ℝ) : Flight ℝ := ⟨0, ⟨0, ![velocity, 0, 0]⟩, ⟨0, 1⟩⟩

/-- One bullet forward and one backward. -/
noncomputable def duelFlying : Ballistics.World (Flight ℝ) :=
  ((({} : Ballistics.World (Flight ℝ)).fire (duelFlight 1)).2.fire (duelFlight (-1))).2

def duelPosing : HitboxPosing ℝ where
  bulletTime := 0
  bulletSegment := ⟨0, 0⟩

theorem duelJoint_placed (point corner : Point ℝ) :
    transformPoint (duelJoint point) corner = corner + point := by
  ext i
  fin_cases i <;> simp [transformPoint, duelJoint, Mat4.column]

theorem duelTarget_placed (entity : EntityId) (x : ℕ) (time : ℝ) :
    (duelTarget entity x).placedAt duelScene.blendJoints time =
      [⟨.torso, [⟨![x, -1, -1], ![x, 1, -1], ![x, -1, 1]⟩]⟩] := by
  simp [Target.placedAt, Target.judgedAt, duelTarget, PoseHistory.poseAt, PoseHistory.entries,
    place, duelHitbox, transformTriangle, duelJoint_placed]

theorem duel_afresh {bullet : JudgedBullet ℝ} (h : bullet.shooter = 1) :
    duelScene.hitboxesAfresh bullet =
      [⟨.hitbox ⟨2, .torso⟩, [⟨![(1 : ℕ), -1, -1], ![(1 : ℕ), 1, -1], ![(1 : ℕ), -1, 1]⟩]⟩,
        ⟨.hitbox ⟨3, .torso⟩,
          [⟨![(900 : ℕ), -1, -1], ![(900 : ℕ), 1, -1], ![(900 : ℕ), -1, 1]⟩]⟩] := by
  have htargets : (duelScene.targets.filter fun target => target.entity ≠ bullet.shooter) =
      [duelTarget 2 1, duelTarget 3 900] := by
    rw [h]
    rfl
  rw [hitboxesAfresh, htargets, List.flatMap_cons, List.flatMap_cons, duelTarget_placed,
    duelTarget_placed]
  rfl

/-- A triangle so far along x is crossed there, if the bullet comes so far. -/
theorem duel_crossing (x : ℝ) {velocity : ℝ} (h : velocity = 1 ∨ velocity = -1) :
    Ballistics.crossingFraction 0 ![velocity, 0, 0] ⟨![x, -1, -1], ![x, 1, -1], ![x, -1, 1]⟩ =
      if x * velocity < 0 ∨ 1 < x * velocity then none else some (x * velocity) := by
  have hleast : ¬ (4 : ℝ) < Ballistics.leastNormal := by
    rw [Ballistics.leastNormal]
    norm_num
  have hback : 2 * (x * 2) * (1 / 4) = x := by ring
  rcases h with rfl | rfl
  · simp [Ballistics.crossingFraction, cross_apply, Matrix.vecHead, Matrix.vecTail]
    norm_num [hleast, hback]
  · simp [Ballistics.crossingFraction, cross_apply, Matrix.vecHead, Matrix.vecTail]
    norm_num [hleast, hback]

theorem duelFlight_moved (velocity : ℝ) {σ : Type} (raycast : RaycastMap ℝ σ)
    (hitboxes : List (Ballistics.Hitbox ℝ σ)) :
    ((duelFlight velocity).moved Real.sqrt raycast 1 hitboxes).nearest =
      Ballistics.testHitboxes 0 ![velocity, 0, 0]
        (Ballistics.mapStrike 0 ![velocity, 0, 0] Real.sqrt raycast) hitboxes := by
  have hkept : Function.update ![velocity, 0, 0] 1 (0 : ℝ) = ![velocity, 0, 0] := by
    ext i
    fin_cases i <;> simp
  simp [Flight.moved, Flight.advanced, duelFlight, hkept]

theorem duel_judged {world : Ballistics.World (Flight ℝ)} {bullet : JudgedBullet ℝ} {velocity : ℝ}
    {strike : Ballistics.Strike ℝ Struck}
    (hflying : world.bullets.lookup bullet.handle = some ⟨duelFlight velocity, 0⟩)
    (hstrikes : Ballistics.testHitboxes 0 ![velocity, 0, 0]
      (Ballistics.mapStrike 0 ![velocity, 0, 0] Real.sqrt duelScene.mapAfresh)
        (duelScene.hitboxesAfresh bullet) = some strike) :
    duelScene.judgedAfresh world bullet =
      some (.struck strike.surface strike.impactPoint,
        { world with bullets := world.bullets.erase bullet.handle }) := by
  have hmoved := duelFlight_moved velocity duelScene.mapAfresh (duelScene.hitboxesAfresh bullet)
  rw [hstrikes] at hmoved
  rw [judgedAfresh, Ballistics.World.step_of_lookup hflying]
  simp only [Ballistics.outcomeOf, show duelScene.deltaTime = 1 from rfl, hmoved, Option.map_some,
    Judged.ofOutcome]

/-- The one forward strikes the player before the shooter, the other the wall. -/
theorem culled_strikes_duel :
    (judgeAll duelScene.onBallistics (duelPosing.clear, duelFlying) [⟨0, 1, 1⟩, ⟨1, 1, 0⟩]).map
        (·.1) =
      some [.struck (.hitbox ⟨2, .torso⟩) ![1, 0, 0], .struck .map ![-1, 0, 0]] := by
  have hculled := congrArg (Option.map (·.1))
    (culled_strikes duelScene duelPosing duelFlying [⟨0, 1, 1⟩, ⟨1, 1, 0⟩] (by decide))
  rw [Option.map_map] at hculled
  have hhit := @duel_judged duelFlying ⟨0, 1, 1⟩ 1 ⟨1, .hitbox ⟨2, .torso⟩, ![1, 0, 0]⟩ rfl (by
    rw [duel_afresh rfl]
    norm_num [Ballistics.testHitboxes, Ballistics.testHitbox, Ballistics.testTriangle,
      duel_crossing _ (.inl rfl), Ballistics.mapStrike, mapAfresh, duelScene])
  have hwall := @duel_judged { duelFlying with bullets := duelFlying.bullets.erase 0 }
    ⟨1, 1, 0⟩ (-1) ⟨1, .map, ![-1, 0, 0]⟩ rfl (by
      rw [duel_afresh rfl]
      norm_num [Ballistics.testHitboxes, Ballistics.testHitbox, Ballistics.testTriangle,
        duel_crossing _ (.inr rfl), Ballistics.mapStrike, mapAfresh, duelScene])
  refine Eq.trans rfl (hculled.trans ?_)
  simp only [judgeAll, hhit, hwall, Option.bind_eq_bind, Option.bind_some, Option.map_some]

end
end Augusta.Simulation
