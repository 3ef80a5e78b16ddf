import Augusta.Lib.Table
import Augusta.Math.Exact
import Mathlib.LinearAlgebra.CrossProduct
import Mathlib.Tactic.FinCases

/-! `augusta::ballistics`: bullets in flight, and what each strikes as it moves.

      from ────────▲──▲────────▶ from + segment     the Map first, then each triangle in turn:
                   │  nearest so far                only a nearer one takes its place
                   crossing

    A World keeps a bullet by its handle until it strikes something, is past its range or has
    flown its Steps. What moves a bullet is a parameter of `World.step`; over exact arithmetic it
    is `moved`. -/

namespace Augusta.Ballistics
open Lib (Binary32 Table roundDouble)
open Math (Point)

/-! ### Bullets and their handles -/

abbrev BulletHandle := UInt32

/-- A bullet, and how many Steps it has flown. -/
structure Bullet (Body : Type) where
  body : Body
  steps : ℕ := 0
  deriving DecidableEq, Repr

/-- How far a Step takes a bullet, and the nearest of what it crosses on the way. -/
structure Moved (Body Strike : Type) where
  body : Body
  nearest : Option Strike
  pastRange : Bool

inductive Outcome (Strike : Type)
  | inFlight
  | struck (strike : Strike)
  | expired
  deriving DecidableEq, Repr

structure StepResult (Body Strike : Type) where
  outcome : Outcome Strike
  body : Body

structure World (Body : Type) where
  bullets : Table BulletHandle (Bullet Body) := ∅
  nextHandle : BulletHandle := 0

section
variable {Body Strike : Type}

/-- `World::Fire`; a handle in use keeps its bullet. -/
def World.fire (world : World Body) (body : Body) : BulletHandle × World Body :=
  (world.nextHandle,
    { bullets := world.bullets.emplace world.nextHandle { body }
      nextHandle := world.nextHandle + 1 })

/-- What moving a bullet and counting the Step comes to. -/
def outcomeOf (maxFlightSteps steps : ℕ) (moved : Moved Body Strike) : Outcome Strike :=
  match moved.nearest with
  | some strike => .struck strike
  | none => if moved.pastRange ∨ maxFlightSteps ≤ steps then .expired else .inFlight

/-- `World::Step`; nothing for a handle that is not in flight. -/
def World.step (maxFlightSteps : ℕ) (move : Body → Moved Body Strike) (handle : BulletHandle)
    (world : World Body) : Option (StepResult Body Strike × World Body) := do
  let bullet ← world.bullets.lookup handle
  let moved := move bullet.body
  let steps := bullet.steps + 1
  match outcomeOf maxFlightSteps steps moved with
  | .inFlight =>
      some (⟨.inFlight, moved.body⟩,
        { world with bullets := world.bullets.insert handle ⟨moved.body, steps⟩ })
  | outcome => some (⟨outcome, moved.body⟩, { world with bullets := world.bullets.erase handle })

theorem World.step_of_lookup {limit : ℕ} {move : Body → Moved Body Strike} {handle : BulletHandle}
    {world : World Body} {bullet : Bullet Body} (h : world.bullets.lookup handle = some bullet) :
    world.step limit move handle =
      let outcome := outcomeOf limit (bullet.steps + 1) (move bullet.body)
      some (⟨outcome, (move bullet.body).body⟩,
        match outcome with
        | .inFlight =>
            { world with
              bullets := world.bullets.insert handle ⟨(move bullet.body).body, bullet.steps + 1⟩ }
        | _ => { world with bullets := world.bullets.erase handle }) := by
  rw [World.step, h]
  simp only [Option.bind_eq_bind, Option.bind_some]
  cases outcomeOf limit (bullet.steps + 1) (move bullet.body) <;> rfl

end

/-! ### What a Step tests -/

/-- A `BulletConfig` over exact numbers. -/
structure FlightConfig (𝕜 : Type) where
  gravity : 𝕜
  maxRange : 𝕜

structure Triangle (𝕜 : Type) where
  a : Point 𝕜
  b : Point 𝕜
  c : Point 𝕜

/-- A surface posed for one Step. -/
structure Hitbox (𝕜 σ : Type) where
  surface : σ
  triangles : List (Triangle 𝕜)

structure BulletState (𝕜 : Type) where
  position : Point 𝕜
  velocity : Point 𝕜

structure Segment (𝕜 : Type) where
  from_ : Point 𝕜
  to_ : Point 𝕜

structure Flight (𝕜 : Type) where
  origin : Point 𝕜
  state : BulletState 𝕜
  config : FlightConfig 𝕜

/-- What `physics::World::RaycastMap` finds. -/
structure MapRaycastHit (𝕜 σ : Type) where
  distance : 𝕜
  surface : σ
  point : Point 𝕜

/-- `physics::World::RaycastMap`: from where, which way and how far. -/
abbrev RaycastMap (𝕜 σ : Type) := Point 𝕜 → Point 𝕜 → 𝕜 → Option (MapRaycastHit 𝕜 σ)

/-- A surface crossed, how far along and where. -/
structure Strike (𝕜 σ : Type) where
  fraction : 𝕜
  surface : σ
  impactPoint : Point 𝕜

section
variable {𝕜 σ τ : Type} [Field 𝕜] [LinearOrder 𝕜]

attribute [local instance] Lib.atLeastTwo_two in
/-- `std::numeric_limits<float>::min()`. -/
def leastNormal : 𝕜 := 1 / 2 ^ 126

open Matrix in
/-- Where along a segment it crosses a triangle, from either side (Moller-Trumbore). -/
def crossingFraction (from_ segment : Point 𝕜) (triangle : Triangle 𝕜) : Option 𝕜 :=
  let edge1 := triangle.b - triangle.a
  let edge2 := triangle.c - triangle.a
  let p := segment ⨯₃ edge2
  let determinant := edge1 ⬝ᵥ p
  let inverse := 1 / determinant
  let s := from_ - triangle.a
  let u := s ⬝ᵥ p * inverse
  let q := s ⨯₃ edge1
  let v := segment ⬝ᵥ q * inverse
  let t := edge2 ⬝ᵥ q * inverse
  if |determinant| < leastNormal then none
  else if u < 0 ∨ 1 < u then none
  else if v < 0 ∨ 1 < u + v then none
  else if t < 0 ∨ 1 < t then none
  else some t

variable (from_ segment : Point 𝕜)

/-- One triangle of a surface, against what is struck nearest so far. -/
def testTriangle (surface : σ) (nearest : Option (Strike 𝕜 σ)) (triangle : Triangle 𝕜) :
    Option (Strike 𝕜 σ) :=
  match crossingFraction from_ segment triangle with
  | none => nearest
  | some crossing =>
      if nearest.all fun strike => crossing < strike.fraction then
        some ⟨crossing, surface, from_ + crossing • segment⟩
      else nearest

def testHitbox (nearest : Option (Strike 𝕜 σ)) (hitbox : Hitbox 𝕜 σ) : Option (Strike 𝕜 σ) :=
  hitbox.triangles.foldl (testTriangle from_ segment hitbox.surface) nearest

def testHitboxes (nearest : Option (Strike 𝕜 σ)) (hitboxes : List (Hitbox 𝕜 σ)) :
    Option (Strike 𝕜 σ) :=
  hitboxes.foldl (testHitbox from_ segment) nearest

variable (root : 𝕜 → 𝕜) (raycast : RaycastMap 𝕜 σ)

/-- The Map along a segment. -/
def mapStrike : Option (Strike 𝕜 σ) :=
  let length := root (segment ⬝ᵥ segment)
  (raycast from_ segment length).map fun hit => ⟨hit.distance / length, hit.surface, hit.point⟩

attribute [local instance] Lib.neZero_three in
/-- Where a bullet is after one tick: its new velocity moves it. -/
def Flight.advanced (deltaTime : 𝕜) (flight : Flight 𝕜) : BulletState 𝕜 :=
  let velocity := Function.update flight.state.velocity 1
    (flight.state.velocity 1 - flight.config.gravity * deltaTime)
  ⟨flight.state.position + deltaTime • velocity, velocity⟩

/-- `World::NextSegment` of a bullet. -/
def Flight.nextSegment (deltaTime : 𝕜) (flight : Flight 𝕜) : Segment 𝕜 :=
  ⟨flight.state.position, (flight.advanced deltaTime).position⟩

/-- What one Step does to a bullet. -/
def Flight.moved (deltaTime : 𝕜) (hitboxes : List (Hitbox 𝕜 σ)) (flight : Flight 𝕜) :
    Moved (Flight 𝕜) (Strike 𝕜 σ) :=
  let state := flight.advanced deltaTime
  let segment := state.position - flight.state.position
  let travelled := state.position - flight.origin
  { body := { flight with state }
    nearest := testHitboxes flight.state.position segment
      (mapStrike flight.state.position segment root raycast) hitboxes
    pastRange := flight.config.maxRange < root (travelled ⬝ᵥ travelled) }

end

/-- `MaxFlightSteps`: `kMaxFlightTime`, 5 s, in Steps, a thousandth of one off. -/
def maxFlightSteps {𝕜 : Type} [Field 𝕜] [LinearOrder 𝕜] [FloorRing 𝕜] (stepSeconds : 𝕜) : ℕ :=
  ⌈5 / stepSeconds - 1 / 1000⌉.toNat

/-- The same as the code counts it, in doubles, for a step above 0. -/
def maxFlightStepsOf (stepSeconds : Binary32) : ℕ :=
  ⌈roundDouble (roundDouble (5 / stepSeconds.toRat) - roundDouble (1 / 1000))⌉.toNat

/-- A tick of so many a second, in seconds. -/
def tickSeconds (tickRateHz : UInt8) : Binary32 :=
  Binary32.one.div (Binary32.ofInt tickRateHz.toNat)

/-- At every tick rate, whichever way its tick rounds to a float. -/
theorem maxFlightStepsOf_tickSeconds (tickRateHz : UInt8) (h : tickRateHz ≠ 0) :
    maxFlightStepsOf (tickSeconds tickRateHz) = 5 * tickRateHz.toNat := by
  have hrates : ∀ rate : Fin 256, rate ≠ 0 →
      maxFlightStepsOf (tickSeconds (UInt8.ofNat rate)) = 5 * (UInt8.ofNat rate).toNat := by
    decide +kernel
  have hne : tickRateHz.toFin ≠ 0 := by
    intro hzero
    exact h (UInt8.toNat_inj.mp (congrArg Fin.val hzero))
  have hrate := hrates tickRateHz.toFin hne
  rwa [show ((tickRateHz.toFin : Fin 256) : ℕ) = tickRateHz.toNat from rfl, UInt8.ofNat_toNat]
    at hrate

/-! ### A crossing is on the segment and on the triangle -/

section
variable {𝕜 : Type} [Field 𝕜] [LinearOrder 𝕜] [IsStrictOrderedRing 𝕜]
variable {from_ segment : Point 𝕜} {triangle : Triangle 𝕜}

theorem leastNormal_pos : (0 : 𝕜) < leastNormal := by
  rw [leastNormal]
  positivity

open Matrix in
/-- Cramer's rule: what a point of the segment is of a triangle's two edges. -/
theorem cramer {R : Type} [CommRing R] (s segment edge1 edge2 : Point R) :
    (edge1 ⬝ᵥ segment ⨯₃ edge2) • s + (edge2 ⬝ᵥ s ⨯₃ edge1) • segment =
      (s ⬝ᵥ segment ⨯₃ edge2) • edge1 + (segment ⬝ᵥ s ⨯₃ edge1) • edge2 := by
  ext i
  fin_cases i <;>
    simp [cross_apply, dotProduct, Fin.sum_univ_three] <;> ring

/-- A crossing is part of the way along the segment, and between the triangle's corners. -/
theorem crossing_meets {t : 𝕜} (h : crossingFraction from_ segment triangle = some t) :
    0 ≤ t ∧ t ≤ 1 ∧ ∃ u v : 𝕜, 0 ≤ u ∧ 0 ≤ v ∧ u + v ≤ 1 ∧
      from_ + t • segment =
        triangle.a + u • (triangle.b - triangle.a) + v • (triangle.c - triangle.a) := by
  obtain ⟨a, b, c⟩ := triangle
  simp only [crossingFraction] at h
  split_ifs at h with hdet hu hv ht
  obtain rfl := Option.some.inj h
  have hne : (b - a) ⬝ᵥ crossProduct segment (c - a) ≠ 0 := by
    intro hzero
    rw [hzero, abs_zero] at hdet
    exact hdet leastNormal_pos
  rw [not_or, not_lt, not_lt] at hu hv ht
  refine ⟨ht.1, ht.2, _, _, hu.1, hv.1, hv.2, ?_⟩
  have hcramer := congrArg (fun v => ((b - a) ⬝ᵥ crossProduct segment (c - a))⁻¹ • v)
    (cramer (from_ - a) segment (b - a) (c - a))
  simp only [smul_add, smul_smul, inv_mul_cancel₀ hne, one_smul] at hcramer
  simp only [one_div, mul_comm _ ((b - a) ⬝ᵥ crossProduct segment (c - a))⁻¹]
  rw [add_assoc a, ← hcramer]
  abel

end

/-! ### What a surface is called does not matter -/

section
variable {𝕜 σ τ : Type} (R : σ → τ → Prop)

/-- The same triangles under two names. -/
def Hitbox.Same (hitbox : Hitbox 𝕜 σ) (hitbox' : Hitbox 𝕜 τ) : Prop :=
  R hitbox.surface hitbox'.surface ∧ hitbox.triangles = hitbox'.triangles

/-- The same strike on two names of a surface. -/
def Strike.Same (strike : Strike 𝕜 σ) (strike' : Strike 𝕜 τ) : Prop :=
  strike.fraction = strike'.fraction ∧ R strike.surface strike'.surface ∧
    strike.impactPoint = strike'.impactPoint

def MapRaycastHit.Same (hit : MapRaycastHit 𝕜 σ) (hit' : MapRaycastHit 𝕜 τ) : Prop :=
  hit.distance = hit'.distance ∧ R hit.surface hit'.surface ∧ hit.point = hit'.point

variable {R} [Field 𝕜] [LinearOrder 𝕜] {from_ segment : Point 𝕜}
  {nearest : Option (Strike 𝕜 σ)} {nearest' : Option (Strike 𝕜 τ)}

theorem testTriangle_same {surface : σ} {surface' : τ} (hsurface : R surface surface')
    (h : Option.Rel (Strike.Same R) nearest nearest') (triangle : Triangle 𝕜) :
    Option.Rel (Strike.Same R) (testTriangle from_ segment surface nearest triangle)
      (testTriangle from_ segment surface' nearest' triangle) := by
  rw [testTriangle, testTriangle]
  cases crossingFraction from_ segment triangle with
  | none => exact h
  | some crossing =>
      cases h with
      | none => exact .some ⟨rfl, hsurface, rfl⟩
      | @some strike strike' hsame =>
          simp only [Option.all_some, ← hsame.1]
          split_ifs
          · exact .some ⟨rfl, hsurface, rfl⟩
          · exact .some hsame

theorem testHitbox_same {hitbox : Hitbox 𝕜 σ} {hitbox' : Hitbox 𝕜 τ} (hitboxes : hitbox.Same R hitbox')
    (h : Option.Rel (Strike.Same R) nearest nearest') :
    Option.Rel (Strike.Same R) (testHitbox from_ segment nearest hitbox)
      (testHitbox from_ segment nearest' hitbox') := by
  rw [testHitbox, testHitbox, ← hitboxes.2]
  generalize hitbox.triangles = triangles
  induction triangles generalizing nearest nearest' with
  | nil => exact h
  | cons triangle rest ih => exact ih (testTriangle_same hitboxes.1 h triangle)

/-- The same hitboxes, whatever they are called, are struck the same. -/
theorem testHitboxes_same {hitboxes : List (Hitbox 𝕜 σ)} {hitboxes' : List (Hitbox 𝕜 τ)}
    (hsame : List.Forall₂ (Hitbox.Same R) hitboxes hitboxes')
    (h : Option.Rel (Strike.Same R) nearest nearest') :
    Option.Rel (Strike.Same R) (testHitboxes from_ segment nearest hitboxes)
      (testHitboxes from_ segment nearest' hitboxes') := by
  induction hsame generalizing nearest nearest' with
  | nil => exact h
  | cons hone _ ih => exact ih (testHitbox_same hone h)

omit [LinearOrder 𝕜] in
theorem mapStrike_same (root : 𝕜 → 𝕜) {raycast : RaycastMap 𝕜 σ} {raycast' : RaycastMap 𝕜 τ}
    (h : ∀ origin direction distance, Option.Rel (MapRaycastHit.Same R)
      (raycast origin direction distance) (raycast' origin direction distance)) :
    Option.Rel (Strike.Same R) (mapStrike from_ segment root raycast)
      (mapStrike from_ segment root raycast') := by
  have hhit := h from_ segment (root (segment ⬝ᵥ segment))
  rw [mapStrike, mapStrike]
  generalize raycast from_ segment (root (segment ⬝ᵥ segment)) = hit at hhit ⊢
  generalize raycast' from_ segment (root (segment ⬝ᵥ segment)) = hit' at hhit ⊢
  cases hhit with
  | some hsame => exact .some ⟨congrArg (· / _) hsame.1, hsame.2.1, hsame.2.2⟩
  | none => exact .none

end

/-! ### What is not crossed is not struck -/

section
variable {𝕜 σ : Type} [Field 𝕜] [LinearOrder 𝕜] (from_ segment : Point 𝕜)

theorem testHitbox_of_uncrossed {hitbox : Hitbox 𝕜 σ}
    (h : ∀ triangle ∈ hitbox.triangles, crossingFraction from_ segment triangle = none)
    (nearest : Option (Strike 𝕜 σ)) : testHitbox from_ segment nearest hitbox = nearest := by
  obtain ⟨surface, triangles⟩ := hitbox
  rw [testHitbox]
  induction triangles with
  | nil => rfl
  | cons triangle rest ih =>
      have hnone : testTriangle from_ segment surface nearest triangle = nearest := by
        rw [testTriangle, h triangle (List.mem_cons_self ..)]
      rw [List.foldl_cons, hnone]
      exact ih fun other hmem => h other (List.mem_cons_of_mem _ hmem)

theorem testHitboxes_of_uncrossed {hitboxes : List (Hitbox 𝕜 σ)}
    (h : ∀ hitbox ∈ hitboxes, ∀ triangle ∈ hitbox.triangles,
      crossingFraction from_ segment triangle = none) (nearest : Option (Strike 𝕜 σ)) :
    testHitboxes from_ segment nearest hitboxes = nearest := by
  rw [testHitboxes]
  induction hitboxes with
  | nil => rfl
  | cons hitbox rest ih =>
      rw [List.foldl_cons, testHitbox_of_uncrossed _ _ (h hitbox (List.mem_cons_self ..))]
      exact ih fun other hmem => h other (List.mem_cons_of_mem _ hmem)

theorem testHitboxes_append (hitboxes more : List (Hitbox 𝕜 σ)) (nearest : Option (Strike 𝕜 σ)) :
    testHitboxes from_ segment nearest (hitboxes ++ more) =
      testHitboxes from_ segment (testHitboxes from_ segment nearest hitboxes) more :=
  List.foldl_append

/-- Whole groups of hitboxes left out, none of them crossed, change nothing. -/
theorem testHitboxes_filter {α : Type} (hitboxesOf : α → List (Hitbox 𝕜 σ)) (keep : α → Bool)
    {groups : List α} (h : ∀ group ∈ groups, keep group = false → ∀ hitbox ∈ hitboxesOf group,
      ∀ triangle ∈ hitbox.triangles, crossingFraction from_ segment triangle = none)
    (nearest : Option (Strike 𝕜 σ)) :
    testHitboxes from_ segment nearest ((groups.filter keep).flatMap hitboxesOf) =
      testHitboxes from_ segment nearest (groups.flatMap hitboxesOf) := by
  induction groups generalizing nearest with
  | nil => rfl
  | cons group rest ih =>
      have hrest := ih fun other hmem => h other (List.mem_cons_of_mem _ hmem)
      rw [List.flatMap_cons, testHitboxes_append]
      cases hkeep : keep group with
      | true => rw [List.filter_cons_of_pos hkeep, List.flatMap_cons, testHitboxes_append, hrest]
      | false =>
          rw [List.filter_cons_of_neg (by simp [hkeep]), hrest, testHitboxes_of_uncrossed _ _
            (h group (List.mem_cons_self ..) hkeep)]

end

/-! ### What is struck is read once the Step is over -/

section
variable {Body Strike Strike' : Type} (R : Strike → Strike' → Prop)

inductive Outcome.Same : Outcome Strike → Outcome Strike' → Prop
  | inFlight : Outcome.Same .inFlight .inFlight
  | struck {strike : Strike} {strike' : Strike'} (h : R strike strike') :
      Outcome.Same (.struck strike) (.struck strike')
  | expired : Outcome.Same .expired .expired

/-- The same movement but for what names the strike. -/
def Moved.Same (moved : Moved Body Strike) (moved' : Moved Body Strike') : Prop :=
  moved.body = moved'.body ∧ Option.Rel R moved.nearest moved'.nearest ∧
    moved.pastRange = moved'.pastRange

/-- The same Step but for what names the strike. -/
def SameStep (step : StepResult Body Strike × World Body)
    (step' : StepResult Body Strike' × World Body) : Prop :=
  Outcome.Same R step.1.outcome step'.1.outcome ∧ step.1.body = step'.1.body ∧ step.2 = step'.2

variable {R}

theorem outcomeOf_same {limit steps : ℕ} {moved : Moved Body Strike} {moved' : Moved Body Strike'}
    (h : moved.Same R moved') :
    Outcome.Same R (outcomeOf limit steps moved) (outcomeOf limit steps moved') := by
  obtain ⟨body, nearest, pastRange⟩ := moved
  obtain ⟨body', nearest', pastRange'⟩ := moved'
  obtain ⟨-, hnearest, rfl : pastRange = pastRange'⟩ := h
  rcases hnearest with @⟨strike, strike', hstrike⟩ | _
  · exact .struck hstrike
  · by_cases hspent : pastRange ∨ limit ≤ steps
    · simpa [outcomeOf, hspent] using Outcome.Same.expired
    · simpa [outcomeOf, hspent] using Outcome.Same.inFlight

/-- Two ways to move a bullet that strike the same come to the same Step. -/
theorem World.step_same (limit : ℕ) {move : Body → Moved Body Strike}
    {move' : Body → Moved Body Strike'} {handle : BulletHandle} {world : World Body}
    (h : ∀ bullet ∈ world.bullets.lookup handle, (move bullet.body).Same R (move' bullet.body)) :
    Option.Rel (SameStep R) (world.step limit move handle) (world.step limit move' handle) := by
  rw [World.step, World.step]
  cases hbullet : world.bullets.lookup handle with
  | none => exact .none
  | some bullet =>
      have hmoved := h bullet hbullet
      have houtcome : Outcome.Same R (outcomeOf limit (bullet.steps + 1) (move bullet.body))
          (outcomeOf limit (bullet.steps + 1) (move' bullet.body)) := outcomeOf_same hmoved
      simp only [Option.bind_eq_bind, Option.bind_some, hmoved.1]
      generalize outcomeOf limit (bullet.steps + 1) (move bullet.body) = outcome at houtcome ⊢
      generalize outcomeOf limit (bullet.steps + 1) (move' bullet.body) = outcome' at houtcome ⊢
      cases houtcome with
      | inFlight => exact .some ⟨.inFlight, rfl, rfl⟩
      | struck hstrike => exact .some ⟨.struck hstrike, rfl, rfl⟩
      | expired => exact .some ⟨.expired, rfl, rfl⟩

end
end Augusta.Ballistics
