import Augusta.Animation.Clips
import Augusta.Lib.Numerals
import Mathlib.Algebra.Field.Defs
import Mathlib.Algebra.Order.Field.Basic

/-! A stance's blend space over exact arithmetic: which of its Clips make a body's pose at a velocity,
    and how much of it each makes.

                  forward                     below ─── angle ─── above     each by how near it is
        left ───────┼─────── right            slower than they move ──▶ idle makes up the rest
                 backward                     faster, forward's share goes over to sprint

    Angles go from ahead towards the right, from -π, behind, to π, behind again. -/

namespace Augusta.Animation

/-- Which of its stance's Clips a Clip is. -/
inductive Role
  | idle | forward | backward | left | right | forwardLeft | forwardRight | backwardLeft
  | backwardRight | sprint
  deriving DecidableEq, Repr

/-- A Clip, as far as it moves a body. -/
structure Gait (𝕜 : Type*) where
  strideLength : 𝕜
  duration : 𝕜

/-- A directional Clip, and the direction it moves in. -/
structure Direction (𝕜 : Type*) where
  role : Role
  clip : Gait 𝕜
  angle : 𝕜

structure ClipWeight (𝕜 : Type*) where
  role : Role
  clip : Gait 𝕜
  weight : 𝕜

/-- Idle, two directions and sprint. -/
def kMaxBlendedClips : ℕ := 4

section
variable {𝕜 : Type*} [Field 𝕜] [LinearOrder 𝕜]

/-- Below this speed, in m/s, a body is still. -/
def kStill : 𝕜 := 1 / 10000

/-- How fast a Clip moves a body: its stride over its duration. -/
def speedOf (clip : Gait 𝕜) : 𝕜 :=
  if 0 < clip.duration then clip.strideLength / clip.duration else 0

variable (kPi : 𝕜) (clips : StanceClips (Gait 𝕜))

def backwardOf (angle : 𝕜) : Direction 𝕜 := ⟨.backward, clips.backward, angle⟩

attribute [local instance] Lib.atLeastTwo_two Lib.atLeastTwo_three Lib.atLeastTwo_four in
/-- The Clips a stance may have after backward, each with its direction, by angle: the left side,
    ahead, the right side. -/
def sideClips : List (Role × Option (Gait 𝕜) × 𝕜) :=
  let kEighthTurn := kPi / 4
  [(.backwardLeft, clips.backwardLeft, -3 * kEighthTurn), (.left, clips.left, -2 * kEighthTurn),
    (.forwardLeft, clips.forwardLeft, -kEighthTurn), (.forward, some clips.forward, 0),
    (.forwardRight, clips.forwardRight, kEighthTurn), (.right, clips.right, 2 * kEighthTurn),
    (.backwardRight, clips.backwardRight, 3 * kEighthTurn)]

/-- Those it has. -/
def sidesOf : List (Direction 𝕜) :=
  (sideClips kPi clips).filterMap fun (role, clip, angle) => clip.map fun clip => ⟨role, clip, angle⟩

/-- Every direction a stance has a Clip for, by angle from -π up. -/
def directionsOf : List (Direction 𝕜) := backwardOf clips (-kPi) :: sidesOf kPi clips

/-- The first two neighbours with `angle` between them. -/
def neighbours? (angle : 𝕜) : List (Direction 𝕜) → Option (Direction 𝕜 × Direction 𝕜)
  | below :: above :: rest =>
      if below.angle ≤ angle ∧ angle < above.angle then some (below, above)
      else neighbours? angle (above :: rest)
  | _ => none

/-- The directions either side of `angle`, round the circle: the last one's neighbour is backward
    again, at π. -/
def neighboursOf (angle : 𝕜) : Direction 𝕜 × Direction 𝕜 :=
  (neighbours? angle (directionsOf kPi clips)).getD
    ((sidesOf kPi clips).getLastD (backwardOf clips (-kPi)), backwardOf clips kPi)

/-- How far `angle` is from the first of its two neighbours to the other. -/
def towardAbove (angle : 𝕜) : 𝕜 :=
  let (below, above) := neighboursOf kPi clips angle
  (angle - below.angle) / (above.angle - below.angle)

/-- What the two directions move a body at, each by its share. -/
def clipSpeed (angle : 𝕜) : 𝕜 :=
  let (below, above) := neighboursOf kPi clips angle
  let toward := towardAbove kPi clips angle
  (1 - toward) * speedOf below.clip + toward * speedOf above.clip

/-- How much of the pose each of the Clips blended makes. -/
structure Shares (𝕜 : Type*) where
  idle : 𝕜
  below : 𝕜
  above : 𝕜
  sprint : 𝕜

/-- Slower than the two Clips move, idle makes up the rest. -/
def moved (speed angle : 𝕜) : Shares 𝕜 :=
  let toward := towardAbove kPi clips angle
  let clipSpeed := clipSpeed kPi clips angle
  if 0 < clipSpeed ∧ speed < clipSpeed then
    let moving := speed / clipSpeed
    ⟨1 - moving, (1 - toward) * moving, toward * moving, 0⟩
  else ⟨0, 1 - toward, toward, 0⟩

/-- Of `sprint` and two directions at `clipSpeed`, how much of forward's share is sprint's. -/
def towardSprint (sprint : Gait 𝕜) (clipSpeed speed : 𝕜) : 𝕜 :=
  if clipSpeed < speed ∧ clipSpeed < speedOf sprint then
    min ((speed - clipSpeed) / (speedOf sprint - clipSpeed)) 1
  else 0

/-- Faster, standing, forward's weight goes over to sprint as the speed nears its. -/
def sprinted (speed angle : 𝕜) : Shares 𝕜 :=
  let (below, above) := neighboursOf kPi clips angle
  let shares := moved kPi clips speed angle
  match clips.sprint with
  | none => shares
  | some sprint =>
      let toward := towardSprint sprint (clipSpeed kPi clips angle) speed
      if below.role = .forward then
        { shares with sprint := shares.below * toward, below := shares.below - shares.below * toward }
      else if above.role = .forward then
        { shares with sprint := shares.above * toward, above := shares.above - shares.above * toward }
      else shares

/-- `Add`: a Clip that makes none of the pose is left out. -/
def add (role : Role) (clip : Gait 𝕜) (weight : 𝕜) (blend : List (ClipWeight 𝕜)) :
    List (ClipWeight 𝕜) :=
  if 0 < weight then blend ++ [⟨role, clip, weight⟩] else blend

/-- `BlendSpace`, at a speed and an angle. -/
def blendSpace (speed angle : 𝕜) : List (ClipWeight 𝕜) :=
  if speed < kStill then add .idle clips.idle 1 []
  else
    let (below, above) := neighboursOf kPi clips angle
    let shares := sprinted kPi clips speed angle
    let blend := [] |> add .idle clips.idle shares.idle |> add below.role below.clip shares.below
      |> add above.role above.clip shares.above
    match clips.sprint with
    | none => blend
    | some sprint => add .sprint sprint shares.sprint blend

/-- How much of a blend one of the Clips makes. -/
def weightOf (blend : List (ClipWeight 𝕜)) (role : Role) : 𝕜 :=
  ((blend.filter fun each => each.role = role).map (·.weight)).sum

end

end Augusta.Animation
