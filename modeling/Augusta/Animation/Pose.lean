import Augusta.Animation.Clips

/-! `augusta::animation::Poser`: a Skeleton posed, and the rifle held in it.

      ozz's blocks of four   │ 0 1 2 3 │ 4 5 6 7 │ …
                               ╲ joints ╱
      local                  each Joint relative to its parent
      world                  root ─▶ parent ─▶ child, in the Skeleton's order

    Where a Clip puts a Joint, and what matrices and quaternions make of it, is ozz-animation's and
    GLM's. -/

namespace Augusta.Animation
open Assets

/-- A Character's Skeleton posed: its root, and each Joint relative to its parent and in the world. -/
structure SkeletonPose (Root Joint Matrix : Type) where
  root : Root
  locals : List Joint
  worlds : List Matrix

/-- Where the Joints of the arm that reaches are: its shoulder, its elbow and its hand. -/
structure Arm (Matrix : Type) where
  shoulder : Matrix
  elbow : Matrix
  hand : Matrix

/-- What a pose is made of. -/
structure Geometry (Root Joint Matrix : Type) where
  /-- A Joint nothing has posed yet. -/
  unposed : Joint
  unplaced : Matrix
  rootOf : Root → Matrix
  compose : Matrix → Joint → Math.Vec3 → Matrix
  /-- Where the rifle's Grip is held, by where its right hand is. -/
  grip : Matrix → Placement → Matrix
  /-- How two-bone IK turns the shoulder and the elbow of an arm to reach the rifle held there. -/
  reach : Matrix → Arm Matrix → (Joint → Joint) × (Joint → Joint)

/-- ozz's blocks of the pose of `joints` Joints, four of them a block: every buffer is fitted to
    the Skeleton. -/
structure Blocks (Joint : Type) (joints : ℕ) where
  lanes : List (Fin 4 → Joint)
  fitted : lanes.length = (joints + 3) / 4

/-- A vector of `size`: cut short, or with `filler` after it. -/
def resize {α : Type} (size : ℕ) (filler : α) (items : List α) : List α :=
  (items ++ List.replicate (size - items.length) filler).take size

/-- `.at(index) = value`: nothing, where it throws. -/
def setAt {α : Type} (items : List α) (index : ℕ) (value : α) : Option (List α) :=
  if index < items.length then some (items.set index value) else none

section
variable {Root Joint Matrix : Type} (geometry : Geometry Root Joint Matrix)

/-- What a Joint is composed onto. -/
def parentWorld (posed : SkeletonPose Root Joint Matrix) (data : JointData) : Option Matrix :=
  if data.parent = kNoParent then some (geometry.rootOf posed.root)
  else posed.worlds[data.parent.toNat]?

def composeJoint (skeleton : SkeletonData) (posed : SkeletonPose Root Joint Matrix) (joint : ℕ) :
    Option (SkeletonPose Root Joint Matrix) := do
  let data ← skeleton.joints[joint]?
  let parent ← parentWorld geometry posed data
  let placed ← posed.locals[joint]?
  let worlds ← setAt posed.worlds joint (geometry.compose parent placed data.transform.scale)
  return { posed with worlds }

/-- `ComposeWorld`: parents before children. -/
def composeWorld (skeleton : SkeletonData) (posed : SkeletonPose Root Joint Matrix) :
    Option (SkeletonPose Root Joint Matrix) :=
  (List.range skeleton.joints.length).foldlM (composeJoint geometry skeleton)
    { posed with worlds := resize skeleton.joints.length geometry.unplaced posed.worlds }

/-- The lane of one animated Joint, into its Joint of the Skeleton. -/
def writeJoint (lanes : List (Fin 4 → Joint)) (joints : List UInt32) (locals : List Joint)
    (index : ℕ) : Option (List Joint) := do
  let block ← lanes[index / 4]?
  let joint ← joints[index]?
  setAt locals joint.toNat (block (Fin.ofNat 4 index))

/-- The lane an animated Joint is posed by. -/
def laneOf (lanes : List (Fin 4 → Joint)) (index : ℕ) : Option Joint :=
  lanes[index / 4]?.map fun block => block (Fin.ofNat 4 index)

/-- `Pose`, of blocks evaluated from `clips`. -/
def pose (clips : CharacterClips) (skeleton : SkeletonData)
    (blocks : Blocks Joint clips.skeleton.numJoints) (root : Root)
    (posed : SkeletonPose Root Joint Matrix) : Option (SkeletonPose Root Joint Matrix) := do
  let locals ← (List.range clips.skeleton.numJoints).foldlM (writeJoint blocks.lanes clips.joints)
    (resize skeleton.joints.length geometry.unposed posed.locals)
  composeWorld geometry skeleton { posed with root, locals }

/-- `HoldRifle`: where the Grip is held, and the pose with the left hand on the Fore-end. -/
def holdRifle (skeleton : SkeletonData) (socket : WeaponSocket)
    (posed : SkeletonPose Root Joint Matrix) :
    Option (Matrix × SkeletonPose Root Joint Matrix) := do
  let rightHand ← posed.worlds[socket.rightHand.toNat]?
  let hand := geometry.grip rightHand socket.frame
  let mid ← parentOf skeleton socket.leftHand
  let start ← parentOf skeleton mid
  let shoulder ← posed.worlds[start.toNat]?
  let elbow ← posed.worlds[mid.toNat]?
  let wrist ← posed.worlds[socket.leftHand.toNat]?
  let turns := geometry.reach hand ⟨shoulder, elbow, wrist⟩
  let upper ← posed.locals[start.toNat]?
  let locals ← setAt posed.locals start.toNat (turns.1 upper)
  let lower ← locals[mid.toNat]?
  let locals ← setAt locals mid.toNat (turns.2 lower)
  let held ← composeWorld geometry skeleton { posed with locals }
  return (hand, held)

end

end Augusta.Animation
