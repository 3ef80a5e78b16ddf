import Augusta.Assets.Decoder
import Augusta.Core.Command
import Augusta.Lib.Table

/-! `augusta::animation`'s Clips: what of a Character's pack poses it, loaded and checked.

      animated Joint ──name──▶ Joint of the Skeleton        as many of one as of the other
      hand ──parent──▶ elbow ──parent──▶ shoulder           of the Skeleton

    What ozz-animation makes of an archive is its own business. -/

namespace Augusta.Animation
open Assets
open Lib (Binary32 Table)

inductive ResolveError
  | notFound | typeMismatch | corruptBlob
  deriving DecidableEq, Repr

/-- An `ozz::animation::Animation`, as far as it is checked. -/
structure OzzAnimation where
  numTracks : ℕ
  duration : Binary32
  deriving DecidableEq, Repr

/-- An `ozz::animation::Skeleton`: its Joints' names, depth first. -/
structure OzzSkeleton where
  jointNames : List Bytes
  deriving DecidableEq, Repr

def OzzSkeleton.numJoints (skeleton : OzzSkeleton) : ℕ := skeleton.jointNames.length

/-- What ozz-animation reads out of an archive: nothing, where it is none of its kind. -/
structure Ozz where
  skeletonOf : Bytes → Option OzzSkeleton
  animationOf : Bytes → Option OzzAnimation

/-- What a pack gives of one Character. -/
structure CharacterPack where
  animationSkeleton : Except ResolveError Bytes
  clip : String → Except ResolveError ClipData
  stanceTransitions : Except ResolveError StanceTransitionsData
  weaponSocket : Except ResolveError WeaponSocketData

/-! ### What is loaded -/

structure Clip where
  animation : OzzAnimation
  strideLength : Binary32
  footContacts : List FootContact
  deriving DecidableEq, Repr

/-- A stance's Clips; an optional one a Character lacks is none. -/
structure StanceClips (κ : Type*) where
  idle : κ
  forward : κ
  backward : κ
  left : Option κ
  right : Option κ
  forwardLeft : Option κ
  forwardRight : Option κ
  backwardLeft : Option κ
  backwardRight : Option κ
  /-- Standing's alone. -/
  sprint : Option κ
  aimDown : κ
  aimCenter : κ
  aimUp : κ
  ads : κ

structure WeaponSocket where
  rightHand : UInt32
  /-- The socket in that Joint's space. -/
  frame : Placement
  leftHand : UInt32
  deriving DecidableEq, Repr

structure CharacterClips where
  skeleton : OzzSkeleton
  /-- For each Joint of `skeleton`, the index of the same Joint in the Character's Skeleton. -/
  joints : List UInt32
  stances : Physics.Stance → StanceClips Clip
  air : Clip
  transitions : StanceTransitionsData
  weaponSocket : WeaponSocket

/-! ### What is refused -/

inductive ClipPart
  | skeleton | clip | transitions | weaponSocket
  deriving DecidableEq, Repr

inductive ClipLoadCause
  | unresolved | notAnArchive | noJoint | unknownJoint | jointCountMismatch | trackCountMismatch
  | unknownRightHand | unknownLeftHand | leftHandHasNoArm | rightHandHasNoArm
  deriving DecidableEq, Repr

structure ClipLoadError where
  part : ClipPart := .clip
  cause : ClipLoadCause := .unresolved
  role : String := ""
  resolve : ResolveError := .notFound
  joint : Bytes := []
  count : ℕ := 0
  expected : ℕ := 0
  deriving DecidableEq, Repr

def refusal (part : ClipPart) (cause : ClipLoadCause) (role : String := "") : ClipLoadError :=
  { part, cause, role }

def unresolved (part : ClipPart) (error : ResolveError) (role : String := "") : ClipLoadError :=
  { refusal part .unresolved role with resolve := error }

def naming (part : ClipPart) (cause : ClipLoadCause) (joint : Bytes) : ClipLoadError :=
  { refusal part cause with joint }

def counting (part : ClipPart) (cause : ClipLoadCause) (count expected : ℕ) (role : String := "") :
    ClipLoadError :=
  { refusal part cause role with count, expected }

/-! ### The Skeleton -/

/-- A pack's part, or why it could not give it. -/
def resolved {α : Type} (part : ClipPart) (given : Except ResolveError α) (role : String := "") :
    Except ClipLoadError α :=
  given.mapError fun error => unresolved part error role

section
variable (ozz : Ozz) (pack : CharacterPack)

def loadSkeleton : Except ClipLoadError OzzSkeleton := do
  let archive ← resolved .skeleton pack.animationSkeleton
  match ozz.skeletonOf archive with
  | none => .error (refusal .skeleton .notAnArchive)
  | some skeleton =>
      if skeleton.numJoints = 0 then .error (refusal .skeleton .noJoint) else .ok skeleton

/-- The index of the first Joint of each name. -/
def indexTable (skeleton : SkeletonData) : Table Bytes UInt32 :=
  skeleton.joints.zipIdx.foldl (fun table (joint, index) =>
    table.emplace joint.name (UInt32.ofNat index)) ∅

/-- For each animated Joint its index in `skeleton`, or why the two do not hold the same Joints. -/
def jointsOf (animated : OzzSkeleton) (skeleton : SkeletonData) :
    Except ClipLoadError (List UInt32) := do
  let joints ← animated.jointNames.mapM fun name =>
    match (indexTable skeleton).lookup name with
    | none => .error (naming .skeleton .unknownJoint name)
    | some index => .ok index
  if joints.length ≠ skeleton.joints.length then
    .error (counting .skeleton .jointCountMismatch joints.length skeleton.joints.length)
  else .ok joints

/-! ### The Clips -/

def openClip (skeleton : OzzSkeleton) (role : String) (data : ClipData) :
    Except ClipLoadError Clip :=
  match ozz.animationOf data.archive with
  | none => .error (refusal .clip .notAnArchive role)
  | some animation =>
      if animation.numTracks ≠ skeleton.numJoints then
        .error (counting .clip .trackCountMismatch animation.numTracks skeleton.numJoints role)
      else .ok ⟨animation, data.strideLength, data.footContacts⟩

/-- `LoadClip` of a Clip a Character must have. -/
def loadRequired (skeleton : OzzSkeleton) (role : String) : Except ClipLoadError Clip := do
  openClip ozz skeleton role (← resolved .clip (pack.clip role) role)

/-- `LoadClip` of one it may lack, if it is `optional`. -/
def loadEither (skeleton : OzzSkeleton) (role : String) (isOptional : Bool) :
    Except ClipLoadError (Option Clip) :=
  match pack.clip role with
  | .error .notFound => if isOptional then .ok none else .error (unresolved .clip .notFound role)
  | .error error => .error (unresolved .clip error role)
  | .ok data => some <$> openClip ozz skeleton role data

def stanceName : Physics.Stance → String
  | .standing => "standing"
  | .crouching => "crouching"
  | .prone => "prone"

def loadStance (skeleton : OzzSkeleton) (stance : Physics.Stance) :
    Except ClipLoadError (StanceClips Clip) := do
  let role (clip : String) := stanceName stance ++ "/" ++ clip
  let required (clip : String) := loadRequired ozz pack skeleton (role clip)
  let either (clip : String) (isOptional : Bool) :=
    loadEither ozz pack skeleton (role clip) isOptional
  let prone := stance = .prone
  let idle ← required "idle"
  let forward ← required "forward"
  let backward ← required "backward"
  let left ← either "left" prone
  let right ← either "right" prone
  let forwardLeft ← either "forward_left" true
  let forwardRight ← either "forward_right" true
  let backwardLeft ← either "backward_left" true
  let backwardRight ← either "backward_right" true
  let sprint ← if stance ≠ .standing then .ok none else either "sprint" false
  let aimDown ← required "aim_down"
  let aimCenter ← required "aim_center"
  let aimUp ← required "aim_up"
  let ads ← required "ads"
  return { idle, forward, backward, left, right, forwardLeft, forwardRight, backwardLeft
           backwardRight, sprint, aimDown, aimCenter, aimUp, ads }

/-! ### The Weapon socket -/

/-- The index of the first Joint named `name`. -/
def indexOf (skeleton : SkeletonData) (name : Bytes) : Option UInt32 :=
  (skeleton.joints.findIdx? fun joint => joint.name = name).map UInt32.ofNat

/-- The parent of a Joint of `skeleton`. -/
def parentOf (skeleton : SkeletonData) (joint : UInt32) : Option UInt32 :=
  skeleton.joints[joint.toNat]?.map (·.parent)

/-- Whether a hand has a parent, the elbow, and a grandparent, the shoulder. -/
def hasAnArm (skeleton : SkeletonData) (hand : UInt32) : Bool :=
  match parentOf skeleton hand with
  | none => false
  | some elbow => elbow ≠ kNoParent && parentOf skeleton elbow ≠ some kNoParent

def loadWeaponSocket (skeleton : SkeletonData) : Except ClipLoadError WeaponSocket := do
  let data ← resolved .weaponSocket pack.weaponSocket
  let refused (cause : ClipLoadCause) (joint : Bytes) : Except ClipLoadError WeaponSocket :=
    .error (naming .weaponSocket cause joint)
  match indexOf skeleton data.rightHand with
  | none => refused .unknownRightHand data.rightHand
  | some rightHand =>
      match indexOf skeleton data.leftHand with
      | none => refused .unknownLeftHand data.leftHand
      | some leftHand =>
          if ¬ hasAnArm skeleton leftHand then refused .leftHandHasNoArm data.leftHand
          else if ¬ hasAnArm skeleton rightHand then refused .rightHandHasNoArm data.rightHand
          else .ok ⟨rightHand, ⟨data.translation, data.rotation⟩, leftHand⟩

/-! ### All of it -/

/-- `LoadClips` of a Character, whose Skeleton is `skeleton`. -/
def loadClips (skeleton : SkeletonData) : Except ClipLoadError CharacterClips := do
  let animated ← loadSkeleton ozz pack
  let joints ← jointsOf animated skeleton
  let standing ← loadStance ozz pack animated .standing
  let crouching ← loadStance ozz pack animated .crouching
  let prone ← loadStance ozz pack animated .prone
  let air ← loadRequired ozz pack animated "air"
  let transitions ← resolved .transitions pack.stanceTransitions
  let weaponSocket ← loadWeaponSocket pack skeleton
  let stances : Physics.Stance → StanceClips Clip
    | .standing => standing
    | .crouching => crouching
    | .prone => prone
  return { skeleton := animated, joints, stances, air, transitions, weaponSocket }

end

/-- `ShoulderOf`: the shoulder of the arm that holds the rifle. -/
def shoulderOf (skeleton : SkeletonData) (socket : WeaponSocket) : Option UInt32 := do
  parentOf skeleton (← parentOf skeleton socket.rightHand)

end Augusta.Animation
