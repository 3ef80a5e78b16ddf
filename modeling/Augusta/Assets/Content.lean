import Augusta.Assets.WireFormat
import Augusta.Core.Parameters

/-! `augusta::assets`' content: what a pack's blobs hold, and the rules whoever uses it indexes by.

      triangles   i j k │ i j k │ …      each the index of a point
      hierarchy   [root] [0] [0] [2] …   each parent before its child -/

namespace Augusta.Assets
open Lib (Binary32)
open Math

structure MeshData where
  points : List Vec3 := []
  indices : List UInt32 := []
  deriving DecidableEq, Repr

/-- The byte a body part is carried as. -/
def partByte : BodyPart → UInt8
  | .head => 0
  | .torso => 1
  | .limb => 2

structure HitboxData where
  part : BodyPart := .torso
  joint : Bytes := []
  mesh : MeshData := {}
  deriving DecidableEq, Repr

/-- `kJointNoParent` and `kSceneNodeNoParent`. -/
def kNoParent : UInt32 := 0xFFFFFFFF

def kMaxJoints : ℕ := 128

def kMaxCharacters : ℕ := 255

/-- A transform relative to a parent's. -/
structure Transform where
  translation : Vec3 := {}
  rotation : Quat := {}
  scale : Vec3 := ⟨.one, .one, .one⟩
  deriving DecidableEq, Repr

structure JointData where
  name : Bytes
  parent : UInt32 := kNoParent
  transform : Transform := {}
  deriving DecidableEq, Repr

structure SkeletonData where
  joints : List JointData
  deriving DecidableEq, Repr

inductive Foot
  | left | right
  deriving DecidableEq, Repr

def footByte : Foot → UInt8
  | .left => 0
  | .right => 1

structure FootContact where
  foot : Foot := .left
  ratio : Binary32 := .zero
  deriving DecidableEq, Repr

structure ClipData where
  strideLength : Binary32 := .zero
  footContacts : List FootContact := []
  archive : Bytes := []
  deriving DecidableEq, Repr

structure StanceTransitionsData where
  standingCrouching : Binary32 := .zero
  standingProne : Binary32 := .zero
  crouchingProne : Binary32 := .zero
  deriving DecidableEq, Repr

structure SceneNode where
  name : Bytes
  parentIndex : UInt32 := kNoParent
  transform : Transform := {}
  meshPath : Option Bytes := none
  materialPath : Option Bytes := none
  colliderPath : Option Bytes := none
  hitboxPath : Option Bytes := none
  isSpawnPoint : Bool := false
  properties : List (Bytes × Bytes) := []
  deriving DecidableEq, Repr

structure SceneData where
  nodes : List SceneNode
  deriving DecidableEq, Repr

structure AudioData where
  sampleRate : UInt32 := 0
  bitsPerSample : UInt8 := 0
  samples : Bytes := []
  deriving DecidableEq, Repr

structure CueSoundData where
  gainDb : Binary32 := .zero
  variants : List Bytes := []
  deriving DecidableEq, Repr

/-- A translation and a rotation: a spawn point's, or a rifle's marker's. -/
structure Placement where
  translation : Vec3 := {}
  rotation : Quat := {}
  deriving DecidableEq, Repr

abbrev SpawnPointData := Placement

abbrev RifleMarker := Placement

structure EyeData where
  position : Vec3 := {}
  deriving DecidableEq, Repr

structure RifleData where
  grip : RifleMarker := {}
  muzzle : RifleMarker := {}
  sight : RifleMarker := {}
  foreEnd : RifleMarker := {}
  deriving DecidableEq, Repr

structure WeaponSocketData where
  rightHand : Bytes
  translation : Vec3 := {}
  rotation : Quat := {}
  leftHand : Bytes
  deriving DecidableEq, Repr

/-! ### The rules content is used by -/

/-- Whether a parent is listed before the `index`-th. -/
def parentBefore (parent : UInt32) (index : ℕ) : Bool := parent = kNoParent || parent.toNat < index

/-- Triangles, of the mesh's own points. -/
structure MeshData.WellFormed (mesh : MeshData) : Prop where
  triangles : mesh.indices.length % 3 = 0
  inside : ∀ index ∈ mesh.indices, index.toNat < mesh.points.length

/-- Every Joint after its parent. -/
def SkeletonData.WellFormed (skeleton : SkeletonData) : Prop :=
  ∀ i joint, skeleton.joints[i]? = some joint → parentBefore joint.parent i = true

/-- Every node after its parent. -/
def SceneData.WellFormed (scene : SceneData) : Prop :=
  ∀ i node, scene.nodes[i]? = some node → parentBefore node.parentIndex i = true

/-- Whole samples, of a width a PCM WAV file holds. -/
structure AudioData.WellFormed (sound : AudioData) : Prop where
  width : sound.bitsPerSample ∈ kPcmBitsPerSample
  whole : sound.samples.length % (sound.bitsPerSample.toNat / 8) = 0

structure ClipData.WellFormed (clip : ClipData) : Prop where
  stride : isValidStrideLength clip.strideLength = true
  contacts : ∀ contact ∈ clip.footContacts, isValidFootContactRatio contact.ratio = true

structure StanceTransitionsData.WellFormed (transitions : StanceTransitionsData) : Prop where
  standingCrouching : isValidTransitionDuration transitions.standingCrouching = true
  standingProne : isValidTransitionDuration transitions.standingProne = true
  crouchingProne : isValidTransitionDuration transitions.crouchingProne = true

structure CueSoundData.WellFormed (sound : CueSoundData) : Prop where
  variant : sound.variants ≠ []
  gain : sound.gainDb.isFinite = true

end Augusta.Assets
