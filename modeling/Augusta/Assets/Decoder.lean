import Augusta.Assets.Content

/-! `augusta::assets`' blobs, read: untrusted bytes, or the content they hold.

    A reader that has failed reads nothing more here; the code reads on and fails at the end, which
    gives the same. -/

namespace Augusta.Assets
open Lib (Binary32 Reader)
open Lib.Reader
open Math

/-- What is read of a blob from its start. -/
def decoded {α : Type} (read : Reader α) (blob : Bytes) : Option α := (read.run blob).map (·.1)

def bodyPartOf (byte : UInt8) : Reader BodyPart :=
  match byte with
  | 0 => pure .head
  | 1 => pure .torso
  | 2 => pure .limb
  | _ => failure

def footOf (byte : UInt8) : Reader Foot :=
  match byte with
  | 0 => pure .left
  | 1 => pure .right
  | _ => failure

/-- A count no greater than `limit`. -/
def readCount (limit : ℕ) : Reader ℕ := do
  let count ← readU32
  demand (count.toNat ≤ limit)
  return count.toNat

def readOptionalPath (flags bit : UInt8) : Reader (Option Bytes) :=
  if flags &&& bit = 0 then pure none else some <$> readString

def readTransform : Reader Transform := do
  let translation ← readVec3
  let rotation ← readQuat
  let scale ← readVec3
  return { translation, rotation, scale }

def readProperty : Reader (Bytes × Bytes) := do
  let key ← readString
  let value ← readString
  return (key, value)

def readProperties : Reader (List (Bytes × Bytes)) := do
  let count ← readCount kMaxProperties
  many (fun _ => readProperty) count []

/-- The node at `index`: its parent is listed before it. -/
def readSceneNode (index : ℕ) : Reader SceneNode := do
  let name ← readString
  let parentIndex ← readU32
  demand (parentBefore parentIndex index)
  let transform ← readTransform
  let flags ← readU8
  let meshPath ← readOptionalPath flags kNodeHasMesh
  let materialPath ← readOptionalPath flags kNodeHasMaterial
  let colliderPath ← readOptionalPath flags kNodeHasCollider
  let hitboxPath ← readOptionalPath flags kNodeHasHitbox
  let isSpawnPoint := flags &&& kNodeIsSpawnPoint != 0
  let properties ← readProperties
  return { name, parentIndex, transform, meshPath, materialPath, colliderPath, hitboxPath
           isSpawnPoint, properties }

/-- An index among so many points. -/
def readIndex (points : ℕ) : Reader UInt32 := do
  let index ← readU32
  demand (index.toNat < points)
  return index

def readMesh : Reader MeshData := do
  let pointCount ← readCount kMaxMeshPoints
  let points ← many (fun _ => readVec3) pointCount []
  let indexCount ← readCount kMaxMeshIndices
  demand (indexCount % 3 = 0)
  let indices ← many (fun _ => readIndex points.length) indexCount []
  return { points, indices }

def decodeMeshBlob (blob : Bytes) : Option MeshData := decoded readMesh blob

def decodeSceneBlob (blob : Bytes) : Option SceneData := decoded (do
  let count ← readCount kMaxSceneNodes
  let nodes ← many (fun before => readSceneNode before.length) count []
  return { nodes }) blob

def readPlacement : Reader Placement := do
  let translation ← readVec3
  let rotation ← readQuat
  return { translation, rotation }

def decodeSpawnPointBlob (blob : Bytes) : Option SpawnPointData := decoded readPlacement blob

/-- The mesh is the rest of the blob. -/
def decodeHitboxBlob (blob : Bytes) : Option HitboxData := decoded (do
  let byte ← readU8
  let part ← bodyPartOf byte
  let joint ← readString
  let mesh ← readMesh
  return { part, joint, mesh }) blob

def readJoint (index : ℕ) : Reader JointData := do
  let name ← readString
  let parent ← readU32
  let transform ← readTransform
  demand (parentBefore parent index)
  return { name, parent, transform }

def decodeSkeletonBlob (blob : Bytes) : Option SkeletonData := decoded (do
  let count ← readCount kMaxJoints
  let joints ← many (fun before => readJoint before.length) count []
  return { joints }) blob

def decodeEyeBlob (blob : Bytes) : Option EyeData := decoded (EyeData.mk <$> readVec3) blob

def decodeRifleBlob (blob : Bytes) : Option RifleData := decoded (do
  let grip ← readPlacement
  let muzzle ← readPlacement
  let sight ← readPlacement
  let foreEnd ← readPlacement
  return { grip, muzzle, sight, foreEnd }) blob

def decodeWeaponSocketBlob (blob : Bytes) : Option WeaponSocketData := decoded (do
  let rightHand ← readString
  let translation ← readVec3
  let rotation ← readQuat
  let leftHand ← readString
  return { rightHand, translation, rotation, leftHand }) blob

def decodeCharactersBlob (blob : Bytes) : Option (List Bytes) := decoded (do
  let count ← readCount kMaxCharacters
  many (fun _ => readString) count []) blob

def decodeAudioBlob (blob : Bytes) : Option AudioData := decoded (do
  let sampleRate ← readU32
  let bitsPerSample ← readU8
  let size ← readCount kMaxAudioBytes
  demand (bitsPerSample ∈ kPcmBitsPerSample)
  demand (size % (bitsPerSample.toNat / 8) = 0)
  let samples ← Lib.Reader.take size
  return { sampleRate, bitsPerSample, samples }) blob

def decodeCueSoundBlob (blob : Bytes) : Option CueSoundData := decoded (do
  let gainDb ← readF32
  demand gainDb.isFinite
  let count ← readCount kMaxCueVariants
  demand (count ≠ 0)
  let variants ← many (fun _ => readString) count []
  return { gainDb, variants }) blob

def readFootContact : Reader FootContact := do
  let byte ← readU8
  let ratio ← readF32
  let foot ← footOf byte
  demand (isValidFootContactRatio ratio)
  return { foot, ratio }

def decodeClipBlob (blob : Bytes) : Option ClipData := decoded (do
  let strideLength ← readF32
  let count ← readU8
  demand (isValidStrideLength strideLength)
  let footContacts ← many (fun _ => readFootContact) count.toNat []
  let archive ← Lib.Reader.rest
  demand (archive.length ≤ kMaxArchiveBytes)
  return { strideLength, footContacts, archive }) blob

def decodeStanceTransitionsBlob (blob : Bytes) : Option StanceTransitionsData := decoded (do
  let standingCrouching ← readF32
  let standingProne ← readF32
  let crouchingProne ← readF32
  let rest ← Lib.Reader.rest
  demand (rest = [])
  demand (isValidTransitionDuration standingCrouching)
  demand (isValidTransitionDuration standingProne)
  demand (isValidTransitionDuration crouchingProne)
  return { standingCrouching, standingProne, crouchingProne }) blob

end Augusta.Assets
