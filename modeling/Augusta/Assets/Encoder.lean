import Augusta.Assets.Content

/-! `augusta::assets`' blobs, written.

      mesh      points, indices           hitbox    part, Joint, mesh
      scene     nodes                     skeleton  Joints
      clip      stride, contacts, archive audio     rate, width, samples -/

namespace Augusta.Assets
open Math

inductive EncodeError
  | tooLarge
  | unsupportedSampleWidth
  | partialSample
  | invalidCueSound
  | invalidAnimation
  deriving DecidableEq, Repr

/-- What was written, where nothing was too long for it. -/
def orTooLarge : Option Bytes → Except EncodeError Bytes
  | none => .error .tooLarge
  | some written => .ok written

def writeTransform (transform : Transform) : Bytes :=
  writeVec3 transform.translation ++ (writeQuat transform.rotation ++ writeVec3 transform.scale)

/-- A bit of a node's flags. -/
def flagIf (c : Bool) (bit : UInt8) : UInt8 := if c then bit else 0

/-- The flags of a node: which of its paths there are, and whether it is a spawn point. -/
def nodeFlags (node : SceneNode) : UInt8 :=
  flagIf node.meshPath.isSome kNodeHasMesh ||| flagIf node.materialPath.isSome kNodeHasMaterial |||
    flagIf node.colliderPath.isSome kNodeHasCollider |||
    flagIf node.hitboxPath.isSome kNodeHasHitbox ||| flagIf node.isSpawnPoint kNodeIsSpawnPoint

def encodeProperty (property : Bytes × Bytes) : Except EncodeError Bytes := do
  let key ← orTooLarge (writeString property.1)
  let value ← orTooLarge (writeString property.2)
  return key ++ value

def encodeSceneNode (node : SceneNode) : Except EncodeError Bytes := do
  let name ← orTooLarge (writeString node.name)
  let mesh ← orTooLarge (writeOptionalPath node.meshPath)
  let material ← orTooLarge (writeOptionalPath node.materialPath)
  let collider ← orTooLarge (writeOptionalPath node.colliderPath)
  let hitbox ← orTooLarge (writeOptionalPath node.hitboxPath)
  if kMaxProperties < node.properties.length then .error .tooLarge
  else
    let properties ← node.properties.mapM encodeProperty
    return name ++ (writeU32 node.parentIndex ++ (writeTransform node.transform ++
      (writeU8 (nodeFlags node) ++ (mesh ++ (material ++ (collider ++ (hitbox ++
        (writeCount node.properties ++ properties.flatten))))))))

def encodeMeshBlob (mesh : MeshData) : Except EncodeError Bytes :=
  if kMaxMeshPoints < mesh.points.length ∨ kMaxMeshIndices < mesh.indices.length then
    .error .tooLarge
  else
    .ok (writeCount mesh.points ++ ((mesh.points.map writeVec3).flatten ++
      (writeCount mesh.indices ++ (mesh.indices.map writeU32).flatten)))

def encodeSceneBlob (scene : SceneData) : Except EncodeError Bytes :=
  if kMaxSceneNodes < scene.nodes.length then .error .tooLarge
  else do
    let nodes ← scene.nodes.mapM encodeSceneNode
    return writeCount scene.nodes ++ nodes.flatten

def writePlacement (placement : Placement) : Bytes :=
  writeVec3 placement.translation ++ writeQuat placement.rotation

def encodeSpawnPointBlob (spawnPoint : SpawnPointData) : Except EncodeError Bytes :=
  .ok (writePlacement spawnPoint)

def encodeHitboxBlob (hitbox : HitboxData) : Except EncodeError Bytes := do
  let mesh ← encodeMeshBlob hitbox.mesh
  let joint ← orTooLarge (writeString hitbox.joint)
  return writeU8 (partByte hitbox.part) ++ (joint ++ mesh)

def encodeJoint (joint : JointData) : Except EncodeError Bytes := do
  let name ← orTooLarge (writeString joint.name)
  return name ++ (writeU32 joint.parent ++ writeTransform joint.transform)

def encodeSkeletonBlob (skeleton : SkeletonData) : Except EncodeError Bytes :=
  if kMaxJoints < skeleton.joints.length then .error .tooLarge
  else do
    let joints ← skeleton.joints.mapM encodeJoint
    return writeCount skeleton.joints ++ joints.flatten

def writeFootContact (contact : FootContact) : Bytes :=
  writeU8 (footByte contact.foot) ++ writeF32 contact.ratio

def encodeClipBlob (clip : ClipData) : Except EncodeError Bytes :=
  if kMaxArchiveBytes < clip.archive.length ∨ kMaxFootContacts < clip.footContacts.length then
    .error .tooLarge
  else if !isValidStrideLength clip.strideLength ||
      !clip.footContacts.all fun contact => isValidFootContactRatio contact.ratio then
    .error .invalidAnimation
  else
    .ok (writeF32 clip.strideLength ++ (writeU8 (UInt8.ofNat clip.footContacts.length) ++
      ((clip.footContacts.map writeFootContact).flatten ++ clip.archive)))

def encodeStanceTransitionsBlob (transitions : StanceTransitionsData) :
    Except EncodeError Bytes :=
  let durations :=
    [transitions.standingCrouching, transitions.standingProne, transitions.crouchingProne]
  if !durations.all isValidTransitionDuration then .error .invalidAnimation
  else .ok (durations.map writeF32).flatten

def encodeEyeBlob (eye : EyeData) : Except EncodeError Bytes := .ok (writeVec3 eye.position)

def encodeRifleBlob (rifle : RifleData) : Except EncodeError Bytes :=
  .ok ([rifle.grip, rifle.muzzle, rifle.sight, rifle.foreEnd].map writePlacement).flatten

def encodeWeaponSocketBlob (socket : WeaponSocketData) : Except EncodeError Bytes := do
  let rightHand ← orTooLarge (writeString socket.rightHand)
  let leftHand ← orTooLarge (writeString socket.leftHand)
  return rightHand ++ (writeVec3 socket.translation ++ (writeQuat socket.rotation ++ leftHand))

def encodeCharactersBlob (characters : List Bytes) : Except EncodeError Bytes :=
  if kMaxCharacters < characters.length then .error .tooLarge
  else do
    let written ← characters.mapM fun character => orTooLarge (writeString character)
    return writeCount characters ++ written.flatten

def encodeAudioBlob (sound : AudioData) : Except EncodeError Bytes :=
  if kMaxAudioBytes < sound.samples.length then .error .tooLarge
  else if sound.bitsPerSample ∉ kPcmBitsPerSample then .error .unsupportedSampleWidth
  else if sound.samples.length % (sound.bitsPerSample.toNat / 8) ≠ 0 then .error .partialSample
  else
    .ok (writeU32 sound.sampleRate ++ (writeU8 sound.bitsPerSample ++
      (writeCount sound.samples ++ sound.samples)))

def encodeCueSoundBlob (sound : CueSoundData) : Except EncodeError Bytes :=
  if sound.variants.isEmpty || !sound.gainDb.isFinite then .error .invalidCueSound
  else if kMaxCueVariants < sound.variants.length then .error .tooLarge
  else do
    let written ← sound.variants.mapM fun variant => orTooLarge (writeString variant)
    return writeF32 sound.gainDb ++ (writeCount sound.variants ++ written.flatten)

end Augusta.Assets
