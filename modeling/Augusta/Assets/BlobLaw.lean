import Augusta.Assets.RoundTrip

/-! Every kind of blob: what encodes decodes to itself, if it keeps the rules left to the cooker,
    and is refused if it does not; what decodes keeps all of its kind's rules and encodes.

                                                              left to the cooker   checked
        mesh, hitbox            triangles, of its own points            x
        scene, skeleton         parents before children                 x
        clip, transitions,      what each is played by                                x
          audio, cue sound -/

namespace Augusta.Assets
open Lib (Binary32 Reader)
open Lib.Reader
open Math

/-- What the encoder and the decoder of a kind are to each other: to the rules its encoder leaves to
    the cooker, and to all those its content is used by. -/
structure Lawful {α : Type} (encode : α → Except EncodeError Bytes) (decode : Bytes → Option α)
    (Cooked WellFormed : α → Prop) : Prop where
  read_back : ∀ value blob, encode value = .ok blob → Cooked value → decode blob = some value
  refused : ∀ value blob, encode value = .ok blob → ¬ Cooked value → decode blob = none
  accepted : ∀ blob value, decode blob = some value → WellFormed value ∧
    ∃ again, encode value = .ok again ∧ decode again = some value

/-- What a kind's encoder leaves to no one. -/
abbrev Always {α : Type} : α → Prop := fun _ => True

section
variable {α : Type} {encode : α → Except EncodeError Bytes} {read : Reader α}
variable {WellFormed : α → Prop}

theorem decoded_eq_some {blob : Bytes} {value : α} :
    decoded read blob = some value ↔ ∃ rest, read.run blob = some (value, rest) := by
  rw [decoded]
  rcases read.run blob with _ | ⟨a, rest⟩ <;> simp

/-- A kind read to the end of what is written of it, where it passes; what decodes encodes, so it
    comes back. -/
theorem lawful_of_run [DecidablePred WellFormed]
    (hread : ∀ value blob, encode value = .ok blob →
      decoded read blob = if WellFormed value then some value else none)
    (hgives : ∀ blob value rest, read.run blob = some (value, rest) →
      WellFormed value ∧ ∃ again, encode value = .ok again) :
    Lawful encode (decoded read) WellFormed WellFormed where
  read_back value blob h hwell := by rw [hread value blob h, if_pos hwell]
  refused value blob h hwell := by rw [hread value blob h, if_neg hwell]
  accepted blob value h := by
    obtain ⟨rest, h⟩ := decoded_eq_some.mp h
    obtain ⟨hwell, again, hagain⟩ := hgives blob value rest h
    exact ⟨hwell, again, hagain, by rw [hread value again hagain, if_pos hwell]⟩

/-- A kind whose encoder checks all its rules. -/
theorem lawful_of_encoder (hwell : ∀ value blob, encode value = .ok blob → WellFormed value)
    (hread : ∀ value blob, encode value = .ok blob →
      ∃ rest, read.run blob = some (value, rest))
    (hgives : ∀ blob value rest, read.run blob = some (value, rest) →
      ∃ again, encode value = .ok again) : Lawful encode (decoded read) Always WellFormed where
  read_back value blob h _ := decoded_eq_some.mpr (hread value blob h)
  refused value blob _ hill := absurd trivial hill
  accepted blob value h := by
    obtain ⟨rest, h⟩ := decoded_eq_some.mp h
    obtain ⟨again, hagain⟩ := hgives blob value rest h
    exact ⟨hwell value again hagain, again, hagain, decoded_eq_some.mpr (hread value again hagain)⟩

theorem decoded_of_run {blob : Bytes} (rest : Bytes) {value : α} {c : Prop} [Decidable c]
    (h : read.run blob = if c then some (value, rest) else none) :
    decoded read blob = if c then some value else none := by
  rw [decoded, h]
  split <;> rfl

end

/-! ### Meshes and hitboxes -/

theorem wellFormed_iff_all {mesh : MeshData} :
    mesh.indices.length % 3 = 0 ∧ mesh.indices.all (·.toNat < mesh.points.length) = true ↔
      mesh.WellFormed := by
  simp only [List.all_eq_true, decide_eq_true_eq]
  constructor
  · rintro ⟨hwhole, hinside⟩
    exact ⟨hwhole, hinside⟩
  · rintro ⟨hwhole, hinside⟩
    exact ⟨hwhole, hinside⟩

instance (mesh : MeshData) : Decidable mesh.WellFormed := decidable_of_iff _ wellFormed_iff_all

/-- What is written of each of them, whatever it is. -/
theorem mapM_ok {α : Type} (write : α → Bytes) (items : List α) :
    (items.mapM fun item => (.ok (write item) : Except EncodeError Bytes)) =
      .ok (items.map write) :=
  List.mapM_pure

theorem run_readIndex (points : ℕ) (index : UInt32) (rest : Bytes) :
    (readIndex points).run (writeU32 index ++ rest) =
      if index.toNat < points then some (index, rest) else none := by
  rw [readIndex, run_bind_of_run (run_readU32 _ _), run_demand_bind]
  rfl

theorem encodeMeshBlob_eq_ok {mesh : MeshData} {blob : Bytes} :
    encodeMeshBlob mesh = .ok blob ↔
      mesh.points.length ≤ kMaxMeshPoints ∧ mesh.indices.length ≤ kMaxMeshIndices ∧
        blob = writeCount mesh.points ++ ((mesh.points.map writeVec3).flatten ++
          (writeCount mesh.indices ++ (mesh.indices.map writeU32).flatten)) := by
  unfold encodeMeshBlob
  split
  · next hlarge => simp only [false_iff, reduceCtorEq]; omega
  · next hsmall =>
      rw [not_or, Nat.not_lt, Nat.not_lt] at hsmall
      simp [hsmall, eq_comm]

/-- A mesh is read back if it is well formed, and otherwise refused. -/
theorem run_readMesh {mesh : MeshData} {blob : Bytes} (h : encodeMeshBlob mesh = .ok blob)
    (rest : Bytes) :
    readMesh.run (blob ++ rest) = if mesh.WellFormed then some (mesh, rest) else none := by
  obtain ⟨hpoints, hindices, rfl⟩ := encodeMeshBlob_eq_ok.mp h
  simp only [readMesh, List.append_assoc]
  rw [run_bind_of_run (run_readCount_of_le hpoints (by decide) _),
    run_bind_of_run (run_many_of_forall (mapM_ok writeVec3 mesh.points)
      (fun point piece rest hpiece => by cases hpiece; exact run_readVec3 rest point) _),
    run_bind_of_run (run_readCount_of_le hindices (by decide) _), run_demand_bind]
  have hread := @run_many_of_checked UInt32 (fun _ => readIndex mesh.points.length) _
    (fun _ index => decide (index.toNat < mesh.points.length)) _ _
    (mapM_ok writeU32 mesh.indices) (fun _ index piece rest hpiece => by
      cases hpiece
      rw [run_readIndex]
      simp only [decide_eq_true_eq]) rest
  by_cases htriangles : mesh.indices.length % 3 = 0
  · rw [if_pos htriangles]
    by_cases hinside : ∀ index ∈ mesh.indices, index.toNat < mesh.points.length
    · rw [if_pos ⟨htriangles, hinside⟩]
      rw [if_pos] at hread
      · rw [run_bind_of_run hread]
        rfl
      · exact each_index_iff.mpr fun i index hindex =>
          decide_eq_true (hinside index (List.mem_of_getElem? hindex))
    · rw [if_neg fun hwell => hinside hwell.inside]
      rw [if_neg] at hread
      · exact run_bind_of_fails hread
      · intro heach
        refine hinside fun index hmem => ?_
        obtain ⟨i, hi⟩ := List.getElem?_of_mem hmem
        have hok := (@each_index_iff UInt32
          (fun _ index => decide (index.toNat < mesh.points.length)) _).mp heach i index hi
        exact of_decide_eq_true hok
  · rw [if_neg htriangles, if_neg fun hwell => htriangles hwell.triangles]

theorem readMesh_gives {mesh : MeshData} {bytes rest : Bytes}
    (h : readMesh.run bytes = some (mesh, rest)) :
    mesh.WellFormed ∧ ∃ blob, encodeMeshBlob mesh = .ok blob := by
  obtain ⟨pointCount, _, hpointCount, h⟩ := run_bind_eq_some.mp h
  obtain ⟨points, _, hpoints, h⟩ := run_bind_eq_some.mp h
  obtain ⟨indexCount, _, hindexCount, h⟩ := run_bind_eq_some.mp h
  obtain ⟨htriangles, h⟩ := run_demand_bind_eq_some.mp h
  obtain ⟨indices, _, hindices, h⟩ := run_bind_eq_some.mp h
  obtain ⟨rfl, -⟩ := run_pure_eq_some.mp h
  obtain ⟨hlength, -⟩ := many_nil_gives (P := fun _ _ => True)
    (fun _ _ _ _ _ => trivial) hpoints
  obtain ⟨hlength', hinside⟩ := many_nil_gives
    (P := fun _ index => index.toNat < points.length)
    (fun _ bytes index rest hread => by
      obtain ⟨read, _, -, hread⟩ := run_bind_eq_some.mp hread
      obtain ⟨hlt, hread⟩ := run_demand_bind_eq_some.mp hread
      obtain ⟨rfl, -⟩ := run_pure_eq_some.mp hread
      exact hlt) hindices
  refine ⟨⟨?_, ?_⟩, _, encodeMeshBlob_eq_ok.mpr ⟨?_, ?_, rfl⟩⟩
  · exact hlength' ▸ htriangles
  · intro index hmem
    obtain ⟨i, hi⟩ := List.getElem?_of_mem hmem
    exact hinside i index hi
  · exact hlength ▸ readCount_gives hpointCount
  · exact hlength' ▸ readCount_gives hindexCount

theorem mesh_lawful :
    Lawful encodeMeshBlob decodeMeshBlob MeshData.WellFormed MeshData.WellFormed := by
  refine lawful_of_run (fun mesh blob h => ?_) fun _ _ _ => readMesh_gives
  have hread := run_readMesh h []
  rw [List.append_nil] at hread
  exact decoded_of_run [] hread

theorem encodeHitboxBlob_eq_ok {hitbox : HitboxData} {blob : Bytes} :
    encodeHitboxBlob hitbox = .ok blob ↔ ∃ mesh, encodeMeshBlob hitbox.mesh = .ok mesh ∧
      ∃ joint, writeString hitbox.joint = some joint ∧
        writeU8 (partByte hitbox.part) ++ (joint ++ mesh) = blob := by
  simp only [encodeHitboxBlob, Except.bind_eq_ok, orTooLarge_eq_ok, Except.pure_eq_ok]

theorem hitbox_lawful :
    Lawful encodeHitboxBlob decodeHitboxBlob (fun hitbox => hitbox.mesh.WellFormed)
      fun hitbox => hitbox.mesh.WellFormed := by
  refine lawful_of_run (fun hitbox blob h => decoded_of_run [] ?_) ?_
  · obtain ⟨mesh, hmesh, joint, hjoint, rfl⟩ := encodeHitboxBlob_eq_ok.mp h
    have hpart : (bodyPartOf (partByte hitbox.part)).run (joint ++ mesh) =
        some (hitbox.part, joint ++ mesh) := by
      cases hitbox.part <;> rfl
    have hread := run_readMesh hmesh []
    rw [List.append_nil] at hread
    rw [run_bind_of_run (run_readU8 _ _), run_bind_of_run hpart,
      run_bind_of_run (run_readString mesh hjoint)]
    by_cases hwell : hitbox.mesh.WellFormed
    · rw [if_pos hwell] at hread ⊢
      rw [run_bind_of_run hread]
      rfl
    · rw [if_neg hwell] at hread ⊢
      exact run_bind_of_fails hread
  · intro blob hitbox rest h
    obtain ⟨byte, _, -, h⟩ := run_bind_eq_some.mp h
    obtain ⟨part, _, -, h⟩ := run_bind_eq_some.mp h
    obtain ⟨joint, _, hjoint, h⟩ := run_bind_eq_some.mp h
    obtain ⟨mesh, _, hmesh, h⟩ := run_bind_eq_some.mp h
    obtain ⟨rfl, -⟩ := run_pure_eq_some.mp h
    obtain ⟨hwell, written, hwritten⟩ := readMesh_gives hmesh
    exact ⟨hwell, _, encodeHitboxBlob_eq_ok.mpr ⟨written, hwritten, _,
      writeString_eq_some.mpr ⟨readString_gives hjoint, rfl⟩, rfl⟩⟩

/-! ### Scenes and Skeletons -/

/-- Whether every item follows the parent it names. -/
theorem parents_iff {α : Type} {parent : α → UInt32} {items : List α} :
    each (fun (before : List α) item => parentBefore (parent item) before.length) [] items = true ↔
      ∀ i item, items[i]? = some item → parentBefore (parent item) i = true :=
  @each_index_iff α (fun i item => parentBefore (parent item) i) items

instance (scene : SceneData) : Decidable scene.WellFormed :=
  decidable_of_iff _ (@parents_iff SceneNode SceneNode.parentIndex scene.nodes)

instance (skeleton : SkeletonData) : Decidable skeleton.WellFormed :=
  decidable_of_iff _ (@parents_iff JointData JointData.parent skeleton.joints)

/-- A counted list of items that follow their parents is read back; another is refused. -/
theorem run_hierarchy {α β : Type} {read : ℕ → Reader α} {encode : α → Except EncodeError Bytes}
    {parent : α → UInt32} {items : List α} {pieces : List Bytes} {limit : ℕ}
    (h : items.mapM encode = .ok pieces) (hfew : items.length ≤ limit) (hlimit : limit < 2 ^ 32)
    (hitem : ∀ index item piece rest, encode item = .ok piece →
      (read index).run (piece ++ rest) =
        if parentBefore (parent item) index then some (item, rest) else none)
    (next : List α → Reader β) :
    (readCount limit >>= fun count =>
      many (fun (before : List α) => read before.length) count [] >>= next).run
        (writeCount items ++ pieces.flatten) =
      if each (fun (before : List α) item => parentBefore (parent item) before.length) [] items
      then (next items).run [] else none := by
  have hread := @run_many_of_checked α read encode
    (fun index item => parentBefore (parent item) index) items pieces h hitem []
  rw [run_bind_of_run (run_readCount_of_le hfew hlimit _), ← List.append_nil pieces.flatten]
  split at hread
  · next hok => rw [if_pos hok, run_bind_of_run hread]
  · next hok => rw [if_neg hok, run_bind_of_fails hread]

theorem hierarchy_gives {α : Type} {read : ℕ → Reader α} {encode : α → Except EncodeError Bytes}
    {parent : α → UInt32} {count : ℕ}
    (hitem : ∀ index bytes item rest, (read index).run bytes = some (item, rest) →
      parentBefore (parent item) index = true ∧ ∃ piece, encode item = .ok piece)
    {bytes rest : Bytes} {items : List α}
    (h : (many (fun (before : List α) => read before.length) count []).run bytes =
      some (items, rest)) :
    items.length = count ∧ (∃ pieces, items.mapM encode = .ok pieces) ∧
      ∀ i item, items[i]? = some item → parentBefore (parent item) i = true := by
  obtain ⟨hlength, heach⟩ := many_nil_gives
    (P := fun before item => parentBefore (parent item) before.length = true ∧
      ∃ piece, encode item = .ok piece)
    (fun before bytes item rest hread => hitem before.length bytes item rest hread) h
  refine ⟨hlength, Except.mapM_ok_of_forall fun item hmem => ?_, ?_⟩
  · obtain ⟨i, hi⟩ := List.getElem?_of_mem hmem
    exact (heach i item hi).2
  · intro i item hi
    have hlt : i < items.length := (List.getElem?_eq_some_iff.mp hi).1
    have hparent := (heach i item hi).1
    rwa [List.length_take_of_le (Nat.le_of_lt hlt)] at hparent

theorem encodeSceneBlob_eq_ok {scene : SceneData} {blob : Bytes} :
    encodeSceneBlob scene = .ok blob ↔ scene.nodes.length ≤ kMaxSceneNodes ∧
      ∃ pieces, scene.nodes.mapM encodeSceneNode = .ok pieces ∧
        writeCount scene.nodes ++ pieces.flatten = blob := by
  unfold encodeSceneBlob
  split
  · next hlarge => simp only [reduceCtorEq, false_iff]; omega
  · next hfew => simp only [Except.bind_eq_ok, Except.pure_eq_ok, Nat.not_lt.mp hfew, true_and]

theorem scene_lawful :
    Lawful encodeSceneBlob decodeSceneBlob SceneData.WellFormed SceneData.WellFormed := by
  refine lawful_of_run (fun scene blob h => decoded_of_run [] ?_) ?_
  · obtain ⟨hfew, pieces, hpieces, rfl⟩ := encodeSceneBlob_eq_ok.mp h
    exact (run_hierarchy hpieces hfew (by decide)
      (fun index _ _ rest h => encodeSceneNode_read index rest h) _).trans
        (if_congr (@parents_iff SceneNode SceneNode.parentIndex _) rfl rfl)
  · intro blob scene rest h
    obtain ⟨count, _, hcount, h⟩ := run_bind_eq_some.mp h
    obtain ⟨nodes, _, hnodes, h⟩ := run_bind_eq_some.mp h
    obtain ⟨rfl, -⟩ := run_pure_eq_some.mp h
    obtain ⟨hlength, ⟨pieces, hpieces⟩, hparents⟩ :=
      hierarchy_gives (fun _ _ _ _ => readSceneNode_gives) hnodes
    exact ⟨hparents, _, encodeSceneBlob_eq_ok.mpr
      ⟨hlength ▸ readCount_gives hcount, pieces, hpieces, rfl⟩⟩

theorem encodeJoint_eq_ok {joint : JointData} {piece : Bytes} :
    encodeJoint joint = .ok piece ↔ ∃ name, writeString joint.name = some name ∧
      name ++ (writeU32 joint.parent ++ writeTransform joint.transform) = piece := by
  simp only [encodeJoint, Except.bind_eq_ok, orTooLarge_eq_ok, Except.pure_eq_ok]

theorem encodeJoint_read {joint : JointData} {piece : Bytes} (index : ℕ) (rest : Bytes)
    (h : encodeJoint joint = .ok piece) :
    (readJoint index).run (piece ++ rest) =
      if parentBefore joint.parent index then some (joint, rest) else none := by
  obtain ⟨name, hname, rfl⟩ := encodeJoint_eq_ok.mp h
  simp only [readJoint, List.append_assoc]
  rw [run_bind_of_run (run_readString _ hname), run_bind_of_run (run_readU32 _ _),
    run_bind_of_run (run_readTransform _ _), run_demand_bind]
  rfl

theorem readJoint_gives {index : ℕ} {joint : JointData} {bytes rest : Bytes}
    (h : (readJoint index).run bytes = some (joint, rest)) :
    parentBefore joint.parent index = true ∧ ∃ piece, encodeJoint joint = .ok piece := by
  obtain ⟨name, _, hname, h⟩ := run_bind_eq_some.mp h
  obtain ⟨parent, _, -, h⟩ := run_bind_eq_some.mp h
  obtain ⟨transform, _, -, h⟩ := run_bind_eq_some.mp h
  obtain ⟨hparent, h⟩ := run_demand_bind_eq_some.mp h
  obtain ⟨rfl, -⟩ := run_pure_eq_some.mp h
  exact ⟨hparent, _, encodeJoint_eq_ok.mpr
    ⟨_, writeString_eq_some.mpr ⟨readString_gives hname, rfl⟩, rfl⟩⟩

theorem encodeSkeletonBlob_eq_ok {skeleton : SkeletonData} {blob : Bytes} :
    encodeSkeletonBlob skeleton = .ok blob ↔ skeleton.joints.length ≤ kMaxJoints ∧
      ∃ pieces, skeleton.joints.mapM encodeJoint = .ok pieces ∧
        writeCount skeleton.joints ++ pieces.flatten = blob := by
  unfold encodeSkeletonBlob
  split
  · next hlarge => simp only [reduceCtorEq, false_iff]; omega
  · next hfew => simp only [Except.bind_eq_ok, Except.pure_eq_ok, Nat.not_lt.mp hfew, true_and]

theorem skeleton_lawful : Lawful encodeSkeletonBlob decodeSkeletonBlob SkeletonData.WellFormed
    SkeletonData.WellFormed := by
  refine lawful_of_run (fun skeleton blob h => decoded_of_run [] ?_) ?_
  · obtain ⟨hfew, pieces, hpieces, rfl⟩ := encodeSkeletonBlob_eq_ok.mp h
    exact (run_hierarchy hpieces hfew (by decide)
      (fun index _ _ rest h => encodeJoint_read index rest h) _).trans
        (if_congr (@parents_iff JointData JointData.parent _) rfl rfl)
  · intro blob skeleton rest h
    obtain ⟨count, _, hcount, h⟩ := run_bind_eq_some.mp h
    obtain ⟨joints, _, hjoints, h⟩ := run_bind_eq_some.mp h
    obtain ⟨rfl, -⟩ := run_pure_eq_some.mp h
    obtain ⟨hlength, ⟨pieces, hpieces⟩, hparents⟩ :=
      hierarchy_gives (fun _ _ _ _ => readJoint_gives) hjoints
    exact ⟨hparents, _, encodeSkeletonBlob_eq_ok.mpr
      ⟨hlength ▸ readCount_gives hcount, pieces, hpieces, rfl⟩⟩

/-! ### Kinds without rules of their own -/

theorem eye_lawful : Lawful encodeEyeBlob decodeEyeBlob Always Always := by
  refine lawful_of_encoder (fun _ _ _ => trivial) (fun eye blob h => ?_) fun _ _ _ _ => ⟨_, rfl⟩
  cases h
  have hread := run_readVec3 [] eye.position
  rw [List.append_nil] at hread
  exact ⟨[], by rw [StateT.run_map, hread]; rfl⟩

theorem spawnPoint_lawful : Lawful encodeSpawnPointBlob decodeSpawnPointBlob Always Always := by
  refine lawful_of_encoder (fun _ _ _ => trivial) (fun spawn blob h => ?_) fun _ _ _ _ => ⟨_, rfl⟩
  cases h
  have hread := run_readPlacement spawn []
  rw [List.append_nil] at hread
  exact ⟨[], hread⟩

theorem rifle_lawful : Lawful encodeRifleBlob decodeRifleBlob Always Always := by
  refine lawful_of_encoder (fun _ _ _ => trivial) (fun rifle blob h => ?_) fun _ _ _ _ => ⟨_, rfl⟩
  cases h
  simp only [List.map_cons, List.map_nil, List.flatten_cons, List.flatten_nil]
  refine ⟨[], ?_⟩
  rw [run_bind_of_run (run_readPlacement _ _), run_bind_of_run (run_readPlacement _ _),
    run_bind_of_run (run_readPlacement _ _), run_bind_of_run (run_readPlacement _ _)]
  rfl

theorem weaponSocket_lawful :
    Lawful encodeWeaponSocketBlob decodeWeaponSocketBlob Always Always := by
  have hencode {socket : WeaponSocketData} {blob : Bytes} :
      encodeWeaponSocketBlob socket = .ok blob ↔
        ∃ right, writeString socket.rightHand = some right ∧
          ∃ left, writeString socket.leftHand = some left ∧
            right ++ (writeVec3 socket.translation ++ (writeQuat socket.rotation ++ left)) =
              blob := by
    simp only [encodeWeaponSocketBlob, Except.bind_eq_ok, orTooLarge_eq_ok, Except.pure_eq_ok]
  refine lawful_of_encoder (fun _ _ _ => trivial) (fun socket blob h => ?_)
    fun blob socket rest h => ?_
  · obtain ⟨right, hright, left, hleft, rfl⟩ := hencode.mp h
    have hlast := run_readString [] hleft
    rw [List.append_nil] at hlast
    refine ⟨[], ?_⟩
    rw [run_bind_of_run (run_readString _ hright), run_bind_of_run (run_readVec3 _ _),
      run_bind_of_run (run_readQuat _ _), run_bind_of_run hlast]
    rfl
  · obtain ⟨right, _, hright, h⟩ := run_bind_eq_some.mp h
    obtain ⟨translation, _, -, h⟩ := run_bind_eq_some.mp h
    obtain ⟨rotation, _, -, h⟩ := run_bind_eq_some.mp h
    obtain ⟨left, _, hleft, h⟩ := run_bind_eq_some.mp h
    obtain ⟨rfl, -⟩ := run_pure_eq_some.mp h
    exact ⟨_, hencode.mpr ⟨_, writeString_eq_some.mpr ⟨readString_gives hright, rfl⟩, _,
      writeString_eq_some.mpr ⟨readString_gives hleft, rfl⟩, rfl⟩⟩

/-! ### Lists of strings -/

theorem run_strings {strings : List Bytes} {pieces : List Bytes}
    (h : (strings.mapM fun str => orTooLarge (writeString str)) = .ok pieces) (rest : Bytes) :
    (many (fun _ => readString) strings.length []).run (pieces.flatten ++ rest) =
      some (strings, rest) :=
  run_many_of_forall h (fun _ _ rest h => run_readString rest (orTooLarge_eq_ok.mp h)) rest

theorem strings_gives {count : ℕ} {strings : List Bytes} {bytes rest : Bytes}
    (h : (many (fun _ => readString) count []).run bytes = some (strings, rest)) :
    strings.length = count ∧
      ∃ pieces, (strings.mapM fun str => orTooLarge (writeString str)) = .ok pieces :=
  many_encodes (fun _ _ _ hread => ⟨_, orTooLarge_eq_ok.mpr
    (writeString_eq_some.mpr ⟨readString_gives hread, rfl⟩)⟩) h

theorem characters_lawful : Lawful encodeCharactersBlob decodeCharactersBlob Always Always := by
  have hencode {characters : List Bytes} {blob : Bytes} :
      encodeCharactersBlob characters = .ok blob ↔ characters.length ≤ kMaxCharacters ∧
        ∃ pieces, (characters.mapM fun str => orTooLarge (writeString str)) = .ok pieces ∧
          writeCount characters ++ pieces.flatten = blob := by
    unfold encodeCharactersBlob
    split
    · next hlarge => simp only [reduceCtorEq, false_iff]; omega
    · next hfew => simp only [Except.bind_eq_ok, Except.pure_eq_ok, Nat.not_lt.mp hfew, true_and]
  refine lawful_of_encoder (fun _ _ _ => trivial) (fun characters blob h => ?_)
    fun blob characters rest h => ?_
  · obtain ⟨hfew, pieces, hpieces, rfl⟩ := hencode.mp h
    have hread := run_strings hpieces []
    rw [List.append_nil] at hread
    exact ⟨[], by rw [run_bind_of_run (run_readCount_of_le hfew (by decide) _), hread]⟩
  · obtain ⟨count, _, hcount, h⟩ := run_bind_eq_some.mp h
    obtain ⟨hlength, pieces, hpieces⟩ := strings_gives h
    exact ⟨_, hencode.mpr ⟨hlength ▸ readCount_gives hcount, pieces, hpieces, rfl⟩⟩

theorem encodeCueSoundBlob_eq_ok {sound : CueSoundData} {blob : Bytes} :
    encodeCueSoundBlob sound = .ok blob ↔ sound.WellFormed ∧
      sound.variants.length ≤ kMaxCueVariants ∧
        ∃ pieces, (sound.variants.mapM fun str => orTooLarge (writeString str)) = .ok pieces ∧
          writeF32 sound.gainDb ++ (writeCount sound.variants ++ pieces.flatten) = blob := by
  unfold encodeCueSoundBlob
  split
  · next hinvalid =>
      simp only [reduceCtorEq, false_iff, not_and]
      intro hwell
      simp [hwell.variant, hwell.gain] at hinvalid
  · next hvalid =>
      have hwell : sound.WellFormed := by
        simp only [Bool.or_eq_true, not_or, List.isEmpty_iff] at hvalid
        exact ⟨hvalid.1, by simpa using hvalid.2⟩
      split
      · next hlarge => simp only [reduceCtorEq, false_iff]; omega
      · next hfew =>
          simp only [Except.bind_eq_ok, Except.pure_eq_ok, Nat.not_lt.mp hfew, hwell, true_and]

theorem cueSound_lawful :
    Lawful encodeCueSoundBlob decodeCueSoundBlob Always CueSoundData.WellFormed := by
  refine lawful_of_encoder (fun sound blob h => (encodeCueSoundBlob_eq_ok.mp h).1)
    (fun sound blob h => ?_) fun blob sound rest h => ?_
  · obtain ⟨hwell, hfew, pieces, hpieces, rfl⟩ := encodeCueSoundBlob_eq_ok.mp h
    have hread := run_strings hpieces []
    rw [List.append_nil] at hread
    refine ⟨[], ?_⟩
    rw [run_bind_of_run (run_readF32 _ _), run_demand_bind, if_pos hwell.gain,
      run_bind_of_run (run_readCount_of_le hfew (by decide) _), run_demand_bind,
      if_pos (by simpa using hwell.variant), run_bind_of_run hread]
    rfl
  · obtain ⟨gain, _, -, h⟩ := run_bind_eq_some.mp h
    obtain ⟨hgain, h⟩ := run_demand_bind_eq_some.mp h
    obtain ⟨count, _, hcount, h⟩ := run_bind_eq_some.mp h
    obtain ⟨hsome, h⟩ := run_demand_bind_eq_some.mp h
    obtain ⟨variants, _, hvariants, h⟩ := run_bind_eq_some.mp h
    obtain ⟨rfl, -⟩ := run_pure_eq_some.mp h
    obtain ⟨hlength, pieces, hpieces⟩ := strings_gives hvariants
    refine ⟨_, encodeCueSoundBlob_eq_ok.mpr ⟨⟨?_, hgain⟩,
      hlength ▸ readCount_gives hcount, pieces, hpieces, rfl⟩⟩
    rintro rfl
    exact hsome hlength.symm

/-! ### Sounds and animation -/

theorem encodeAudioBlob_eq_ok {sound : AudioData} {blob : Bytes} :
    encodeAudioBlob sound = .ok blob ↔ sound.WellFormed ∧ sound.samples.length ≤ kMaxAudioBytes ∧
      writeU32 sound.sampleRate ++ (writeU8 sound.bitsPerSample ++
        (writeCount sound.samples ++ sound.samples)) = blob := by
  unfold encodeAudioBlob
  split
  · next hlarge => simp only [reduceCtorEq, false_iff]; omega
  · next hsmall =>
      split
      · next hwidth => simpa using fun hwell _ => absurd (AudioData.WellFormed.width hwell) hwidth
      · next hwidth =>
          split
          · next hpartial =>
              simpa using fun hwell _ => absurd (AudioData.WellFormed.whole hwell) hpartial
          · next hwhole =>
              have hwell : sound.WellFormed := ⟨not_not.mp hwidth, not_not.mp hwhole⟩
              simp only [Except.ok.injEq, hwell, Nat.not_lt.mp hsmall, true_and]

theorem audio_lawful : Lawful encodeAudioBlob decodeAudioBlob Always AudioData.WellFormed := by
  refine lawful_of_encoder (fun sound blob h => (encodeAudioBlob_eq_ok.mp h).1)
    (fun sound blob h => ?_) fun blob sound rest h => ?_
  · obtain ⟨hwell, hsmall, rfl⟩ := encodeAudioBlob_eq_ok.mp h
    have hsamples := run_take sound.samples []
    rw [List.append_nil] at hsamples
    refine ⟨[], ?_⟩
    rw [run_bind_of_run (run_readU32 _ _), run_bind_of_run (run_readU8 _ _),
      run_bind_of_run (run_readCount_of_le hsmall (by decide) _), run_demand_bind,
      if_pos hwell.width, run_demand_bind, if_pos hwell.whole, run_bind_of_run hsamples]
    rfl
  · obtain ⟨rate, _, -, h⟩ := run_bind_eq_some.mp h
    obtain ⟨width, _, -, h⟩ := run_bind_eq_some.mp h
    obtain ⟨size, _, hsize, h⟩ := run_bind_eq_some.mp h
    obtain ⟨hwidth, h⟩ := run_demand_bind_eq_some.mp h
    obtain ⟨hwhole, h⟩ := run_demand_bind_eq_some.mp h
    obtain ⟨samples, _, hsamples, h⟩ := run_bind_eq_some.mp h
    obtain ⟨rfl, -⟩ := run_pure_eq_some.mp h
    obtain ⟨hlength, -⟩ := run_take_eq_some.mp hsamples
    exact ⟨_, encodeAudioBlob_eq_ok.mpr ⟨⟨hwidth, hlength ▸ hwhole⟩,
      hlength ▸ readCount_gives hsize, rfl⟩⟩

theorem encodeStanceTransitionsBlob_eq_ok {transitions : StanceTransitionsData} {blob : Bytes} :
    encodeStanceTransitionsBlob transitions = .ok blob ↔ transitions.WellFormed ∧
      writeF32 transitions.standingCrouching ++ (writeF32 transitions.standingProne ++
        writeF32 transitions.crouchingProne) = blob := by
  have hall : ([transitions.standingCrouching, transitions.standingProne,
      transitions.crouchingProne].all isValidTransitionDuration) = true ↔
        transitions.WellFormed := by
    simp only [List.all_cons, List.all_nil, Bool.and_true, Bool.and_eq_true]
    exact ⟨fun ⟨h, h', h''⟩ => ⟨h, h', h''⟩, fun ⟨h, h', h''⟩ => ⟨h, h', h''⟩⟩
  unfold encodeStanceTransitionsBlob
  by_cases hwell : transitions.WellFormed
  · simp [hall.mpr hwell, hwell]
  · have hnot := mt hall.mp hwell
    rw [Bool.not_eq_true] at hnot
    simp [hnot, hwell]

theorem stanceTransitions_lawful : Lawful encodeStanceTransitionsBlob decodeStanceTransitionsBlob
    Always StanceTransitionsData.WellFormed := by
  refine lawful_of_encoder (fun _ _ h => (encodeStanceTransitionsBlob_eq_ok.mp h).1)
    (fun transitions blob h => ?_) fun blob transitions rest h => ?_
  · obtain ⟨hwell, rfl⟩ := encodeStanceTransitionsBlob_eq_ok.mp h
    have hlast := run_readF32 [] transitions.crouchingProne
    rw [List.append_nil] at hlast
    refine ⟨[], ?_⟩
    rw [run_bind_of_run (run_readF32 _ _), run_bind_of_run (run_readF32 _ _), run_bind_of_run hlast,
      run_bind_of_run (run_rest []), run_demand_bind, if_pos rfl, run_demand_bind,
      if_pos hwell.standingCrouching, run_demand_bind, if_pos hwell.standingProne, run_demand_bind,
      if_pos hwell.crouchingProne]
    rfl
  · obtain ⟨standingCrouching, _, -, h⟩ := run_bind_eq_some.mp h
    obtain ⟨standingProne, _, -, h⟩ := run_bind_eq_some.mp h
    obtain ⟨crouchingProne, _, -, h⟩ := run_bind_eq_some.mp h
    obtain ⟨left, _, -, h⟩ := run_bind_eq_some.mp h
    obtain ⟨-, h⟩ := run_demand_bind_eq_some.mp h
    obtain ⟨h₁, h⟩ := run_demand_bind_eq_some.mp h
    obtain ⟨h₂, h⟩ := run_demand_bind_eq_some.mp h
    obtain ⟨h₃, h⟩ := run_demand_bind_eq_some.mp h
    obtain ⟨rfl, -⟩ := run_pure_eq_some.mp h
    exact ⟨_, encodeStanceTransitionsBlob_eq_ok.mpr
      ⟨⟨h₁, h₂, h₃⟩,
        rfl⟩⟩

theorem encodeClipBlob_eq_ok {clip : ClipData} {blob : Bytes} :
    encodeClipBlob clip = .ok blob ↔ clip.WellFormed ∧ clip.archive.length ≤ kMaxArchiveBytes ∧
      clip.footContacts.length ≤ kMaxFootContacts ∧
        writeF32 clip.strideLength ++ (writeU8 (UInt8.ofNat clip.footContacts.length) ++
          ((clip.footContacts.map writeFootContact).flatten ++ clip.archive)) = blob := by
  have hvalid : (isValidStrideLength clip.strideLength = true ∧
      (clip.footContacts.all fun contact => isValidFootContactRatio contact.ratio) = true) ↔
        clip.WellFormed := by
    rw [List.all_eq_true]
    exact ⟨fun ⟨h, h'⟩ => ⟨h, h'⟩, fun ⟨h, h'⟩ => ⟨h, h'⟩⟩
  unfold encodeClipBlob
  split
  · next hlarge => simp only [reduceCtorEq, false_iff]; omega
  · next hsmall =>
      rw [not_or, Nat.not_lt, Nat.not_lt] at hsmall
      by_cases hwell : clip.WellFormed
      · obtain ⟨hstride, hcontacts⟩ := hvalid.mpr hwell
        simp [hstride, hcontacts, hwell, hsmall]
      · have hnot := mt hvalid.mp hwell
        rw [if_pos (by
          rw [Bool.or_eq_true, Bool.not_eq_true', Bool.not_eq_true', ← Bool.not_eq_true,
            ← Bool.not_eq_true]
          exact not_and_or.mp hnot)]
        simp [hwell]

theorem run_readFootContact {contact : FootContact}
    (h : isValidFootContactRatio contact.ratio = true) (rest : Bytes) :
    readFootContact.run (writeFootContact contact ++ rest) = some (contact, rest) := by
  have hfoot : (footOf (footByte contact.foot)).run rest = some (contact.foot, rest) := by
    cases contact.foot <;> rfl
  simp only [readFootContact, writeFootContact, List.append_assoc]
  rw [run_bind_of_run (run_readU8 _ _), run_bind_of_run (run_readF32 _ _), run_bind_of_run hfoot,
    run_demand_bind, if_pos h]
  rfl

theorem readFootContact_gives {contact : FootContact} {bytes rest : Bytes}
    (h : readFootContact.run bytes = some (contact, rest)) :
    isValidFootContactRatio contact.ratio = true := by
  obtain ⟨byte, _, -, h⟩ := run_bind_eq_some.mp h
  obtain ⟨ratio, _, -, h⟩ := run_bind_eq_some.mp h
  obtain ⟨foot, _, -, h⟩ := run_bind_eq_some.mp h
  obtain ⟨hratio, h⟩ := run_demand_bind_eq_some.mp h
  obtain ⟨rfl, -⟩ := run_pure_eq_some.mp h
  exact hratio

theorem clip_lawful : Lawful encodeClipBlob decodeClipBlob Always ClipData.WellFormed := by
  refine lawful_of_encoder (fun clip blob h => (encodeClipBlob_eq_ok.mp h).1)
    (fun clip blob h => ?_) fun blob clip rest h => ?_
  · obtain ⟨hwell, harchive, hfew, rfl⟩ := encodeClipBlob_eq_ok.mp h
    have hcount : (UInt8.ofNat clip.footContacts.length).toNat = clip.footContacts.length :=
      UInt8.toNat_ofNat_of_lt' (Nat.lt_of_le_of_lt hfew (by decide))
    have hcontacts : (many (fun _ => readFootContact) clip.footContacts.length []).run
        ((clip.footContacts.map writeFootContact).flatten ++ clip.archive) =
          some (clip.footContacts, clip.archive) := by
      have hall : List.Forall₂ (fun contact piece => ∀ (_ : List FootContact) after,
          readFootContact.run (piece ++ after) =
            if isValidFootContactRatio contact.ratio then some (contact, after) else none)
          clip.footContacts (clip.footContacts.map writeFootContact) := by
        rw [List.forall₂_map_right_iff, List.forall₂_same]
        intro contact hmem _ after
        rw [if_pos (hwell.contacts contact hmem)]
        exact run_readFootContact (hwell.contacts contact hmem) after
      rw [@run_many FootContact (fun _ => readFootContact)
        (fun _ contact => isValidFootContactRatio contact.ratio) _ _ hall, if_pos, List.nil_append]
      exact each_iff.mpr fun i contact hi => hwell.contacts contact (List.mem_of_getElem? hi)
    refine ⟨[], ?_⟩
    rw [run_bind_of_run (run_readF32 _ _), run_bind_of_run (run_readU8 _ _), run_demand_bind,
      if_pos hwell.stride, hcount, run_bind_of_run hcontacts, run_bind_of_run (run_rest _),
      run_demand_bind, if_pos harchive]
    rfl
  · obtain ⟨stride, _, -, h⟩ := run_bind_eq_some.mp h
    obtain ⟨count, _, -, h⟩ := run_bind_eq_some.mp h
    obtain ⟨hstride, h⟩ := run_demand_bind_eq_some.mp h
    obtain ⟨contacts, _, hcontacts, h⟩ := run_bind_eq_some.mp h
    obtain ⟨archive, _, -, h⟩ := run_bind_eq_some.mp h
    obtain ⟨harchive, h⟩ := run_demand_bind_eq_some.mp h
    obtain ⟨rfl, -⟩ := run_pure_eq_some.mp h
    obtain ⟨hlength, heach⟩ := many_nil_gives
      (P := fun _ contact => isValidFootContactRatio contact.ratio = true)
      (fun _ _ _ _ => readFootContact_gives) hcontacts
    have hfew : contacts.length ≤ kMaxFootContacts :=
      hlength ▸ Nat.le_of_lt_succ count.toNat_lt
    refine ⟨_, encodeClipBlob_eq_ok.mpr ⟨⟨hstride, ?_⟩,
      harchive, hfew, rfl⟩⟩
    intro contact hmem
    obtain ⟨i, hi⟩ := List.getElem?_of_mem hmem
    exact heach i contact hi

/-! ### Every kind -/

inductive AssetKind
  | mesh | scene | hitbox | skeleton | clip | stanceTransitions | eye | rifle | weaponSocket
  | spawnPoint | characters | audio | cueSound
  deriving DecidableEq, Repr

/-- A kind of blob: its encoder, its decoder, the rules its encoder leaves to the cooker, and those
    its content is used by. -/
structure BlobCodec where
  Value : Type
  encode : Value → Except EncodeError Bytes
  decode : Bytes → Option Value
  Cooked : Value → Prop
  WellFormed : Value → Prop

def AssetKind.codec : AssetKind → BlobCodec
  | .mesh => ⟨MeshData, encodeMeshBlob, decodeMeshBlob, MeshData.WellFormed, MeshData.WellFormed⟩
  | .scene =>
      ⟨SceneData, encodeSceneBlob, decodeSceneBlob, SceneData.WellFormed, SceneData.WellFormed⟩
  | .hitbox => ⟨HitboxData, encodeHitboxBlob, decodeHitboxBlob,
      fun hitbox => hitbox.mesh.WellFormed, fun hitbox => hitbox.mesh.WellFormed⟩
  | .skeleton => ⟨SkeletonData, encodeSkeletonBlob, decodeSkeletonBlob, SkeletonData.WellFormed,
      SkeletonData.WellFormed⟩
  | .clip => ⟨ClipData, encodeClipBlob, decodeClipBlob, Always, ClipData.WellFormed⟩
  | .stanceTransitions => ⟨StanceTransitionsData, encodeStanceTransitionsBlob,
      decodeStanceTransitionsBlob, Always, StanceTransitionsData.WellFormed⟩
  | .eye => ⟨EyeData, encodeEyeBlob, decodeEyeBlob, Always, Always⟩
  | .rifle => ⟨RifleData, encodeRifleBlob, decodeRifleBlob, Always, Always⟩
  | .weaponSocket =>
      ⟨WeaponSocketData, encodeWeaponSocketBlob, decodeWeaponSocketBlob, Always, Always⟩
  | .spawnPoint => ⟨SpawnPointData, encodeSpawnPointBlob, decodeSpawnPointBlob, Always, Always⟩
  | .characters => ⟨List Bytes, encodeCharactersBlob, decodeCharactersBlob, Always, Always⟩
  | .audio => ⟨AudioData, encodeAudioBlob, decodeAudioBlob, Always, AudioData.WellFormed⟩
  | .cueSound =>
      ⟨CueSoundData, encodeCueSoundBlob, decodeCueSoundBlob, Always, CueSoundData.WellFormed⟩

/-- CORRECT: whatever its kind, a value that encodes is read back if it keeps what its kind leaves
    to the cooker, and refused if it does not; and what a blob decodes to keeps the rules it is used
    by, encodes and is read back. -/
theorem blobs_law (kind : AssetKind) :
    Lawful kind.codec.encode kind.codec.decode kind.codec.Cooked kind.codec.WellFormed :=
  match kind with
  | .mesh => mesh_lawful
  | .scene => scene_lawful
  | .hitbox => hitbox_lawful
  | .skeleton => skeleton_lawful
  | .clip => clip_lawful
  | .stanceTransitions => stanceTransitions_lawful
  | .eye => eye_lawful
  | .rifle => rifle_lawful
  | .weaponSocket => weaponSocket_lawful
  | .spawnPoint => spawnPoint_lawful
  | .characters => characters_lawful
  | .audio => audio_lawful
  | .cueSound => cueSound_lawful

/-- A mesh whose one index is past its points encodes, and its blob is refused. -/
theorem mesh_past_its_points : ¬ ∀ (kind : AssetKind) value blob,
    kind.codec.encode value = .ok blob → kind.codec.decode blob = some value := by
  intro h
  have hrefused := mesh_lawful.refused { indices := [0] } _ rfl (by decide)
  have hread : decodeMeshBlob _ = some { indices := [0] } := h .mesh { indices := [0] } _ rfl
  rw [hrefused] at hread
  cases hread

end Augusta.Assets
