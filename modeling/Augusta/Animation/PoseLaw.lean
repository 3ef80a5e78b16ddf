import Augusta.Animation.Pose
import Augusta.Assets.BlobLaw

/-! What a Character that loads can be posed by: each animated Joint into its own Joint of the
    Skeleton, each chain of parents up to its root.

      names   apart ──▶ joints one to one and onto ──▶ every Joint written, whatever was there
              alike ──▶ two into one, and one of the Skeleton's written by none                -/

namespace Augusta.Animation
open Assets
open Lib (Table)

/-! ### Loops over the Joints -/

/-- A loop goes through where each of its steps does, from either of two states alike. -/
theorem foldlM_range_rel {σ : Type} {f : σ → ℕ → Option σ} {n : ℕ} (P : ℕ → σ → σ → Prop)
    (hstep : ∀ i < n, ∀ a b, P i a b → ∃ a' b', f a i = some a' ∧ f b i = some b' ∧ P (i + 1) a' b')
    {a b : σ} (h : P 0 a b) : ∃ a' b', (List.range n).foldlM f a = some a' ∧
      (List.range n).foldlM f b = some b' ∧ P n a' b' := by
  induction n with
  | zero => exact ⟨a, b, rfl, rfl, h⟩
  | succ n ih =>
    obtain ⟨a', b', ha, hb, hn⟩ := ih fun i hi => hstep i (Nat.lt_succ_of_lt hi)
    obtain ⟨a'', b'', ha', hb', hnext⟩ := hstep n (Nat.lt_succ_self n) a' b' hn
    refine ⟨a'', b'', ?_, ?_, hnext⟩
    · rw [List.range_succ, List.foldlM_append, ha, Option.bind_eq_bind, Option.bind_some,
        List.foldlM_cons, ha']
      rfl
    · rw [List.range_succ, List.foldlM_append, hb, Option.bind_eq_bind, Option.bind_some,
        List.foldlM_cons, hb']
      rfl

/-- A loop keeps what each of its steps keeps. -/
theorem foldlM_range {σ : Type} {f : σ → ℕ → Option σ} {n : ℕ} (P : ℕ → σ → Prop)
    (hstep : ∀ i < n, ∀ a, P i a → ∃ a', f a i = some a' ∧ P (i + 1) a')
    {a : σ} (h : P 0 a) : ∃ a', (List.range n).foldlM f a = some a' ∧ P n a' := by
  obtain ⟨a', _, ha, -, -, hn⟩ := @foldlM_range_rel σ f n (fun i a b => a = b ∧ P i a)
    (by
      rintro i hi a _ ⟨rfl, ha⟩
      obtain ⟨a', hf, ha'⟩ := hstep i hi a ha
      exact ⟨a', a', hf, hf, rfl, ha'⟩) a a ⟨rfl, h⟩
  exact ⟨a', ha, hn⟩

theorem setAt_eq_some {α : Type} {items : List α} {index : ℕ} (h : index < items.length)
    (value : α) : setAt items index value = some (items.set index value) := if_pos h

theorem length_resize {α : Type} (size : ℕ) (filler : α) (items : List α) :
    (resize size filler items).length = size := by
  rw [resize, List.length_take, List.length_append, List.length_replicate]
  omega

/-! ### The Joints of a name -/

/-- The first of the items keyed alike is the one found, after what the table had. -/
theorem lookup_foldl_emplace {κ α : Type} [DecidableEq κ] (items : List (κ × α))
    (table : Table κ α) (key : κ) :
    (items.foldl (fun table item => table.emplace item.1 item.2) table).lookup key =
      (table.lookup key).or ((items.find? fun item => item.1 = key).map (·.2)) := by
  induction items generalizing table with
  | nil => simp
  | cons item rest ih =>
    have hfirst : (table.emplace item.1 item.2).lookup key =
        (table.lookup key).or (if item.1 = key then some item.2 else none) := by
      rw [AList.emplace]
      split_ifs with hmem hsame hsame
      · rw [← hsame]
        obtain ⟨held, hheld⟩ := AList.mem_iff_lookup.mp hmem
        rw [hheld, Option.some_or]
      · rw [Option.or_none]
      · rw [← hsame, AList.lookup_insert, AList.lookup_eq_none.mpr hmem, Option.none_or]
      · rw [AList.lookup_insert_ne (Ne.symm hsame), Option.or_none]
    rw [List.foldl_cons, ih, hfirst, Option.or_assoc, List.find?_cons]
    by_cases hsame : item.1 = key
    · simp [hsame]
    · simp [hsame]

/-- A Skeleton the decoder accepts. -/
structure Rooted (skeleton : SkeletonData) : Prop where
  parents : skeleton.WellFormed
  few : skeleton.joints.length ≤ kMaxJoints

theorem rooted_of_decode {blob : Bytes} {skeleton : SkeletonData}
    (h : decodeSkeletonBlob blob = some skeleton) : Rooted skeleton := by
  obtain ⟨hparents, again, hagain, -⟩ := skeleton_lawful.accepted blob skeleton h
  exact ⟨hparents, (encodeSkeletonBlob_eq_ok.mp hagain).1⟩

section
variable {skeleton : SkeletonData}

/-- What a name is the index of is a Joint of that name. -/
theorem lookup_indexTable (hskeleton : Rooted skeleton) {name : Bytes} {index : UInt32}
    (h : (indexTable skeleton).lookup name = some index) :
    ∃ joint, skeleton.joints[index.toNat]? = some joint ∧ joint.name = name := by
  have htable : indexTable skeleton =
      (skeleton.joints.zipIdx.map fun item => (item.1.name, UInt32.ofNat item.2)).foldl
        (fun table item => table.emplace item.1 item.2) ∅ := by
    rw [List.foldl_map]
    rfl
  rw [htable, lookup_foldl_emplace, AList.lookup_empty, Option.none_or, Option.map_eq_some_iff] at h
  obtain ⟨entry, hentry, rfl⟩ := h
  have hname := List.find?_some hentry
  rw [decide_eq_true_eq] at hname
  obtain ⟨⟨joint, place⟩, hplace, rfl⟩ := List.mem_map.mp (List.mem_of_find?_eq_some hentry)
  have hat := List.mem_zipIdx_iff_getElem?.mp hplace
  have hlt : place < skeleton.joints.length := (List.getElem?_eq_some_iff.mp hat).1
  have hsmall : place < 2 ^ 32 := by
    have hfew := hskeleton.few
    have hmax : kMaxJoints = 128 := rfl
    omega
  exact ⟨joint, by rw [UInt32.toNat_ofNat_of_lt' hsmall]; exact hat, hname⟩

/-- What `jointsOf` accepts: each name found, and as many as there are. -/
structure Found (animated : OzzSkeleton) (skeleton : SkeletonData) (joints : List UInt32) :
    Prop where
  each : List.Forall₂ (fun name index => (indexTable skeleton).lookup name = some index)
    animated.jointNames joints
  all : joints.length = skeleton.joints.length

theorem found_of_jointsOf {animated : OzzSkeleton} {joints : List UInt32}
    (h : jointsOf animated skeleton = .ok joints) : Found animated skeleton joints := by
  rw [jointsOf, Except.bind_eq_ok] at h
  obtain ⟨found, hfound, h⟩ := h
  split_ifs at h with hall
  obtain rfl := Except.ok.inj h
  refine ⟨(Except.forall₂_of_mapM hfound).imp fun name index hindex => ?_, not_not.mp hall⟩
  cases hlookup : (indexTable skeleton).lookup name with
  | none => rw [hlookup] at hindex; cases hindex
  | some other => rw [hlookup] at hindex; rw [Except.ok.inj hindex]

variable {animated : OzzSkeleton} {joints : List UInt32}

theorem Found.length (h : Found animated skeleton joints) : joints.length = animated.numJoints :=
  h.each.length_eq.symm

/-- The map is one to one where the names are apart. -/
theorem Found.nodup_iff (hskeleton : Rooted skeleton) (h : Found animated skeleton joints) :
    joints.Nodup ↔ animated.jointNames.Nodup := by
  refine (List.rel_nodup ⟨?_, ?_⟩ h.each).symm
  · -- A Joint has one name.
    intro name index other hname hother
    obtain ⟨joint, hjoint, rfl⟩ := lookup_indexTable hskeleton hname
    obtain ⟨same, hsame, rfl⟩ := lookup_indexTable hskeleton hother
    rw [hjoint] at hsame
    rw [Option.some.inj hsame]
  · -- A name has one index.
    intro name index other hindex hother
    exact Option.some.inj (hindex.symm.trans hother)

theorem Found.inside (hskeleton : Rooted skeleton) (h : Found animated skeleton joints)
    {i : ℕ} {joint : UInt32} (hjoint : joints[i]? = some joint) :
    joint.toNat < skeleton.joints.length := by
  obtain ⟨hi, rfl⟩ := List.getElem?_eq_some_iff.mp hjoint
  have hlookup := h.each.get (by rw [h.each.length_eq]; exact hi) hi
  obtain ⟨data, hdata, -⟩ := lookup_indexTable hskeleton hlookup
  exact (List.getElem?_eq_some_iff.mp hdata).1

/-- One to one among as many is onto. -/
theorem Found.onto (hskeleton : Rooted skeleton) (h : Found animated skeleton joints)
    (hnodup : joints.Nodup) {place : ℕ} (hplace : place < skeleton.joints.length) :
    ∃ (i : ℕ) (joint : UInt32), joints[i]? = some joint ∧ joint.toNat = place := by
  have hnumbers : (joints.map UInt32.toNat).Nodup :=
    hnodup.map fun a b hab => UInt32.toNat_inj.mp hab
  have hinside : joints.map UInt32.toNat ⊆ List.range skeleton.joints.length := by
    intro number hnumber
    obtain ⟨joint, hjoint, rfl⟩ := List.mem_map.mp hnumber
    obtain ⟨i, hi⟩ := List.mem_iff_getElem?.mp hjoint
    exact List.mem_range.mpr (h.inside hskeleton hi)
  have hperm := (List.subperm_of_subset hnumbers hinside).perm_of_length_le (by
    rw [List.length_range, List.length_map, h.all])
  obtain ⟨joint, hjoint, hsame⟩ := List.mem_map.mp (hperm.mem_iff.mpr (List.mem_range.mpr hplace))
  obtain ⟨i, hi⟩ := List.mem_iff_getElem?.mp hjoint
  exact ⟨i, joint, hi, hsame⟩

/-! ### Poses -/

variable {Root Joint Matrix : Type} {geometry : Geometry Root Joint Matrix}

/-- Each lane goes into its Joint; what an earlier one went into stays, where they are apart. -/
theorem writeJoint_spec (hskeleton : Rooted skeleton) (hfound : Found animated skeleton joints)
    (blocks : Blocks Joint animated.numJoints) {locals : List Joint}
    (hlength : locals.length = skeleton.joints.length) {index : ℕ}
    (hindex : index < animated.numJoints) :
    ∃ joint value, joints[index]? = some joint ∧ laneOf blocks.lanes index = some value ∧
      writeJoint blocks.lanes joints locals index = some (locals.set joint.toNat value) := by
  have hlane : index / 4 < blocks.lanes.length := by
    rw [blocks.fitted]
    omega
  have hjoint : index < joints.length := by rw [hfound.length]; exact hindex
  have hat : joints[index]? = some joints[index] := List.getElem?_eq_getElem hjoint
  refine ⟨joints[index], _, hat, by rw [laneOf, List.getElem?_eq_getElem hlane]; rfl, ?_⟩
  rw [writeJoint, List.getElem?_eq_getElem hlane, hat]
  refine setAt_eq_some ?_ _
  rw [hlength]
  exact hfound.inside hskeleton hat

/-- Every Joint written, from whatever was there before. -/
theorem writeAll_spec (hskeleton : Rooted skeleton) (hfound : Found animated skeleton joints)
    (blocks : Blocks Joint animated.numJoints) {locals : List Joint}
    (hlength : locals.length = skeleton.joints.length) :
    ∃ written, (List.range animated.numJoints).foldlM (writeJoint blocks.lanes joints) locals =
        some written ∧ written.length = skeleton.joints.length ∧
      (joints.Nodup → ∀ (i : ℕ) joint, joints[i]? = some joint →
        written[joint.toNat]? = laneOf blocks.lanes i) := by
  have hloop := @foldlM_range _ (writeJoint blocks.lanes joints) animated.numJoints
    (fun k a => a.length = skeleton.joints.length ∧ (joints.Nodup →
      ∀ i < k, ∀ joint, joints[i]? = some joint → a[joint.toNat]? = laneOf blocks.lanes i))
    (fun index hindex a ⟨ha, hwritten⟩ => ?_) locals
    ⟨hlength, fun _ i hi => absurd hi (Nat.not_lt_zero i)⟩
  · obtain ⟨written, hwritten, hall, hlanes⟩ := hloop
    refine ⟨written, hwritten, hall, fun hnodup i joint hjoint => ?_⟩
    refine hlanes hnodup i ?_ joint hjoint
    rw [← hfound.length]
    exact (List.getElem?_eq_some_iff.mp hjoint).1
  · obtain ⟨joint, value, hjoint, hvalue, hset⟩ := writeJoint_spec hskeleton hfound blocks ha hindex
    refine ⟨_, hset, by rw [List.length_set]; exact ha, fun hnodup i hi other hother => ?_⟩
    have hinside : joint.toNat < a.length := ha ▸ hfound.inside hskeleton hjoint
    by_cases hsame : i = index
    · rw [hsame] at hother ⊢
      obtain rfl := Option.some.inj (hjoint.symm.trans hother)
      rw [List.getElem?_set_self hinside, hvalue]
    · have hne : other ≠ joint := by
        rintro rfl
        obtain ⟨hi', hat⟩ := List.getElem?_eq_some_iff.mp hother
        obtain ⟨hindex', hat'⟩ := List.getElem?_eq_some_iff.mp hjoint
        exact hsame (hnodup.getElem_inj_iff.mp (hat.trans hat'.symm))
      rw [List.getElem?_set_ne fun h => hne (UInt32.toNat_inj.mp h).symm]
      exact hwritten hnodup i (by omega) other hother

/-- A Joint's parent, as it is composed: the root, or a Joint before it. -/
theorem parent_before (hskeleton : Rooted skeleton) {place : ℕ} {data : JointData}
    (hdata : skeleton.joints[place]? = some data) :
    data.parent = kNoParent ∨ data.parent.toNat < place := by
  have hparent := hskeleton.parents place data hdata
  rw [parentBefore, Bool.or_eq_true, decide_eq_true_eq, decide_eq_true_eq] at hparent
  exact hparent

/-- The whole of a pose is composed, and only from its root and its Joints. -/
theorem composeWorld_rel (hskeleton : Rooted skeleton) {a b : SkeletonPose Root Joint Matrix}
    (hroot : a.root = b.root) (hlocals : a.locals = b.locals)
    (hlength : a.locals.length = skeleton.joints.length) :
    ∃ after, composeWorld geometry skeleton a = some after ∧
      composeWorld geometry skeleton b = some after ∧ after.locals = a.locals ∧
      after.worlds.length = skeleton.joints.length := by
  have hloop := @foldlM_range_rel _ (composeJoint geometry skeleton) skeleton.joints.length
    (fun k c d => (c.root = d.root ∧ c.locals = d.locals ∧ c.locals = a.locals ∧
      c.worlds.length = skeleton.joints.length ∧ d.worlds.length = skeleton.joints.length) ∧
        ∀ i < k, c.worlds[i]? = d.worlds[i]?)
    (fun place hplace c d ⟨⟨hroot, hlocals, hkept, hc, hd⟩, hsame⟩ => ?_)
    { a with worlds := resize skeleton.joints.length geometry.unplaced a.worlds }
    { b with worlds := resize skeleton.joints.length geometry.unplaced b.worlds }
    ⟨⟨hroot, hlocals, rfl, length_resize _ _ _, length_resize _ _ _⟩,
      fun i hi => absurd hi (Nat.not_lt_zero i)⟩
  · obtain ⟨a', b', ha, hb, ⟨hroot', hlocals', hkept, hwhole, hwhole'⟩, hsame⟩ := hloop
    refine ⟨a', ha, ?_, hkept, hwhole⟩
    have hworlds : a'.worlds = b'.worlds := by
      refine List.ext_getElem? fun i => ?_
      by_cases hi : i < skeleton.joints.length
      · exact hsame i hi
      · rw [List.getElem?_eq_none (by omega), List.getElem?_eq_none (by omega)]
    have hposed : a' = b' := by
      cases a'
      cases b'
      simp only at hroot' hlocals' hworlds
      rw [hroot', hlocals', hworlds]
    rw [hposed]
    exact hb
  · obtain ⟨data, hdata⟩ : ∃ data, skeleton.joints[place]? = some data :=
      ⟨_, List.getElem?_eq_getElem hplace⟩
    obtain ⟨placed, hplaced⟩ : ∃ placed, c.locals[place]? = some placed :=
      ⟨_, List.getElem?_eq_getElem (by rw [hkept, hlength]; exact hplace)⟩
    obtain ⟨parent, hparent, hparent'⟩ : ∃ parent, parentWorld geometry c data = some parent ∧
        parentWorld geometry d data = some parent := by
      rw [parentWorld, parentWorld]
      split_ifs with hnone
      · exact ⟨_, rfl, by rw [hroot]⟩
      · have hbefore := (parent_before hskeleton hdata).resolve_left hnone
        have hinside : data.parent.toNat < c.worlds.length := by omega
        exact ⟨_, List.getElem?_eq_getElem hinside,
          by rw [← hsame _ hbefore, List.getElem?_eq_getElem hinside]⟩
    have hstep (e : SkeletonPose Root Joint Matrix) (hlocal : e.locals[place]? = some placed)
        (habove : parentWorld geometry e data = some parent)
        (hwhole : e.worlds.length = skeleton.joints.length) :
        composeJoint geometry skeleton e place = some { e with
          worlds := e.worlds.set place (geometry.compose parent placed data.transform.scale) } := by
      rw [composeJoint, hdata, Option.bind_eq_bind, Option.bind_some, habove, hlocal,
        Option.bind_eq_bind, Option.bind_some, Option.bind_eq_bind, Option.bind_some,
        setAt_eq_some (by rw [hwhole]; exact hplace)]
      rfl
    refine ⟨_, _, hstep c hplaced hparent hc, hstep d (hlocals ▸ hplaced) hparent' hd,
      ⟨hroot, hlocals, hkept, by rw [List.length_set]; exact hc,
        by rw [List.length_set]; exact hd⟩, fun i hi => ?_⟩
    change (c.worlds.set place _)[i]? = (d.worlds.set place _)[i]?
    by_cases hnow : i = place
    · rw [hnow, List.getElem?_set_self (by omega), List.getElem?_set_self (by omega)]
    · rw [List.getElem?_set_ne (Ne.symm hnow), List.getElem?_set_ne (Ne.symm hnow)]
      exact hsame i (by omega)

/-! ### The arms -/

/-- A hand with an arm, all of it the Skeleton's. -/
structure Armed (skeleton : SkeletonData) (hand elbow shoulder : UInt32) : Prop where
  elbow_is : parentOf skeleton hand = some elbow
  shoulder_is : parentOf skeleton elbow = some shoulder
  hand_lt : hand.toNat < skeleton.joints.length
  elbow_lt : elbow.toNat < skeleton.joints.length
  shoulder_lt : shoulder.toNat < skeleton.joints.length

/-- A parent that is a Joint is before its child. -/
theorem lt_of_parentOf (hskeleton : Rooted skeleton) {child parent : UInt32}
    (h : parentOf skeleton child = some parent) (hparent : parent ≠ kNoParent) :
    parent.toNat < child.toNat ∧ child.toNat < skeleton.joints.length := by
  rw [parentOf, Option.map_eq_some_iff] at h
  obtain ⟨data, hdata, rfl⟩ := h
  exact ⟨(parent_before hskeleton hdata).resolve_left hparent,
    (List.getElem?_eq_some_iff.mp hdata).1⟩

theorem armed_of_hasAnArm (hskeleton : Rooted skeleton) {hand : UInt32}
    (h : hasAnArm skeleton hand = true) : ∃ elbow shoulder, Armed skeleton hand elbow shoulder := by
  rw [hasAnArm] at h
  cases helbow : parentOf skeleton hand with
  | none => rw [helbow] at h; cases h
  | some elbow =>
    rw [helbow] at h
    simp only [ne_eq, Bool.and_eq_true, decide_eq_true_eq] at h
    obtain ⟨hsome, hnone⟩ := h
    obtain ⟨hbefore, hhand⟩ := lt_of_parentOf hskeleton helbow hsome
    have hinside : elbow.toNat < skeleton.joints.length := by omega
    have hshoulder : parentOf skeleton elbow =
        some (skeleton.joints[elbow.toNat].parent) := by
      rw [parentOf, List.getElem?_eq_getElem hinside]
      rfl
    rw [hshoulder, Option.some.injEq] at hnone
    obtain ⟨habove, -⟩ := lt_of_parentOf hskeleton hshoulder hnone
    exact ⟨elbow, _, helbow, hshoulder, hhand, hinside, by omega⟩

theorem armed_of_loadWeaponSocket (hskeleton : Rooted skeleton) {pack : CharacterPack}
    {socket : WeaponSocket} (h : loadWeaponSocket pack skeleton = .ok socket) :
    (∃ elbow shoulder, Armed skeleton socket.rightHand elbow shoulder) ∧
      ∃ elbow shoulder, Armed skeleton socket.leftHand elbow shoulder := by
  rw [loadWeaponSocket, Except.bind_eq_ok] at h
  obtain ⟨data, -, h⟩ := h
  cases hright : indexOf skeleton data.rightHand with
  | none => rw [hright] at h; cases h
  | some rightHand =>
    cases hleft : indexOf skeleton data.leftHand with
    | none => rw [hright, hleft] at h; cases h
    | some leftHand =>
      rw [hright, hleft] at h
      simp only at h
      split_ifs at h with hleftArm hrightArm
      obtain rfl := Except.ok.inj h
      exact ⟨armed_of_hasAnArm hskeleton hrightArm,
        armed_of_hasAnArm hskeleton hleftArm⟩

/-- A rifle can be held in any whole pose. -/
theorem exists_holdRifle (hskeleton : Rooted skeleton) {socket : WeaponSocket}
    (hright : ∃ elbow shoulder, Armed skeleton socket.rightHand elbow shoulder)
    (hleft : ∃ elbow shoulder, Armed skeleton socket.leftHand elbow shoulder)
    {posed : SkeletonPose Root Joint Matrix}
    (hlocals : posed.locals.length = skeleton.joints.length)
    (hworlds : posed.worlds.length = skeleton.joints.length) :
    ∃ held, holdRifle geometry skeleton socket posed = some held := by
  obtain ⟨_, _, hright⟩ := hright
  obtain ⟨elbow, shoulder, hleft⟩ := hleft
  have hworld {joint : UInt32} (h : joint.toNat < skeleton.joints.length) :
      ∃ placed, posed.worlds[joint.toNat]? = some placed :=
    ⟨_, List.getElem?_eq_getElem (by rw [hworlds]; exact h)⟩
  have hlocal {joint : UInt32} (h : joint.toNat < skeleton.joints.length) {locals : List Joint}
      (hlength : locals.length = skeleton.joints.length) :
      ∃ placed, locals[joint.toNat]? = some placed :=
    ⟨_, List.getElem?_eq_getElem (by rw [hlength]; exact h)⟩
  obtain ⟨rightHand, hrightHand⟩ := hworld hright.hand_lt
  obtain ⟨atShoulder, hatShoulder⟩ := hworld hleft.shoulder_lt
  obtain ⟨atElbow, hatElbow⟩ := hworld hleft.elbow_lt
  obtain ⟨wrist, hwrist⟩ := hworld hleft.hand_lt
  obtain ⟨upper, hupper⟩ := hlocal hleft.shoulder_lt hlocals
  simp only [holdRifle, hrightHand, hleft.elbow_is, hleft.shoulder_is, hatShoulder, hatElbow,
    hwrist, hupper, Option.bind_eq_bind, Option.bind_some]
  generalize geometry.reach _ _ = turned
  rw [setAt_eq_some (by rw [hlocals]; exact hleft.shoulder_lt), Option.bind_some]
  have hturned : (posed.locals.set shoulder.toNat (turned.1 upper)).length =
      skeleton.joints.length := by
    rw [List.length_set, hlocals]
  obtain ⟨lower, hlower⟩ := hlocal hleft.elbow_lt hturned
  rw [hlower, Option.bind_some, setAt_eq_some (by rw [hturned]; exact hleft.elbow_lt),
    Option.bind_some]
  obtain ⟨after, hafter, -⟩ := @composeWorld_rel skeleton Root Joint Matrix geometry hskeleton
    ⟨posed.root, (posed.locals.set shoulder.toNat (turned.1 upper)).set elbow.toNat
      (turned.2 lower), posed.worlds⟩ _ rfl rfl (by rw [List.length_set, hturned])
  rw [hafter]
  exact ⟨_, rfl⟩

end

/-! ### A Character that loads -/

/-- No `.at()` fails: a pose, and the rifle held in it, whatever was posed before. -/
structure Safe (clips : CharacterClips) (skeleton : SkeletonData) : Prop where
  poses : ∀ {Root Joint Matrix : Type} (geometry : Geometry Root Joint Matrix)
    (blocks : Blocks Joint clips.skeleton.numJoints) (root : Root)
    (earlier : SkeletonPose Root Joint Matrix), ∃ posed held,
      pose geometry clips skeleton blocks root earlier = some posed ∧
        holdRifle geometry skeleton clips.weaponSocket posed = some held
  shoulder : ∃ shoulder, shoulderOf skeleton clips.weaponSocket = some shoulder ∧
    shoulder.toNat < skeleton.joints.length

/-- A Character whose every Joint is posed by its own animated one, and by nothing earlier. -/
structure Posable (clips : CharacterClips) (skeleton : SkeletonData) : Prop where
  safe : Safe clips skeleton
  oneToOne : clips.joints.Nodup
  onto : ∀ place < skeleton.joints.length,
    ∃ (i : ℕ) (joint : UInt32), clips.joints[i]? = some joint ∧ joint.toNat = place
  written : ∀ {Root Joint Matrix : Type} (geometry : Geometry Root Joint Matrix)
    (blocks : Blocks Joint clips.skeleton.numJoints) (root : Root), ∃ posed,
      (∀ earlier, pose geometry clips skeleton blocks root earlier = some posed) ∧
      posed.locals.length = skeleton.joints.length ∧
      ∀ (i : ℕ) joint, clips.joints[i]? = some joint →
        posed.locals[joint.toNat]? = laneOf blocks.lanes i

section
variable {skeleton : SkeletonData} {ozz : Ozz} {pack : CharacterPack} {clips : CharacterClips}

theorem loadClips_parts (h : loadClips ozz pack skeleton = .ok clips) :
    jointsOf clips.skeleton skeleton = .ok clips.joints ∧
      loadWeaponSocket pack skeleton = .ok clips.weaponSocket := by
  simp only [loadClips, Except.bind_eq_ok, Except.pure_eq_ok] at h
  obtain ⟨_, -, _, hjoints, _, -, _, -, _, -, _, -, _, -, _, hsocket, rfl⟩ := h
  exact ⟨hjoints, hsocket⟩

theorem safe_of_found (hskeleton : Rooted skeleton)
    (hfound : Found clips.skeleton skeleton clips.joints)
    (hsocket : loadWeaponSocket pack skeleton = .ok clips.weaponSocket) : Safe clips skeleton := by
  obtain ⟨hright, hleft⟩ := armed_of_loadWeaponSocket hskeleton hsocket
  constructor
  · intro Root Joint Matrix geometry blocks root earlier
    obtain ⟨written, hwritten, hlength, -⟩ := writeAll_spec hskeleton hfound blocks
      (length_resize skeleton.joints.length geometry.unposed earlier.locals)
    obtain ⟨posed, hposed, -, hlocals, hworlds⟩ := @composeWorld_rel skeleton Root Joint Matrix
      geometry hskeleton { earlier with root, locals := written } _ rfl rfl hlength
    obtain ⟨held, hheld⟩ := @exists_holdRifle skeleton Root Joint Matrix geometry hskeleton
      clips.weaponSocket hright hleft posed (by rw [hlocals]; exact hlength) hworlds
    refine ⟨posed, held, ?_, hheld⟩
    rw [pose, hwritten]
    exact hposed
  · obtain ⟨elbow, shoulder, hright⟩ := hright
    refine ⟨shoulder, ?_, hright.shoulder_lt⟩
    rw [shoulderOf, hright.elbow_is]
    exact hright.shoulder_is

/-- CORRECT: no `.at()` fails of a Character that loads, and it is posed whole exactly when no two of
    its animated Joints are named alike. -/
theorem posable_iff {blob : Bytes} (hskeleton : decodeSkeletonBlob blob = some skeleton)
    (hclips : loadClips ozz pack skeleton = .ok clips) :
    Safe clips skeleton ∧ (Posable clips skeleton ↔ clips.skeleton.jointNames.Nodup) := by
  have hrooted := rooted_of_decode hskeleton
  obtain ⟨hjoints, hsocket⟩ := loadClips_parts hclips
  have hfound := found_of_jointsOf hjoints
  have hsafe := safe_of_found hrooted hfound hsocket
  refine ⟨hsafe, fun hposable => (hfound.nodup_iff hrooted).mp hposable.oneToOne, fun hnames => ?_⟩
  have hnodup := (hfound.nodup_iff hrooted).mpr hnames
  refine ⟨hsafe, hnodup, fun place hplace => hfound.onto hrooted hnodup hplace, ?_⟩
  intro Root Joint Matrix geometry blocks root
  -- Every Joint is some lane's, so any two poses wrote the same.
  obtain ⟨written, hwritten, hlength, hlanes⟩ := writeAll_spec hrooted hfound blocks
    (length_resize skeleton.joints.length geometry.unposed [])
  have hsame (earlier : SkeletonPose Root Joint Matrix) :
      (List.range clips.skeleton.numJoints).foldlM (writeJoint blocks.lanes clips.joints)
        (resize skeleton.joints.length geometry.unposed earlier.locals) = some written := by
    obtain ⟨other, hother, hlength', hlanes'⟩ := writeAll_spec hrooted hfound blocks
      (length_resize skeleton.joints.length geometry.unposed earlier.locals)
    rw [hother]
    congr 1
    refine List.ext_getElem? fun place => ?_
    by_cases hplace : place < skeleton.joints.length
    · obtain ⟨i, joint, hjoint, rfl⟩ := hfound.onto hrooted hnodup hplace
      rw [hlanes hnodup i joint hjoint, hlanes' hnodup i joint hjoint]
    · rw [List.getElem?_eq_none (by omega), List.getElem?_eq_none (by omega)]
  obtain ⟨posed, hposed, -, hlocals, -⟩ := @composeWorld_rel skeleton Root Joint Matrix geometry
    hrooted ⟨root, written, []⟩ _ rfl rfl hlength
  refine ⟨posed, fun earlier => ?_, by rw [hlocals]; exact hlength, fun i joint hjoint => ?_⟩
  · rw [pose, hsame earlier]
    obtain ⟨after, hafter, hafter', -⟩ := @composeWorld_rel skeleton Root Joint Matrix geometry
      hrooted ⟨root, written, []⟩ { earlier with root, locals := written } rfl rfl hlength
    rw [hposed] at hafter
    obtain rfl := Option.some.inj hafter
    exact hafter'
  · rw [hlocals]
    exact hlanes hnodup i joint hjoint

end

/-! ### Two Joints named alike -/

/-- An arm and a head, each by one letter. -/
def armAndHead : SkeletonData where
  joints := [{ name := [97] }, { name := [98], parent := 0 }, { name := [99], parent := 1 },
    { name := [100], parent := 0 }]

/-- An ozz-animation that reads an archive as its Joints' names, a letter each. -/
def lettered : Ozz where
  skeletonOf archive := some ⟨archive.map fun letter => [letter]⟩
  animationOf _ := some ⟨4, .one⟩

/-- A pack whose animated Joints are those letters, and whose hands are both the arm's. -/
def packOf (letters : Bytes) : CharacterPack where
  animationSkeleton := .ok letters
  clip _ := .ok {}
  stanceTransitions := .ok {}
  weaponSocket := .ok { rightHand := [99], leftHand := [99] }

theorem armAndHead_decodes : ∃ blob, decodeSkeletonBlob blob = some armAndHead := by
  have hencodes : (encodeSkeletonBlob armAndHead).toOption.isSome = true := by decide +kernel
  cases hblob : encodeSkeletonBlob armAndHead with
  | error error => rw [hblob] at hencodes; cases hencodes
  | ok blob => exact ⟨blob, skeleton_lawful.read_back armAndHead blob hblob (by decide)⟩

/-- The hand twice, and the head not at all: it loads, and its head is posed by nothing. -/
theorem head_left_behind :
    (∃ blob, decodeSkeletonBlob blob = some armAndHead) ∧
    ∃ clips, loadClips lettered (packOf [97, 98, 99, 99]) armAndHead = .ok clips ∧
      ¬ Posable clips armAndHead := by
  refine ⟨armAndHead_decodes, ?_⟩
  have hloads : (loadClips lettered (packOf [97, 98, 99, 99]) armAndHead).toOption.any
      (fun clips => clips.joints = [0, 1, 2, 2]) = true := by decide +kernel
  cases hclips : loadClips lettered (packOf [97, 98, 99, 99]) armAndHead with
  | error error => rw [hclips] at hloads; cases hloads
  | ok clips =>
    rw [hclips] at hloads
    have hjoints : clips.joints = [0, 1, 2, 2] := of_decide_eq_true hloads
    refine ⟨clips, rfl, fun hposable => ?_⟩
    have hnodup := hposable.oneToOne
    rw [hjoints] at hnodup
    revert hnodup
    decide

theorem posable_iff_armAndHead :
    ∃ clips, loadClips lettered (packOf [97, 98, 100, 99]) armAndHead = .ok clips ∧
      Posable clips armAndHead := by
  obtain ⟨blob, hblob⟩ := armAndHead_decodes
  have hloads : (loadClips lettered (packOf [97, 98, 100, 99]) armAndHead).toOption.any
      (fun clips => clips.skeleton.jointNames.Nodup) = true := by decide +kernel
  cases hclips : loadClips lettered (packOf [97, 98, 100, 99]) armAndHead with
  | error error => rw [hclips] at hloads; cases hloads
  | ok clips =>
    rw [hclips] at hloads
    exact ⟨clips, rfl, (posable_iff hblob hclips).2.mpr (of_decide_eq_true hloads)⟩

end Augusta.Animation
