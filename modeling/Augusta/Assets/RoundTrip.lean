import Augusta.Assets.Decoder
import Augusta.Assets.Encoder
import Mathlib.Data.List.Forall2

/-! What a blob's encoder writes and what its decoder makes of it.

      value  ──encode──▶  blob  ──decode──▶  value     where it keeps the rules of its kind
                                └──────────▶  none      where it does not
      blob   ──decode──▶  value that keeps them, and that encodes again -/

namespace Augusta.Assets
open Lib (Binary32 Reader)
open Lib.Reader
open Math

/-! ### Parts -/

theorem orTooLarge_eq_ok {written : Option Bytes} {bytes : Bytes} :
    orTooLarge written = .ok bytes ↔ written = some bytes := by
  cases written <;> simp [orTooLarge]

/-- A count within a limit is read back. -/
theorem run_readCount_of_le {α : Type} {items : List α} {limit : ℕ} (h : items.length ≤ limit)
    (hlimit : limit < 2 ^ 32) (rest : Bytes) :
    (readCount limit).run (writeCount items ++ rest) = some (items.length, rest) := by
  obtain ⟨hcount, hback⟩ := run_readCount rest (Nat.lt_of_le_of_lt h hlimit)
  rw [readCount, run_bind_of_run hcount, hback]
  simp [h]

theorem readCount_gives {limit count : ℕ} {bytes rest : Bytes}
    (h : (readCount limit).run bytes = some (count, rest)) : count ≤ limit := by
  obtain ⟨written, more, -, h⟩ := run_bind_eq_some.mp h
  obtain ⟨hle, h⟩ := run_demand_bind_eq_some.mp h
  obtain ⟨rfl, -⟩ := run_pure_eq_some.mp h
  exact hle

/-- A path there is written, and read, where its flag says so. -/
theorem run_readOptionalPath {path : Option Bytes} {written : Bytes} {flags bit : UInt8}
    (h : writeOptionalPath path = some written) (hbit : flags &&& bit = 0 ↔ path = none)
    (rest : Bytes) : (readOptionalPath flags bit).run (written ++ rest) = some (path, rest) := by
  cases path with
  | none =>
      cases h
      rw [readOptionalPath, if_pos (hbit.mpr rfl)]
      rfl
  | some path =>
      have hset : ¬flags &&& bit = 0 := fun hzero => by cases hbit.mp hzero
      rw [readOptionalPath, if_neg hset, StateT.run_map, run_readString rest h]
      rfl

theorem readOptionalPath_gives {path : Option Bytes} {flags bit : UInt8} {bytes rest : Bytes}
    (h : (readOptionalPath flags bit).run bytes = some (path, rest)) :
    ∃ written, writeOptionalPath path = some written := by
  rw [readOptionalPath] at h
  split at h
  · obtain ⟨rfl, -⟩ := run_pure_eq_some.mp h
    exact ⟨[], rfl⟩
  · obtain ⟨str, hstr, rfl⟩ := run_map_eq_some.mp h
    exact ⟨_, writeString_eq_some.mpr ⟨readString_gives hstr, rfl⟩⟩

@[simp] theorem run_readTransform (transform : Transform) (rest : Bytes) :
    readTransform.run (writeTransform transform ++ rest) = some (transform, rest) := by
  simp [readTransform, writeTransform, List.append_assoc]

@[simp] theorem run_readPlacement (placement : Placement) (rest : Bytes) :
    readPlacement.run (writePlacement placement ++ rest) = some (placement, rest) := by
  simp [readPlacement, writePlacement, List.append_assoc]

/-- Items that are all written are read back, and nothing of them is checked. -/
theorem run_many_of_forall {α : Type} {read : Reader α} {encode : α → Except EncodeError Bytes}
    {items : List α} {pieces : List Bytes} (h : items.mapM encode = .ok pieces)
    (hitem : ∀ item piece rest, encode item = .ok piece →
      read.run (piece ++ rest) = some (item, rest)) (rest : Bytes) :
    (many (fun _ => read) items.length []).run (pieces.flatten ++ rest) = some (items, rest) := by
  have hall : List.Forall₂ (fun item piece => ∀ (_ : List α) after,
      read.run (piece ++ after) = if true then some (item, after) else none) items pieces :=
    (Except.forall₂_of_mapM h).imp fun item piece hpiece _ after => hitem item piece after hpiece
  rw [@run_many α (fun _ => read) (fun _ _ => true) items pieces hall [] rest,
    if_pos (each_iff.mpr fun _ _ _ => rfl), List.nil_append]

/-- What is written of items that are checked is read back where each passes. -/
theorem run_many_of_checked {α : Type} {read : ℕ → Reader α} {encode : α → Except EncodeError Bytes}
    {ok : ℕ → α → Bool} {items : List α} {pieces : List Bytes} (h : items.mapM encode = .ok pieces)
    (hitem : ∀ index item piece rest, encode item = .ok piece →
      (read index).run (piece ++ rest) = if ok index item then some (item, rest) else none)
    (rest : Bytes) :
    (many (fun before => read before.length) items.length []).run (pieces.flatten ++ rest) =
      if each (fun (before : List α) => ok before.length) [] items then some (items, rest)
      else none :=
  run_many ((Except.forall₂_of_mapM h).imp fun item piece hpiece (before : List α) after =>
    hitem before.length item piece after hpiece) [] rest

/-- Each passes by its index exactly when each does at its place. -/
theorem each_index_iff {α : Type} {ok : ℕ → α → Bool} {items : List α} :
    each (fun (before : List α) => ok before.length) [] items = true ↔
      ∀ i item, items[i]? = some item → ok i item = true := by
  rw [each_iff]
  refine forall_congr' fun i => forall_congr' fun item => imp_congr_right fun hitem => ?_
  have hlt : i < items.length := (List.getElem?_eq_some_iff.mp hitem).1
  rw [List.nil_append, List.length_take_of_le (Nat.le_of_lt hlt)]

/-! ### Scenes -/

theorem flagIf_bits : ∀ mesh material collider hitbox spawn : Bool,
    let flags := flagIf mesh kNodeHasMesh ||| flagIf material kNodeHasMaterial |||
      flagIf collider kNodeHasCollider ||| flagIf hitbox kNodeHasHitbox |||
      flagIf spawn kNodeIsSpawnPoint
    (flags &&& kNodeHasMesh = 0 ↔ mesh = false) ∧
    (flags &&& kNodeHasMaterial = 0 ↔ material = false) ∧
    (flags &&& kNodeHasCollider = 0 ↔ collider = false) ∧
    (flags &&& kNodeHasHitbox = 0 ↔ hitbox = false) ∧
    (flags &&& kNodeIsSpawnPoint != 0) = spawn := by
  decide

/-- Each bit says what it is set for, whatever the others are. -/
theorem nodeFlags_bits (node : SceneNode) :
    (nodeFlags node &&& kNodeHasMesh = 0 ↔ node.meshPath = none) ∧
    (nodeFlags node &&& kNodeHasMaterial = 0 ↔ node.materialPath = none) ∧
    (nodeFlags node &&& kNodeHasCollider = 0 ↔ node.colliderPath = none) ∧
    (nodeFlags node &&& kNodeHasHitbox = 0 ↔ node.hitboxPath = none) ∧
    (nodeFlags node &&& kNodeIsSpawnPoint != 0) = node.isSpawnPoint := by
  have h := flagIf_bits node.meshPath.isSome node.materialPath.isSome node.colliderPath.isSome
    node.hitboxPath.isSome node.isSpawnPoint
  simp only [Option.isSome_eq_false_iff, Option.isNone_iff_eq_none] at h
  exact h

theorem encodeProperty_read {property : Bytes × Bytes} {piece : Bytes} (rest : Bytes)
    (h : encodeProperty property = .ok piece) :
    readProperty.run (piece ++ rest) = some (property, rest) := by
  simp only [encodeProperty, Except.bind_eq_ok, orTooLarge_eq_ok, Except.pure_eq_ok] at h
  obtain ⟨key, hkey, value, hvalue, rfl⟩ := h
  rw [readProperty, List.append_assoc, run_bind_of_run (run_readString _ hkey),
    run_bind_of_run (run_readString _ hvalue)]
  rfl

/-- A node is read back, if its parent is listed before it. -/
theorem encodeSceneNode_read {node : SceneNode} {piece : Bytes} (index : ℕ) (rest : Bytes)
    (h : encodeSceneNode node = .ok piece) :
    (readSceneNode index).run (piece ++ rest) =
      if parentBefore node.parentIndex index then some (node, rest) else none := by
  simp only [encodeSceneNode, Except.bind_eq_ok, orTooLarge_eq_ok] at h
  obtain ⟨name, hname, mesh, hmesh, material, hmaterial, collider, hcollider, hitbox, hhitbox, h⟩ := h
  split at h
  · cases h
  · next hfew =>
      simp only [Except.bind_eq_ok, Except.pure_eq_ok] at h
      obtain ⟨properties, hproperties, rfl⟩ := h
      obtain ⟨hbit₁, hbit₂, hbit₃, hbit₄, hspawn⟩ := nodeFlags_bits node
      simp only [readSceneNode, List.append_assoc]
      rw [run_bind_of_run (run_readString _ hname), run_bind_of_run (run_readU32 _ _),
        run_demand_bind]
      split
      · rw [run_bind_of_run (run_readTransform _ _), run_bind_of_run (run_readU8 _ _),
          run_bind_of_run (run_readOptionalPath hmesh hbit₁ _),
          run_bind_of_run (run_readOptionalPath hmaterial hbit₂ _),
          run_bind_of_run (run_readOptionalPath hcollider hbit₃ _),
          run_bind_of_run (run_readOptionalPath hhitbox hbit₄ _)]
        have hlist : readProperties.run (writeCount node.properties ++ (properties.flatten ++ rest)) =
            some (node.properties, rest) := by
          rw [readProperties, run_bind_of_run
            (run_readCount_of_le (Nat.not_lt.mp hfew) (by decide) _)]
          exact run_many_of_forall hproperties (fun _ _ rest h => encodeProperty_read rest h) rest
        rw [run_bind_of_run hlist]
        simp only [hspawn]
        rfl
      · rfl

theorem readProperty_gives {property : Bytes × Bytes} {bytes rest : Bytes}
    (h : readProperty.run bytes = some (property, rest)) :
    ∃ piece, encodeProperty property = .ok piece := by
  obtain ⟨key, _, hkey, h⟩ := run_bind_eq_some.mp h
  obtain ⟨value, _, hvalue, h⟩ := run_bind_eq_some.mp h
  obtain ⟨rfl, -⟩ := run_pure_eq_some.mp h
  have hkey := writeString_eq_some.mpr ⟨readString_gives hkey, rfl⟩
  have hvalue := writeString_eq_some.mpr ⟨readString_gives hvalue, rfl⟩
  simp only [encodeProperty, hkey, hvalue, orTooLarge, Except.ok_bind]
  exact ⟨_, rfl⟩

/-- Of a list that is read, as many as were asked for, and each is one that encodes. -/
theorem many_encodes {α : Type} {read : Reader α} {encode : α → Except EncodeError Bytes}
    (hitem : ∀ bytes item rest, read.run bytes = some (item, rest) →
      ∃ piece, encode item = .ok piece)
    {count : ℕ} {bytes rest : Bytes} {items : List α}
    (h : (many (fun _ => read) count []).run bytes = some (items, rest)) :
    items.length = count ∧ ∃ pieces, items.mapM encode = .ok pieces := by
  obtain ⟨hlength, heach⟩ := many_nil_gives (P := fun _ item => ∃ piece, encode item = .ok piece)
    (fun _ bytes item rest hread => hitem bytes item rest hread) h
  refine ⟨hlength, Except.mapM_ok_of_forall fun item hmem => ?_⟩
  obtain ⟨i, hi⟩ := List.getElem?_of_mem hmem
  exact heach i item hi

theorem readProperties_gives {properties : List (Bytes × Bytes)} {bytes rest : Bytes}
    (h : readProperties.run bytes = some (properties, rest)) :
    properties.length ≤ kMaxProperties ∧ ∃ pieces, properties.mapM encodeProperty = .ok pieces := by
  obtain ⟨count, _, hcount, h⟩ := run_bind_eq_some.mp h
  obtain ⟨hlength, hpieces⟩ := many_encodes (fun _ _ _ => readProperty_gives) h
  exact ⟨hlength ▸ readCount_gives hcount, hpieces⟩

/-- A node that is read follows its parent, and is one that encodes. -/
theorem readSceneNode_gives {index : ℕ} {node : SceneNode} {bytes rest : Bytes}
    (h : (readSceneNode index).run bytes = some (node, rest)) :
    parentBefore node.parentIndex index = true ∧ ∃ piece, encodeSceneNode node = .ok piece := by
  obtain ⟨name, _, hname, h⟩ := run_bind_eq_some.mp h
  obtain ⟨parentIndex, _, -, h⟩ := run_bind_eq_some.mp h
  obtain ⟨hparent, h⟩ := run_demand_bind_eq_some.mp h
  obtain ⟨transform, _, -, h⟩ := run_bind_eq_some.mp h
  obtain ⟨flags, _, -, h⟩ := run_bind_eq_some.mp h
  obtain ⟨meshPath, _, hmesh, h⟩ := run_bind_eq_some.mp h
  obtain ⟨materialPath, _, hmaterial, h⟩ := run_bind_eq_some.mp h
  obtain ⟨colliderPath, _, hcollider, h⟩ := run_bind_eq_some.mp h
  obtain ⟨hitboxPath, _, hhitbox, h⟩ := run_bind_eq_some.mp h
  obtain ⟨properties, _, hproperties, h⟩ := run_bind_eq_some.mp h
  obtain ⟨rfl, -⟩ := run_pure_eq_some.mp h
  refine ⟨hparent, ?_⟩
  have hname := writeString_eq_some.mpr ⟨readString_gives hname, rfl⟩
  obtain ⟨_, hmesh⟩ := readOptionalPath_gives hmesh
  obtain ⟨_, hmaterial⟩ := readOptionalPath_gives hmaterial
  obtain ⟨_, hcollider⟩ := readOptionalPath_gives hcollider
  obtain ⟨_, hhitbox⟩ := readOptionalPath_gives hhitbox
  obtain ⟨hfew, pieces, hpieces⟩ := readProperties_gives hproperties
  simp only [encodeSceneNode, hname, hmesh, hmaterial, hcollider, hhitbox, orTooLarge,
    Except.ok_bind, if_neg (Nat.not_lt.mpr hfew), hpieces]
  exact ⟨_, rfl⟩

end Augusta.Assets
