import Augusta.Core.Command
import Augusta.Lib.Outcome
import Augusta.Lib.Reader

/-! `augusta::assets`' wire format: the numbers, vectors and strings every blob and the pack around
    them are made of.

      u32, u64   low byte first        f32      its bits, a u32
      string     u32 length, its bytes, `kMaxPathLength` of them at most -/

namespace Augusta.Math
open Lib (Binary32)

structure Quat where
  x : Binary32 := .zero
  y : Binary32 := .zero
  z : Binary32 := .zero
  w : Binary32 := .one
  deriving DecidableEq, Repr

end Augusta.Math

namespace Augusta.Assets
open Lib (Binary32 Reader littleEndian ofLittleEndian)
open Lib.Reader
open Math

/-- Bytes, and the characters of a `std::string`. -/
abbrev Bytes := List UInt8

/-! ### Limits -/

def kMaxPathLength : ℕ := 4096
def kMaxMeshPoints : ℕ := 16000000
def kMaxMeshIndices : ℕ := 48000000
def kMaxSceneNodes : ℕ := 1000000
def kMaxProperties : ℕ := 256
def kMaxAudioBytes : ℕ := 64 * 1024 * 1024
def kMaxCueVariants : ℕ := 255
def kMaxArchiveBytes : ℕ := 64 * 1024 * 1024
def kMaxFootContacts : ℕ := 255

def isValidStrideLength (meters : Binary32) : Bool := meters.isFinite && Binary32.zero.le meters

def isValidFootContactRatio (ratio : Binary32) : Bool :=
  ratio.isFinite && Binary32.zero.le ratio && ratio.le .one

def isValidTransitionDuration (seconds : Binary32) : Bool :=
  seconds.isFinite && Binary32.zero.lt seconds

/-- The sample widths a PCM WAV file can hold. -/
def kPcmBitsPerSample : List UInt8 := [8, 16, 24, 32]

def kNodeHasMesh : UInt8 := 1
def kNodeHasMaterial : UInt8 := 2
def kNodeHasCollider : UInt8 := 4
def kNodeHasHitbox : UInt8 := 8
def kNodeIsSpawnPoint : UInt8 := 16

/-! ### `ByteWriter` -/

def writeU8 (value : UInt8) : Bytes := [value]

def writeU32 (value : UInt32) : Bytes := littleEndian 4 value.toNat

def writeU64 (value : UInt64) : Bytes := littleEndian 8 value.toNat

def writeF32 (value : Binary32) : Bytes := writeU32 value.bits

def writeVec3 (value : Vec3) : Bytes := writeF32 value.x ++ writeF32 value.y ++ writeF32 value.z

def writeQuat (value : Quat) : Bytes :=
  writeF32 value.x ++ writeF32 value.y ++ writeF32 value.z ++ writeF32 value.w

/-- A list's size as its count is written. -/
def writeCount {α : Type} (items : List α) : Bytes := writeU32 (UInt32.ofNat items.length)

/-- None if the string is too long. -/
def writeString (str : Bytes) : Option Bytes :=
  if kMaxPathLength < str.length then none else some (writeCount str ++ str)

/-- Whether there is a path travels elsewhere. -/
def writeOptionalPath : Option Bytes → Option Bytes
  | none => some []
  | some path => writeString path

/-! ### `ByteReader` -/

def readU8 : Reader UInt8 := (·.headD 0) <$> Lib.Reader.take 1

def readU32 : Reader UInt32 := (UInt32.ofNat <| ofLittleEndian ·) <$> Lib.Reader.take 4

def readU64 : Reader UInt64 := (UInt64.ofNat <| ofLittleEndian ·) <$> Lib.Reader.take 8

def readF32 : Reader Binary32 := Binary32.mk <$> readU32

def readVec3 : Reader Vec3 := do
  let x ← readF32
  let y ← readF32
  let z ← readF32
  return ⟨x, y, z⟩

def readQuat : Reader Quat := do
  let x ← readF32
  let y ← readF32
  let z ← readF32
  let w ← readF32
  return ⟨x, y, z, w⟩

def readString : Reader Bytes := do
  let length ← readU32
  demand (length.toNat ≤ kMaxPathLength)
  Lib.Reader.take length.toNat

/-! ### What is written is read back -/

section
variable (rest : Bytes)

@[simp] theorem run_readU8 (value : UInt8) :
    readU8.run (writeU8 value ++ rest) = some (value, rest) := rfl

@[simp] theorem run_readU32 (value : UInt32) :
    readU32.run (writeU32 value ++ rest) = some (value, rest) := by
  have hlength : (writeU32 value).length = 4 := Lib.length_littleEndian 4 _
  rw [readU32, StateT.run_map, run_take_of_length hlength]
  simp [writeU32, Lib.ofLittleEndian_littleEndian (show value.toNat < 256 ^ 4 from value.toNat_lt)]

@[simp] theorem run_readU64 (value : UInt64) :
    readU64.run (writeU64 value ++ rest) = some (value, rest) := by
  have hlength : (writeU64 value).length = 8 := Lib.length_littleEndian 8 _
  rw [readU64, StateT.run_map, run_take_of_length hlength]
  simp [writeU64, Lib.ofLittleEndian_littleEndian (show value.toNat < 256 ^ 8 from value.toNat_lt)]

@[simp] theorem run_readF32 (value : Binary32) :
    readF32.run (writeF32 value ++ rest) = some (value, rest) := by
  simp [readF32, writeF32, StateT.run_map]

@[simp] theorem run_readVec3 (value : Vec3) :
    readVec3.run (writeVec3 value ++ rest) = some (value, rest) := by
  simp [readVec3, writeVec3, List.append_assoc]

@[simp] theorem run_readQuat (value : Quat) :
    readQuat.run (writeQuat value ++ rest) = some (value, rest) := by
  simp [readQuat, writeQuat, List.append_assoc]

/-- A count that fits is read back. -/
theorem run_readCount {α : Type} {items : List α} (h : items.length < 2 ^ 32) :
    readU32.run (writeCount items ++ rest) = some (UInt32.ofNat items.length, rest) ∧
      (UInt32.ofNat items.length).toNat = items.length :=
  ⟨run_readU32 rest _, UInt32.toNat_ofNat_of_lt' h⟩

theorem writeString_eq_some {str written : Bytes} :
    writeString str = some written ↔
      str.length ≤ kMaxPathLength ∧ written = writeCount str ++ str := by
  unfold writeString
  split
  · next hlong => simp [Nat.not_le.mpr hlong]
  · next hshort => simp [Nat.not_lt.mp hshort, eq_comm]

theorem run_readString {str written : Bytes} (h : writeString str = some written) :
    readString.run (written ++ rest) = some (str, rest) := by
  obtain ⟨hshort, rfl⟩ := writeString_eq_some.mp h
  have hfits : str.length < 2 ^ 32 := Nat.lt_of_le_of_lt hshort (by decide)
  obtain ⟨hcount, hback⟩ := run_readCount (str ++ rest) hfits
  rw [readString, List.append_assoc, run_bind_of_run hcount, hback]
  simp [hshort]

end

/-- A string that is read is one that can be written. -/
theorem readString_gives {str bytes rest : Bytes} (h : readString.run bytes = some (str, rest)) :
    str.length ≤ kMaxPathLength := by
  obtain ⟨length, more, -, h⟩ := run_bind_eq_some.mp h
  obtain ⟨hle, h⟩ := run_demand_bind_eq_some.mp h
  rwa [(run_take_eq_some.mp h).1]

end Augusta.Assets
