import Augusta.Assets.WireFormat
import Mathlib.Data.List.Sort
import Mathlib.Data.List.TakeDrop

/-! `augusta::assets`' pack: the file its blobs are in, written and signed, and read back.

      header │ blob blob …  blob │ entry entry … entry │ hash  signature
      0      61                  index offset          length − 96

    BLAKE3 and Ed25519 are what `Crypto` has them do. -/

namespace Augusta.Assets
open Lib (Reader)
open Lib.Reader

/-! ### Kinds -/

inductive AssetType
  | mesh | texture | audio | collision | spawnPoint | hitbox | scene | script | characters | eye
  | cueSound | skeleton | animationSkeleton | clip | stanceTransitions | rifle | weaponSocket
  deriving DecidableEq, Repr

/-- The byte an entry's kind is carried as. -/
def AssetType.byte (type : AssetType) : UInt8 := UInt8.ofNat type.ctorIdx

def allAssetTypes : List AssetType :=
  [.mesh, .texture, .audio, .collision, .spawnPoint, .hitbox, .scene, .script, .characters, .eye,
    .cueSound, .skeleton, .animationSkeleton, .clip, .stanceTransitions, .rifle, .weaponSocket]

/-- `IsValidAssetType`, and the kind a valid byte is. -/
def assetTypeOf (byte : UInt8) : Option AssetType := allAssetTypes[byte.toNat]?

@[simp] theorem assetTypeOf_byte (type : AssetType) : assetTypeOf type.byte = some type := by
  cases type <;> rfl

/-! ### Hashes and signatures -/

/-- So many bytes. -/
abbrev FixedBytes (size : ℕ) := { bytes : Bytes // bytes.length = size }

/-- The `size` bytes at the front, of bytes that have as many. -/
def FixedBytes.of (size : ℕ) (bytes : Bytes) : FixedBytes size :=
  ⟨bytes.takeD size 0, List.takeD_length size bytes 0⟩

def kPackHashSize : ℕ := 32

def kEd25519SignatureSize : ℕ := 64

abbrev PackHash := FixedBytes kPackHashSize

abbrev Ed25519Signature := FixedBytes kEd25519SignatureSize

abbrev Ed25519PublicKey := FixedBytes 32

abbrev Ed25519PrivateKey := FixedBytes 64

structure Ed25519KeyPair where
  publicKey : Ed25519PublicKey
  privateKey : Ed25519PrivateKey

/-- What BLAKE3 and Ed25519 give. -/
structure Crypto where
  hash : Bytes → PackHash
  sign : PackHash → Ed25519PrivateKey → Ed25519Signature
  verify : Ed25519Signature → PackHash → Ed25519PublicKey → Bool

/-! ### The pack's layout -/

def kPackMagic : Bytes := [0x41, 0x55, 0x47, 0x50]

def kFormatVersion : UInt32 := 7

def kHeaderHasClientPack : UInt8 := 1

def kHeaderSize : UInt64 := 61

def kTrailerSize : UInt64 := 96

def kMaxEntries : ℕ := 2 ^ 20

def kMaxPackSize : ℕ := 8 * 1024 * 1024 * 1024

structure AssetEntry where
  type : AssetType
  path : Bytes
  data : Bytes
  deriving DecidableEq, Repr

/-! ### Written -/

inductive WriteError
  | ioError | duplicatePath | tooLarge
  deriving DecidableEq, Repr

/-- Whether two neighbours are equal. -/
def adjacentFind (paths : List Bytes) : Bool := (paths.zip paths.tail).any fun (a, b) => a = b

def validateEntries (entries : List AssetEntry) : Except WriteError Unit :=
  if kMaxEntries < entries.length then .error .tooLarge
  else if entries.any fun entry => kMaxPathLength < entry.path.length then .error .tooLarge
  else if adjacentFind ((entries.map (·.path)).insertionSort (· ≤ ·)) then
    .error .duplicatePath
  else .ok ()

/-- Where each blob begins, the first at `cursor`, and where the last ends. A sum of sizes of what is
    in memory stays far below 2^64. -/
def offsets : ℕ → List AssetEntry → List ℕ × ℕ
  | cursor, [] => ([], cursor)
  | cursor, entry :: rest =>
      let (others, last) := offsets (cursor + entry.data.length) rest
      (cursor :: others, last)

def writeEntry (entry : AssetEntry) (offset : ℕ) : Option Bytes :=
  (writeString entry.path).map fun path =>
    writeU8 entry.type.byte ++ (path ++
      (writeU64 (UInt64.ofNat offset) ++ writeU64 (UInt64.ofNat entry.data.length)))

structure PackSections where
  header : Bytes
  dataSection : Bytes
  indexSection : Bytes

def writeHeader (indexOffset : ℕ) (count : ℕ) (clientPack : Option PackHash) : Bytes :=
  kPackMagic ++ (writeU32 kFormatVersion ++ (writeU64 kHeaderSize ++
    (writeU64 (UInt64.ofNat indexOffset) ++ (writeU32 (UInt32.ofNat count) ++
      (writeU8 (if clientPack.isSome then kHeaderHasClientPack else 0) ++
        (clientPack.getD (.of kPackHashSize [])).1)))))

def buildPackSections (entries : List AssetEntry) (clientPack : Option PackHash) :
    Except WriteError PackSections :=
  let (starts, indexOffset) := offsets kHeaderSize.toNat entries
  match (entries.zip starts).mapM fun (entry, offset) => writeEntry entry offset with
  | none => .error .tooLarge
  | some index =>
      let sections : PackSections :=
        { header := writeHeader indexOffset entries.length clientPack
          dataSection := entries.flatMap (·.data)
          indexSection := index.flatten }
      if kMaxPackSize < sections.header.length + sections.dataSection.length +
          sections.indexSection.length + kTrailerSize.toNat then .error .tooLarge
      else .ok sections

structure PackTrailer where
  hash : PackHash
  signature : Ed25519Signature

def signPack (crypto : Crypto) (sections : PackSections) (key : Ed25519PrivateKey) : PackTrailer :=
  let hash := crypto.hash (sections.header ++ sections.dataSection ++ sections.indexSection)
  { hash, signature := crypto.sign hash key }

/-- The file, if the file system takes it. -/
def writePackFile (taken : Bool) (sections : PackSections) (trailer : PackTrailer) :
    Except WriteError Bytes :=
  if taken then
    .ok (sections.header ++ sections.dataSection ++ sections.indexSection ++
      (trailer.hash.1 ++ trailer.signature.1))
  else .error .ioError

/-- `WritePack`: the pack's hash, and its file. -/
def writePack (crypto : Crypto) (taken : Bool) (entries : List AssetEntry) (key : Ed25519PrivateKey)
    (clientPack : Option PackHash) : Except WriteError (PackHash × Bytes) := do
  validateEntries entries
  let sections ← buildPackSections entries clientPack
  let trailer := signPack crypto sections key
  let file ← writePackFile taken sections trailer
  return (trailer.hash, file)

/-! ### Read -/

inductive LoadErrorCode
  | ioError | badMagic | unsupportedVersion | truncated | invalidIndex | hashMismatch
  | signatureInvalid
  deriving DecidableEq, Repr

structure LoadError where
  code : LoadErrorCode
  packVersion : UInt32 := 0
  deriving DecidableEq, Repr

structure PackHeader where
  version : UInt32
  dataOffset : UInt64
  indexOffset : UInt64
  indexCount : UInt32
  clientPack : Option PackHash

structure PackEntry where
  type : AssetType
  offset : UInt64
  size : UInt64
  path : Bytes
  deriving DecidableEq, Repr

/-- No flag but the client pack's, and no hash without it. -/
def parseClientPack (bytes : Bytes) : Except LoadErrorCode (Option PackHash) :=
  let read : Reader (UInt8 × Bytes) := do
    let flags ← readU8
    let hash ← Lib.Reader.take kPackHashSize
    return (flags, hash)
  match read.run bytes with
  | none => .error .truncated
  | some ((flags, hash), _) =>
      let hasClientPack := flags &&& kHeaderHasClientPack != 0
      let strayHash := !hasClientPack && hash.any (· ≠ 0)
      if flags &&& ~~~kHeaderHasClientPack != 0 || strayHash then .error .truncated
      else .ok (if hasClientPack then some (.of kPackHashSize hash) else none)

def parsePackHeader (headerBytes : Bytes) (hashedLength : UInt64) : Except LoadError PackHeader :=
  match (Lib.Reader.take kPackMagic.length).run headerBytes with
  | none => .error { code := .badMagic }
  | some (magic, bytes) =>
      if magic ≠ kPackMagic then .error { code := .badMagic }
      else match readU32.run bytes with
      | none => .error { code := .truncated }
      | some (version, bytes) =>
          if version ≠ kFormatVersion then
            .error { code := .unsupportedVersion, packVersion := version }
          else
            let read : Reader (UInt64 × UInt64 × UInt32) := do
              let dataOffset ← readU64
              let indexOffset ← readU64
              let indexCount ← readU32
              return (dataOffset, indexOffset, indexCount)
            match read.run bytes with
            | none => .error { code := .truncated }
            | some ((dataOffset, indexOffset, indexCount), bytes) =>
                if dataOffset ≠ kHeaderSize then .error { code := .truncated }
                else if indexOffset < kHeaderSize || hashedLength < indexOffset then
                  .error { code := .truncated }
                else if kMaxEntries < indexCount.toNat then .error { code := .truncated }
                else match parseClientPack bytes with
                | .error code => .error { code }
                | .ok clientPack =>
                    .ok { version, dataOffset, indexOffset, indexCount, clientPack }

/-- Whether a blob leaves the data section, which ends at `dataEnd`. -/
def leavesDataSection (offset size dataEnd : UInt64) : Bool :=
  offset < kHeaderSize || dataEnd < offset || dataEnd - offset < size

/-- The next entry of an index that has `index` so far, and what follows it. -/
def parseEntry (dataEnd : UInt64) (index : List PackEntry) (bytes : Bytes) :
    Except LoadErrorCode (PackEntry × Bytes) :=
  match readU8.run bytes with
  | none => .error .invalidIndex
  | some (byte, bytes) =>
      match assetTypeOf byte with
      | none => .error .invalidIndex
      | some type =>
          match readString.run bytes with
          | none => .error .truncated
          | some (path, bytes) =>
              let read : Reader (UInt64 × UInt64) := do
                let offset ← readU64
                let size ← readU64
                return (offset, size)
              match read.run bytes with
              | none => .error .truncated
              | some ((offset, size), bytes) =>
                  if leavesDataSection offset size dataEnd then .error .truncated
                  else if index.any fun existing => existing.path = path then .error .invalidIndex
                  else .ok ({ type, offset, size, path }, bytes)

/-- The loop of `ParsePackIndex`, with so many entries left. -/
def parseEntries (dataEnd : UInt64) :
    ℕ → List PackEntry → Bytes → Except LoadErrorCode (List PackEntry)
  | 0, index, _ => .ok index
  | left + 1, index, bytes =>
      match parseEntry dataEnd index bytes with
      | .error code => .error code
      | .ok (entry, rest) => parseEntries dataEnd left (index ++ [entry]) rest

def parsePackIndex (indexBytes : Bytes) (dataEnd : UInt64) (count : UInt32) :
    Except LoadErrorCode (List PackEntry) :=
  parseEntries dataEnd count.toNat [] indexBytes

/-- The file mapped, if it can be, and of a size a pack can have. -/
def openValidatedMapping (file : Option Bytes) : Except LoadErrorCode Bytes :=
  match file with
  | none => .error .ioError
  | some mapped =>
      if mapped.length < (kHeaderSize + kTrailerSize).toNat || kMaxPackSize < mapped.length then
        .error .truncated
      else .ok mapped

structure OpenedPack where
  mapping : Bytes
  header : PackHeader
  /-- The file's length less the trailer. -/
  hashedLength : UInt64

def openPack (file : Option Bytes) : Except LoadError OpenedPack :=
  match openValidatedMapping file with
  | .error code => .error { code }
  | .ok mapping =>
      let hashedLength := UInt64.ofNat mapping.length - kTrailerSize
      match parsePackHeader (mapping.take kHeaderSize.toNat) hashedLength with
      | .error error => .error error
      | .ok header => .ok { mapping, header, hashedLength }

def parsePackIndexOf (pack : OpenedPack) : Except LoadErrorCode (List PackEntry) :=
  parsePackIndex
    ((pack.mapping.drop pack.header.indexOffset.toNat).take
      (pack.hashedLength - pack.header.indexOffset).toNat)
    pack.header.indexOffset pack.header.indexCount

def readTrailer (mapped : Bytes) (hashedLength : UInt64) : PackTrailer where
  hash := .of kPackHashSize (mapped.drop hashedLength.toNat)
  signature := .of kEd25519SignatureSize (mapped.drop (hashedLength.toNat + kPackHashSize))

/-- A loaded pack. -/
structure Pack where
  mapping : Bytes
  index : List PackEntry
  hash : PackHash
  clientPack : Option PackHash
  version : UInt32

/-- `Pack::Load`. -/
def load (crypto : Crypto) (file : Option Bytes) (publicKey : Ed25519PublicKey) :
    Except LoadError Pack :=
  match openPack file with
  | .error error => .error error
  | .ok opened =>
      let trailer := readTrailer opened.mapping opened.hashedLength
      if crypto.hash (opened.mapping.take opened.hashedLength.toNat) ≠ trailer.hash then
        .error { code := .hashMismatch }
      else if !crypto.verify trailer.signature trailer.hash publicKey then
        .error { code := .signatureInvalid }
      else match parsePackIndexOf opened with
      | .error code => .error { code }
      | .ok index =>
          .ok { mapping := opened.mapping, index, hash := trailer.hash
                clientPack := opened.header.clientPack, version := opened.header.version }

/-- A pack's header, index and trailer, none of it verified. -/
structure PackLayout where
  version : UInt32
  fileSize : UInt64
  dataOffset : UInt64
  indexOffset : UInt64
  clientPack : Option PackHash
  entries : List PackEntry
  trailer : PackTrailer

def readPackLayout (file : Option Bytes) : Except LoadError PackLayout :=
  match openPack file with
  | .error error => .error error
  | .ok opened =>
      match parsePackIndexOf opened with
      | .error code => .error { code }
      | .ok entries =>
          .ok { version := opened.header.version
                fileSize := UInt64.ofNat opened.mapping.length
                dataOffset := opened.header.dataOffset
                indexOffset := opened.header.indexOffset
                clientPack := opened.header.clientPack
                entries
                trailer := readTrailer opened.mapping opened.hashedLength }

/-- The bytes of an entry's blob. -/
def blobBytes (mapping : Bytes) (entry : PackEntry) : Bytes :=
  (mapping.drop entry.offset.toNat).take entry.size.toNat

end Augusta.Assets
