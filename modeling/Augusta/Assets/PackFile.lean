import Augusta.Assets.PackLaw
import Augusta.Lib.FileStream

/-! How a pack gets to its path: written beside it, then renamed over it.

      open tmp ─▶ header ─▶ data ─▶ index ─▶ hash ─▶ signature ─▶ good? ─▶ close ─▶ rename
                                                                    │                 │
                                                                    └──── remove ◀────┘

    Each file operation ends as `Outcomes` has it. -/

namespace Augusta.Assets.PackFile
open Lib (FileStream Flush)

/-- What is at the output path, and at the temporary file's beside it. -/
structure Disk where
  output : Option Bytes
  temporary : Option Bytes
  deriving DecidableEq, Repr

/-- How each file operation of a `WritePack` ends. -/
structure Outcomes where
  opened : Bool
  header : Flush := {}
  dataSection : Flush := {}
  indexSection : Flush := {}
  hash : Flush := {}
  signature : Flush := {}
  /-- The flush of what the stream still holds, as its file is closed. -/
  closing : Flush := {}
  renamed : Bool := true
  removed : Bool := true
  deriving DecidableEq, Repr

/-- What is written, each with the outcome of its write. -/
def pieces (outcomes : Outcomes) (sections : PackSections) (trailer : PackTrailer) :
    List (Bytes × Flush) :=
  [(sections.header, outcomes.header), (sections.dataSection, outcomes.dataSection),
    (sections.indexSection, outcomes.indexSection), (trailer.hash.1, outcomes.hash),
    (trailer.signature.1, outcomes.signature)]

/-- The stream once everything is written to it. -/
def written (outcomes : Outcomes) (sections : PackSections) (trailer : PackTrailer) :
    FileStream UInt8 :=
  ({} : FileStream UInt8).putAll (pieces outcomes sections trailer)

/-- `filesystem::remove` of the temporary file. -/
def remove (disk : Disk) (removed : Bool) : Disk :=
  if removed then { disk with temporary := none } else disk

/-- `WritePackFile`. -/
def writePackFile (disk : Disk) (outcomes : Outcomes) (sections : PackSections)
    (trailer : PackTrailer) : Except WriteError Unit × Disk :=
  if ¬ outcomes.opened then (.error .ioError, disk)
  else
    let out := written outcomes sections trailer
    -- whatever becomes of the stream, its file is closed at the end of its scope
    let disk := { disk with temporary := some (out.close outcomes.closing).file }
    if out.failed then (.error .ioError, remove disk outcomes.removed)
    else if outcomes.renamed then (.ok (), ⟨disk.temporary, none⟩)
    else (.error .ioError, remove disk outcomes.removed)

/-- The sections of a pack, if its entries are ones it can hold. -/
def sectionsOf (entries : List AssetEntry) (clientPack : Option PackHash) :
    Except WriteError PackSections := do
  validateEntries entries
  buildPackSections entries clientPack

/-- `WritePack`. -/
def writePack (crypto : Crypto) (disk : Disk) (outcomes : Outcomes) (entries : List AssetEntry)
    (key : Ed25519PrivateKey) (clientPack : Option PackHash) : Except WriteError PackHash × Disk :=
  match sectionsOf entries clientPack with
  | .error error => (.error error, disk)
  | .ok sections =>
      let trailer := signPack crypto sections key
      match writePackFile disk outcomes sections trailer with
      | (.error error, disk) => (.error error, disk)
      | (.ok (), disk) => (.ok trailer.hash, disk)

/-! ### What comes of it -/

/-- A whole pack, and its hash. -/
def wholePack (crypto : Crypto) (entries : List AssetEntry) (key : Ed25519PrivateKey)
    (clientPack : Option PackHash) : Except WriteError (PackHash × Bytes) :=
  Assets.writePack crypto true entries key clientPack

/-- The output path holds what it held or the whole new pack, and the latter where its hash is
    returned. -/
structure ReplacedWhole (crypto : Crypto) (disk : Disk) (outcomes : Outcomes)
    (entries : List AssetEntry) (key : Ed25519PrivateKey) (clientPack : Option PackHash) : Prop where
  either : (writePack crypto disk outcomes entries key clientPack).2.output = disk.output ∨
    ∃ hash file, wholePack crypto entries key clientPack = .ok (hash, file) ∧
      (writePack crypto disk outcomes entries key clientPack).2.output = some file
  returned : ∀ hash, (writePack crypto disk outcomes entries key clientPack).1 = .ok hash →
    ∃ file, wholePack crypto entries key clientPack = .ok (hash, file) ∧
      (writePack crypto disk outcomes entries key clientPack).2.output = some file

/-- Every write is taken in, the flush at the close fails with bytes not landed, and the rename goes
    through. -/
def LosesUnseen (crypto : Crypto) (outcomes : Outcomes) (entries : List AssetEntry)
    (key : Ed25519PrivateKey) (clientPack : Option PackHash) : Prop :=
  ∃ sections, sectionsOf entries clientPack = .ok sections ∧ outcomes.opened = true ∧
    (written outcomes sections (signPack crypto sections key)).failed = false ∧
    (outcomes.closing.failed = true ∧ outcomes.closing.landed <
      (written outcomes sections (signPack crypto sections key)).buffer.length) ∧
    outcomes.renamed = true

section
variable {crypto : Crypto} {disk : Disk} {outcomes : Outcomes} {entries : List AssetEntry}
  {key : Ed25519PrivateKey} {clientPack : Option PackHash} {sections : PackSections}

theorem wholePack_of_sections (h : sectionsOf entries clientPack = .ok sections) :
    wholePack crypto entries key clientPack =
      .ok ((signPack crypto sections key).hash,
        ((pieces outcomes sections (signPack crypto sections key)).map Prod.fst).flatten) := by
  obtain ⟨_, hvalid, hbuilt⟩ := Except.bind_eq_ok.mp h
  rw [wholePack, Assets.writePack, hvalid, Except.ok_bind, hbuilt, Except.ok_bind]
  simp [Assets.writePackFile, pieces]

/-- A stream that took everything in and lost none of it holds the pack. -/
theorem written_given {trailer : PackTrailer} (h : (written outcomes sections trailer).failed = false) :
    (written outcomes sections trailer).given =
      ((pieces outcomes sections trailer).map Prod.fst).flatten := by
  rw [written, FileStream.putAll_given h]
  rfl

/-- What becomes of the output path: it is left alone where an error is returned, else it has what
    landed of the pack. -/
theorem writePackFile_cases (disk : Disk) (outcomes : Outcomes) (sections : PackSections)
    (trailer : PackTrailer) :
    ((writePackFile disk outcomes sections trailer).1 = .error .ioError ∧
        (writePackFile disk outcomes sections trailer).2.output = disk.output ∧
        ¬ (outcomes.opened = true ∧ (written outcomes sections trailer).failed = false ∧
          outcomes.renamed = true)) ∨
      ((writePackFile disk outcomes sections trailer).1 = .ok () ∧
        (writePackFile disk outcomes sections trailer).2.output =
          some ((written outcomes sections trailer).close outcomes.closing).file ∧
        outcomes.opened = true ∧ (written outcomes sections trailer).failed = false ∧
          outcomes.renamed = true) := by
  have hremove (disk : Disk) (removed : Bool) : (remove disk removed).output = disk.output := by
    rw [remove]
    split_ifs <;> rfl
  cases hopened : outcomes.opened with
  | false => exact .inl ⟨by simp [writePackFile, hopened], by simp [writePackFile, hopened], by simp⟩
  | true =>
      cases hfailed : (written outcomes sections trailer).failed with
      | true =>
          refine .inl ⟨by simp [writePackFile, hopened, hfailed], ?_, by simp⟩
          simp [writePackFile, hopened, hfailed, hremove]
      | false =>
          cases hrenamed : outcomes.renamed with
          | false =>
              refine .inl ⟨by simp [writePackFile, hopened, hfailed, hrenamed], ?_, by simp⟩
              simp [writePackFile, hopened, hfailed, hrenamed, hremove]
          | true =>
              refine .inr ⟨by simp [writePackFile, hopened, hfailed, hrenamed], ?_, rfl, rfl, rfl⟩
              simp [writePackFile, hopened, hfailed, hrenamed]

/-- CORRECT: a pack is replaced whole or not at all exactly where the close loses nothing unseen. -/
theorem replaced_whole_iff (crypto : Crypto) (disk : Disk) (outcomes : Outcomes)
    (entries : List AssetEntry) (key : Ed25519PrivateKey) (clientPack : Option PackHash) :
    ReplacedWhole crypto disk outcomes entries key clientPack ↔
      ¬ LosesUnseen crypto outcomes entries key clientPack := by
  cases hsections : sectionsOf entries clientPack with
  | error error =>
      have hresult : writePack crypto disk outcomes entries key clientPack = (.error error, disk) := by
        rw [writePack, hsections]
      constructor
      · rintro - ⟨sections, hsome, -⟩
        rw [hsections] at hsome
        cases hsome
      · intro _
        refine ⟨.inl (by rw [hresult]), fun hash hok => ?_⟩
        rw [hresult] at hok
        cases hok
  | ok sections =>
      have hwhole := @wholePack_of_sections crypto outcomes _ key _ _ hsections
      rcases writePackFile_cases disk outcomes sections (signPack crypto sections key) with
        ⟨herror, hkept, hnot⟩ | ⟨hok, hput, hopened, hgood, hrenamed⟩
      · -- An error is returned, and the path is as it was.
        have hresult : writePack crypto disk outcomes entries key clientPack = (.error .ioError,
            (writePackFile disk outcomes sections (signPack crypto sections key)).2) := by
          rw [writePack, hsections]
          simp only
          generalize writePackFile disk outcomes sections (signPack crypto sections key) = result
            at herror ⊢
          obtain ⟨_, after⟩ := result
          cases herror
          rfl
        constructor
        · rintro - ⟨other, hother, hopened, hgood, -, hrenamed⟩
          rw [hsections] at hother
          cases hother
          exact hnot ⟨hopened, hgood, hrenamed⟩
        · intro _
          refine ⟨.inl (by rw [hresult, hkept]), fun hash hok => ?_⟩
          rw [hresult] at hok
          cases hok
      · -- The hash is returned, and the path has what landed.
        have hresult : writePack crypto disk outcomes entries key clientPack =
            (.ok (signPack crypto sections key).hash,
              (writePackFile disk outcomes sections (signPack crypto sections key)).2) := by
          rw [writePack, hsections]
          simp only
          generalize writePackFile disk outcomes sections (signPack crypto sections key) = result
            at hok ⊢
          obtain ⟨_, after⟩ := result
          cases hok
          rfl
        rw [← written_given hgood] at hwhole
        constructor
        · rintro ⟨-, hreturned⟩ ⟨other, hother, -, -, hlost, -⟩
          rw [hsections] at hother
          cases hother
          obtain ⟨file, hfile, houtput⟩ := hreturned _ (by rw [hresult])
          rw [hwhole] at hfile
          cases hfile
          rw [hresult] at houtput
          have hsame := Option.some.inj (hput.symm.trans houtput)
          exact (FileStream.close_file_iff _ _).mp hsame hlost
        · intro hnot
          have hsame := (FileStream.close_file_iff (written outcomes sections
            (signPack crypto sections key)) outcomes.closing).mpr fun hlost =>
              hnot ⟨sections, hsections, hopened, hgood, hlost, hrenamed⟩
          rw [hsame] at hput
          refine ⟨.inr ⟨_, _, hwhole, by rw [hresult, hput]⟩, fun hash hok => ?_⟩
          rw [hresult] at hok
          cases hok
          exact ⟨_, hwhole, by rw [hresult, hput]⟩

end

/-! ### A disk that fills as the file is closed -/

/-- Each write fits the stream's buffer, and a hundred bytes of it the disk. -/
def fullDisk : Outcomes where
  opened := true
  closing := ⟨100, true⟩

/-- The hash is returned, and the pack that was there is gone for a cut one. -/
theorem cut_pack_returned :
    (writePack eyeCrypto ⟨some [7], none⟩ fullDisk eyeEntries eyeKeys.privateKey none).1 =
        .ok eyeHash ∧
      ((writePack eyeCrypto ⟨some [7], none⟩ fullDisk eyeEntries eyeKeys.privateKey
        none).2.output.map (·.length)) = some 100 ∧
      (wholePack eyeCrypto eyeEntries eyeKeys.privateKey none).toOption.map (·.2.length) =
        some 236 ∧
      ¬ ReplacedWhole eyeCrypto ⟨some [7], none⟩ fullDisk eyeEntries eyeKeys.privateKey none := by
  have hok : (writePack eyeCrypto ⟨some [7], none⟩ fullDisk eyeEntries eyeKeys.privateKey
      none).1.toOption = some eyeHash := by decide +kernel
  have hlength : ((writePack eyeCrypto ⟨some [7], none⟩ fullDisk eyeEntries eyeKeys.privateKey
      none).2.output.map (·.length)) = some 100 := by decide +kernel
  have hwhole : (wholePack eyeCrypto eyeEntries eyeKeys.privateKey none).toOption.map
      (·.2.length) = some 236 := by decide +kernel
  have hreturned : (writePack eyeCrypto ⟨some [7], none⟩ fullDisk eyeEntries eyeKeys.privateKey
      none).1 = .ok eyeHash := by
    cases hresult : (writePack eyeCrypto ⟨some [7], none⟩ fullDisk eyeEntries eyeKeys.privateKey
      none).1 with
    | error error => rw [hresult] at hok; cases hok
    | ok hash => rw [hresult] at hok; rw [Option.some.inj hok]
  refine ⟨hreturned, hlength, hwhole, fun h => ?_⟩
  obtain ⟨file, hfile, houtput⟩ := h.returned _ hreturned
  rw [houtput] at hlength
  rw [hfile] at hwhole
  have hcut : file.length = 100 := Option.some.inj hlength
  have hfull : file.length = 236 := Option.some.inj hwhole
  omega

end Augusta.Assets.PackFile
