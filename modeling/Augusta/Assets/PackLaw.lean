import Augusta.Assets.Pack
import Augusta.Lib.BigEndian

/-! A pack reads back as written, and no range it is accepted with leaves its data section.

      entries ──writePack──▶ file ──load──▶ the same entries, in order, each with its data
      any file  ──load──▶  refused │ paths distinct, 61 ≤ offset, offset + size ≤ index offset -/

namespace Augusta.Assets
open Lib (Reader)
open Lib.Reader

/-- The fixed bytes at the front, whatever follows them. -/
@[simp] theorem FixedBytes.of_append {size : ℕ} (fixed : FixedBytes size) (rest : Bytes) :
    FixedBytes.of size (fixed.1 ++ rest) = fixed :=
  Subtype.ext (List.takeD_left' fixed.2)

/-! ### Paths that are distinct -/

/-- An ordered list without equal neighbours has no two alike. -/
theorem nodup_of_adjacentFind : ∀ {paths : List Bytes},
    paths.Pairwise (· ≤ ·) → adjacentFind paths = false → paths.Nodup
  | [], _, _ => List.nodup_nil
  | [_], _, _ => List.pairwise_singleton _ _
  | first :: second :: rest, hsorted, hadjacent => by
      obtain ⟨hfirst, hrest⟩ := List.pairwise_cons.mp hsorted
      have hsplit : decide (first = second) = false ∧ adjacentFind (second :: rest) = false := by
        simpa [adjacentFind] using hadjacent
      refine List.nodup_cons.mpr ⟨fun hmem => ?_, nodup_of_adjacentFind hrest hsplit.2⟩
      have hne : first ≠ second := of_decide_eq_false hsplit.1
      rcases List.mem_cons.mp hmem with heq | hlater
      · exact hne heq
      · exact hne (List.le_antisymm (hfirst second List.mem_cons_self)
          ((List.pairwise_cons.mp hrest).1 first hlater))

theorem validateEntries_eq_ok {entries : List AssetEntry} (h : validateEntries entries = .ok ()) :
    entries.length ≤ kMaxEntries ∧ (entries.map (·.path)).Nodup := by
  unfold validateEntries at h
  split at h
  · cases h
  · next hfew =>
      split at h
      · cases h
      · split at h
        · cases h
        · next hadjacent =>
            refine ⟨Nat.not_lt.mp hfew, ?_⟩
            have htotal : Std.Total fun a b : Bytes => a ≤ b := ⟨List.le_total⟩
            have htrans : IsTrans Bytes fun a b => a ≤ b := ⟨fun _ _ _ => List.le_trans⟩
            have hnodup := nodup_of_adjacentFind (List.pairwise_insertionSort _ _)
              (Bool.not_eq_true _ ▸ hadjacent)
            exact (List.perm_insertionSort _ _).nodup_iff.mp hnodup

/-! ### Where blobs are -/

/-- A blob's range as whole numbers: within the data section. -/
theorem leavesDataSection_eq_false {offset size dataEnd : UInt64} :
    leavesDataSection offset size dataEnd = false ↔
      kHeaderSize.toNat ≤ offset.toNat ∧ offset.toNat + size.toNat ≤ dataEnd.toNat := by
  simp only [leavesDataSection, Bool.or_eq_false_iff, decide_eq_false_iff_not, UInt64.not_lt,
    UInt64.le_iff_toNat_le]
  constructor
  · rintro ⟨⟨hstart, hinside⟩, hsize⟩
    rw [UInt64.toNat_sub_of_le _ _ (UInt64.le_iff_toNat_le.mpr hinside)] at hsize
    exact ⟨hstart, by omega⟩
  · rintro ⟨hstart, hend⟩
    have hinside : offset.toNat ≤ dataEnd.toNat := by omega
    refine ⟨⟨hstart, hinside⟩, ?_⟩
    rw [UInt64.toNat_sub_of_le _ _ (UInt64.le_iff_toNat_le.mpr hinside)]
    omega

theorem offsets_snd (entries : List AssetEntry) (cursor : ℕ) :
    (offsets cursor entries).2 = cursor + (entries.flatMap (·.data)).length := by
  induction entries generalizing cursor with
  | nil => simp [offsets]
  | cons entry rest ih => simp [offsets, ih, Nat.add_assoc]

/-- The index of blobs one after another from `cursor`. -/
def indexFrom : ℕ → List AssetEntry → List PackEntry
  | _, [] => []
  | cursor, entry :: rest =>
      { type := entry.type, offset := UInt64.ofNat cursor
        size := UInt64.ofNat entry.data.length, path := entry.path } ::
      indexFrom (cursor + entry.data.length) rest

/-! ### An index read back -/

theorem writeEntry_eq_some {entry : AssetEntry} {offset : ℕ} {piece : Bytes} :
    writeEntry entry offset = some piece ↔ ∃ path, writeString entry.path = some path ∧
      writeU8 entry.type.byte ++ (path ++ (writeU64 (UInt64.ofNat offset) ++
        writeU64 (UInt64.ofNat entry.data.length))) = piece := by
  rw [writeEntry, Option.map_eq_some_iff]

/-- An entry within the data section, whose path is new, is read back. -/
theorem parseEntry_written {entry : AssetEntry} {cursor : ℕ} {piece : Bytes} {dataEnd : UInt64}
    {index : List PackEntry} (h : writeEntry entry cursor = some piece)
    (hstart : kHeaderSize.toNat ≤ cursor) (hend : cursor + entry.data.length ≤ dataEnd.toNat)
    (hnew : ∀ existing ∈ index, existing.path ≠ entry.path) (rest : Bytes) :
    parseEntry dataEnd index (piece ++ rest) =
      .ok ({ type := entry.type, offset := UInt64.ofNat cursor
             size := UInt64.ofNat entry.data.length, path := entry.path }, rest) := by
  obtain ⟨path, hpath, rfl⟩ := writeEntry_eq_some.mp h
  have hlt : dataEnd.toNat < UInt64.size := dataEnd.toNat_lt
  have hinside : leavesDataSection (UInt64.ofNat cursor) (UInt64.ofNat entry.data.length) dataEnd =
      false := by
    rw [leavesDataSection_eq_false, UInt64.toNat_ofNat_of_lt' (show cursor < UInt64.size by omega),
      UInt64.toNat_ofNat_of_lt' (show entry.data.length < UInt64.size by omega)]
    exact ⟨hstart, hend⟩
  have hany : (index.any fun existing => existing.path = entry.path) = false := by
    simpa using hnew
  simp only [parseEntry, List.append_assoc, run_readU8, assetTypeOf_byte, run_readString _ hpath]
  simp [hinside, hany]

theorem parseEntries_written {dataEnd : UInt64} : ∀ (entries : List AssetEntry) (cursor : ℕ)
    (index : List PackEntry) {pieces : List Bytes} (rest : Bytes),
    ((entries.zip (offsets cursor entries).1).mapM fun (entry, offset) => writeEntry entry offset) =
      some pieces →
    kHeaderSize.toNat ≤ cursor →
    cursor + (entries.flatMap (·.data)).length ≤ dataEnd.toNat →
    (index.map (·.path) ++ entries.map (·.path)).Nodup →
    parseEntries dataEnd entries.length index (pieces.flatten ++ rest) =
      .ok (index ++ indexFrom cursor entries)
  | [], cursor, index, pieces, rest, hpieces, _, _, _ => by
      rw [indexFrom, List.append_nil]
      rfl
  | entry :: others, cursor, index, pieces, rest, hpieces, hstart, hend, hnodup => by
      simp only [offsets, List.zip_cons_cons, List.mapM_cons, Option.bind_eq_bind,
        Option.bind_eq_some_iff] at hpieces
      obtain ⟨piece, hpiece, more, hmore, hpieces⟩ := hpieces
      cases hpieces
      rw [List.flatMap_cons, List.length_append] at hend
      have hnew : ∀ existing ∈ index, existing.path ≠ entry.path := fun existing hmem heq =>
        (List.nodup_append.mp hnodup).2.2 _ (List.mem_map_of_mem hmem) _ List.mem_cons_self heq
      have hinside : cursor + entry.data.length ≤ dataEnd.toNat := by omega
      have hfirst := parseEntry_written hpiece hstart hinside hnew (more.flatten ++ rest)
      rw [List.length_cons, parseEntries, List.flatten_cons, List.append_assoc, hfirst]
      have hrest : cursor + entry.data.length + (others.flatMap (·.data)).length ≤ dataEnd.toNat := by
        omega
      have hothers := parseEntries_written others (cursor + entry.data.length)
        (index ++ [{ type := entry.type, offset := UInt64.ofNat cursor
                     size := UInt64.ofNat entry.data.length, path := entry.path }]) rest hmore
        (by omega) hrest (by simpa using hnodup)
      refine hothers.trans ?_
      rw [indexFrom, List.append_assoc]
      rfl

/-- Each entry's blob is its data, where the blobs are one after another from `cursor`. -/
theorem blobBytes_indexFrom {mapping : Bytes} : ∀ (entries : List AssetEntry) (cursor : ℕ)
    (rest : Bytes), mapping.drop cursor = entries.flatMap (·.data) ++ rest →
    cursor + (entries.flatMap (·.data)).length < UInt64.size →
    (indexFrom cursor entries).map (fun entry => (entry.type, entry.path, blobBytes mapping entry)) =
      entries.map fun entry => (entry.type, entry.path, entry.data)
  | [], _, _, _, _ => rfl
  | entry :: others, cursor, rest, hdrop, hfits => by
      rw [List.flatMap_cons, List.append_assoc] at hdrop
      rw [List.flatMap_cons, List.length_append] at hfits
      have hblob : blobBytes mapping
          { type := entry.type, offset := UInt64.ofNat cursor
            size := UInt64.ofNat entry.data.length, path := entry.path } = entry.data := by
        rw [blobBytes, UInt64.toNat_ofNat_of_lt' (show cursor < UInt64.size by omega),
          UInt64.toNat_ofNat_of_lt' (show entry.data.length < UInt64.size by omega), hdrop,
          List.take_left]
      have hnext : mapping.drop (cursor + entry.data.length) = others.flatMap (·.data) ++ rest := by
        rw [← List.drop_drop, hdrop, List.drop_left]
      rw [indexFrom, List.map_cons, List.map_cons, hblob,
        blobBytes_indexFrom others _ rest hnext (by omega)]

/-! ### A header read back -/

theorem length_writeHeader (indexOffset count : ℕ) (clientPack : Option PackHash) :
    (writeHeader indexOffset count clientPack).length = kHeaderSize.toNat := by
  have hhash := (clientPack.getD (.of kPackHashSize [])).2
  simp only [writeHeader, List.length_append, hhash, writeU8, writeU32, writeU64,
    Lib.length_littleEndian, List.length_singleton]
  rfl

theorem parseClientPack_written (clientPack : Option PackHash) :
    parseClientPack (writeU8 (if clientPack.isSome then kHeaderHasClientPack else 0) ++
      (clientPack.getD (.of kPackHashSize [])).1) = .ok clientPack := by
  have hhash := (clientPack.getD (.of kPackHashSize [])).2
  have htake := run_take_of_length hhash []
  rw [List.append_nil] at htake
  simp only [parseClientPack]
  rw [run_bind_of_run (run_readU8 _ _), run_bind_of_run htake]
  cases clientPack with
  | none => decide
  | some hash =>
      have hback := FixedBytes.of_append hash []
      rw [List.append_nil] at hback
      simp [kHeaderHasClientPack, hback]

theorem parsePackHeader_written {indexOffset count : ℕ} {clientPack : Option PackHash}
    {hashedLength : UInt64} (hstart : kHeaderSize.toNat ≤ indexOffset)
    (hend : indexOffset ≤ hashedLength.toNat) (hcount : count ≤ kMaxEntries) :
    parsePackHeader (writeHeader indexOffset count clientPack) hashedLength =
      .ok { version := kFormatVersion, dataOffset := kHeaderSize
            indexOffset := UInt64.ofNat indexOffset, indexCount := UInt32.ofNat count
            clientPack } := by
  have hlt : hashedLength.toNat < UInt64.size := hashedLength.toNat_lt
  have hoffset : (UInt64.ofNat indexOffset).toNat = indexOffset :=
    UInt64.toNat_ofNat_of_lt' (by omega)
  have hback : (UInt32.ofNat count).toNat = count :=
    UInt32.toNat_ofNat_of_lt' (Nat.lt_of_le_of_lt hcount (by decide))
  have hinside : (decide (UInt64.ofNat indexOffset < kHeaderSize) ||
      decide (hashedLength < UInt64.ofNat indexOffset)) = false := by
    simp only [Bool.or_eq_false_iff, decide_eq_false_iff_not, UInt64.not_lt,
      UInt64.le_iff_toNat_le, hoffset]
    exact ⟨hstart, hend⟩
  simp only [parsePackHeader, writeHeader]
  rw [run_take]
  simp only [ne_eq, not_true_eq_false, if_false, run_readU32]
  rw [run_bind_of_run (run_readU64 _ _), run_bind_of_run (run_readU64 _ _),
    run_bind_of_run (run_readU32 _ _)]
  simp only [StateT.run_pure, Option.pure_def, hinside, hback, Nat.not_lt.mpr hcount,
    not_true_eq_false, if_false, Bool.false_eq_true]
  rw [parseClientPack_written]

/-! ### A pack read back -/

/-- Sections that are built: their header names where the index is, and the whole fits a pack. -/
theorem buildPackSections_eq_ok {entries : List AssetEntry} {clientPack : Option PackHash}
    {sections : PackSections} (h : buildPackSections entries clientPack = .ok sections) :
    ∃ index : List Bytes,
      ((entries.zip (offsets kHeaderSize.toNat entries).1).mapM fun (entry, offset) =>
        writeEntry entry offset) = some index ∧
      sections.dataSection = entries.flatMap (·.data) ∧ sections.indexSection = index.flatten ∧
      sections.header = writeHeader (kHeaderSize.toNat + sections.dataSection.length)
        entries.length clientPack ∧
      kHeaderSize.toNat + sections.dataSection.length + sections.indexSection.length +
        kTrailerSize.toNat ≤ kMaxPackSize := by
  unfold buildPackSections at h
  simp only at h
  split at h
  · cases h
  · next index hindex =>
      split at h
      · cases h
      · next hsize =>
          cases h
          rw [length_writeHeader] at hsize
          exact ⟨index, hindex, rfl, rfl, by simp only [offsets_snd], Nat.not_lt.mp hsize⟩

/-- The file of sections and a trailer. -/
def fileOf (sections : PackSections) (trailer : PackTrailer) : Bytes :=
  sections.header ++ sections.dataSection ++ sections.indexSection ++
    (trailer.hash.1 ++ trailer.signature.1)

section
variable {sections : PackSections} {trailer : PackTrailer}

/-- What of the file is hashed: all but the trailer. -/
theorem hashed_fileOf (hheader : sections.header.length = kHeaderSize.toNat)
    (hsize : kHeaderSize.toNat + sections.dataSection.length + sections.indexSection.length +
      kTrailerSize.toNat ≤ kMaxPackSize) :
    openValidatedMapping (some (fileOf sections trailer)) = .ok (fileOf sections trailer) ∧
    (UInt64.ofNat (fileOf sections trailer).length - kTrailerSize).toNat =
      (sections.header ++ sections.dataSection ++ sections.indexSection).length := by
  have hlength : (fileOf sections trailer).length = kHeaderSize.toNat +
      sections.dataSection.length + sections.indexSection.length + 96 := by
    simp only [fileOf, List.length_append, hheader, trailer.hash.2, trailer.signature.2]
    rfl
  have hconstants : kHeaderSize.toNat = 61 ∧ kTrailerSize.toNat = 96 ∧
      (kHeaderSize + kTrailerSize).toNat = 157 := ⟨rfl, rfl, rfl⟩
  have hmax : kMaxPackSize < UInt64.size := by decide
  have hofNat : (UInt64.ofNat (fileOf sections trailer).length).toNat =
      (fileOf sections trailer).length := UInt64.toNat_ofNat_of_lt' (by omega)
  constructor
  · have hsmall : ¬(fileOf sections trailer).length < (kHeaderSize + kTrailerSize).toNat := by omega
    have hlarge : ¬kMaxPackSize < (fileOf sections trailer).length := by omega
    simp only [openValidatedMapping, hsmall, hlarge, decide_false, Bool.or_self,
      Bool.false_eq_true, if_false]
  · rw [UInt64.toNat_sub_of_le _ _ (UInt64.le_iff_toNat_le.mpr (by omega)), hofNat,
      List.length_append, List.length_append, hheader]
    omega

theorem readTrailer_fileOf {hashed : UInt64}
    (h : hashed.toNat =
      (sections.header ++ sections.dataSection ++ sections.indexSection).length) :
    readTrailer (fileOf sections trailer) hashed = trailer := by
  have hhash := FixedBytes.of_append trailer.hash trailer.signature.1
  have hsignature := FixedBytes.of_append trailer.signature []
  rw [List.append_nil] at hsignature
  rw [readTrailer, fileOf, h, List.drop_left, ← List.drop_drop, List.drop_left,
    List.drop_left' trailer.hash.2, hhash, hsignature]

/-- The file opens, its header as written. -/
theorem openPack_fileOf {count : ℕ} {clientPack : Option PackHash}
    (hheader : sections.header =
      writeHeader (kHeaderSize.toNat + sections.dataSection.length) count clientPack)
    (hsize : kHeaderSize.toNat + sections.dataSection.length + sections.indexSection.length +
      kTrailerSize.toNat ≤ kMaxPackSize) (hcount : count ≤ kMaxEntries) :
    openPack (some (fileOf sections trailer)) =
      .ok { mapping := fileOf sections trailer
            header :=
              { version := kFormatVersion, dataOffset := kHeaderSize
                indexOffset := UInt64.ofNat (kHeaderSize.toNat + sections.dataSection.length)
                indexCount := UInt32.ofNat count, clientPack }
            hashedLength := UInt64.ofNat (fileOf sections trailer).length - kTrailerSize } := by
  have hlength : sections.header.length = kHeaderSize.toNat := by rw [hheader, length_writeHeader]
  obtain ⟨hopen, hhashed⟩ := @hashed_fileOf sections trailer hlength hsize
  have hfront : (fileOf sections trailer).take kHeaderSize.toNat = sections.header := by
    simp only [fileOf, List.append_assoc]
    exact List.take_left' hlength
  have hinside : kHeaderSize.toNat + sections.dataSection.length ≤
      (UInt64.ofNat (fileOf sections trailer).length - kTrailerSize).toNat := by
    rw [hhashed, List.length_append, List.length_append, hlength]
    omega
  simp only [openPack, hopen, hfront]
  rw [hheader, parsePackHeader_written (Nat.le_add_right _ _) hinside hcount]

end

/-- A pack that is written loads, its entries where they were put. -/
theorem load_fileOf {crypto : Crypto} {entries : List AssetEntry} {clientPack : Option PackHash}
    {sections : PackSections} {keys : Ed25519KeyPair}
    (hpair : ∀ hash, crypto.verify (crypto.sign hash keys.privateKey) hash keys.publicKey = true)
    (hvalid : validateEntries entries = .ok ())
    (h : buildPackSections entries clientPack = .ok sections) :
    let trailer := signPack crypto sections keys.privateKey
    load crypto (some (fileOf sections trailer)) keys.publicKey =
      .ok { mapping := fileOf sections trailer, index := indexFrom kHeaderSize.toNat entries
            hash := trailer.hash, clientPack, version := kFormatVersion } := by
  intro trailer
  obtain ⟨hcount, hnodup⟩ := validateEntries_eq_ok hvalid
  obtain ⟨index, hindex, hdata, hindexSection, hheader, hsize⟩ := buildPackSections_eq_ok h
  have hlength : sections.header.length = kHeaderSize.toNat := by rw [hheader, length_writeHeader]
  obtain ⟨-, hhashed⟩ := @hashed_fileOf sections trailer hlength hsize
  have hopen := @openPack_fileOf sections trailer _ _ hheader hsize hcount
  have hmax : kMaxPackSize < UInt64.size := by decide
  have hoffset : (UInt64.ofNat (kHeaderSize.toNat + sections.dataSection.length)).toNat =
      kHeaderSize.toNat + sections.dataSection.length := UInt64.toNat_ofNat_of_lt' (by omega)
  have hback : (UInt32.ofNat entries.length).toNat = entries.length :=
    UInt32.toNat_ofNat_of_lt' (Nat.lt_of_le_of_lt hcount (by decide))
  have hcovered : crypto.hash ((fileOf sections trailer).take
      (UInt64.ofNat (fileOf sections trailer).length - kTrailerSize).toNat) = trailer.hash := by
    rw [hhashed, fileOf, List.take_left]
    rfl
  have hindexBytes : ((fileOf sections trailer).drop
      (UInt64.ofNat (kHeaderSize.toNat + sections.dataSection.length)).toNat).take
        ((UInt64.ofNat (fileOf sections trailer).length - kTrailerSize) -
          UInt64.ofNat (kHeaderSize.toNat + sections.dataSection.length)).toNat =
      sections.indexSection := by
    have hle : UInt64.ofNat (kHeaderSize.toNat + sections.dataSection.length) ≤
        UInt64.ofNat (fileOf sections trailer).length - kTrailerSize := by
      rw [UInt64.le_iff_toNat_le, hoffset, hhashed, List.length_append, List.length_append, hlength]
      omega
    have hstart : (sections.header ++ sections.dataSection).length =
        kHeaderSize.toNat + sections.dataSection.length := by
      rw [List.length_append, hlength]
    rw [UInt64.toNat_sub_of_le _ _ hle, hoffset, hhashed, fileOf,
      List.append_assoc _ sections.indexSection, List.drop_left' hstart]
    refine List.take_left' ?_
    rw [List.length_append, List.length_append, hlength]
    omega
  have hentries := @parseEntries_written
    (UInt64.ofNat (kHeaderSize.toNat + sections.dataSection.length)) entries kHeaderSize.toNat []
    index [] hindex (Nat.le_refl _) (by rw [hoffset, hdata]) hnodup
  rw [List.append_nil, List.nil_append, ← hindexSection] at hentries
  simp only [load, hopen, readTrailer_fileOf hhashed, hcovered, ne_eq, not_true_eq_false, if_false,
    parsePackIndexOf, parsePackIndex, hindexBytes, hback, hentries]
  have hverify : crypto.verify trailer.signature trailer.hash keys.publicKey = true := hpair _
  simp only [hverify, Bool.not_true, Bool.false_eq_true, if_false]

/-! ### What is accepted -/

/-- What holds of an index that has been read so far. -/
structure IndexWithin (dataEnd : UInt64) (index : List PackEntry) : Prop where
  paths : ∀ entry ∈ index, entry.path.length ≤ kMaxPathLength
  distinct : (index.map (·.path)).Nodup
  inside : ∀ entry ∈ index, kHeaderSize.toNat ≤ entry.offset.toNat ∧
    entry.offset.toNat + entry.size.toNat ≤ dataEnd.toNat

theorem parseEntry_gives {dataEnd : UInt64} {index : List PackEntry} {bytes rest : Bytes}
    {entry : PackEntry} (h : parseEntry dataEnd index bytes = .ok (entry, rest)) :
    entry.path.length ≤ kMaxPathLength ∧ (∀ existing ∈ index, existing.path ≠ entry.path) ∧
      kHeaderSize.toNat ≤ entry.offset.toNat ∧
        entry.offset.toNat + entry.size.toNat ≤ dataEnd.toNat := by
  unfold parseEntry at h
  split at h
  · cases h
  · split at h
    · cases h
    · split at h
      · cases h
      · next hpath =>
          dsimp only at h
          split at h
          · cases h
          · split at h
            · cases h
            · next hinside =>
                split at h
                · cases h
                · next hnew =>
                    cases h
                    refine ⟨readString_gives hpath, by simpa using hnew, ?_⟩
                    exact leavesDataSection_eq_false.mp (Bool.not_eq_true _ ▸ hinside)

/-- One more entry, within and new, keeps it. -/
theorem IndexWithin.add {dataEnd : UInt64} {index : List PackEntry} (h : IndexWithin dataEnd index)
    {bytes rest : Bytes} {entry : PackEntry}
    (hentry : parseEntry dataEnd index bytes = .ok (entry, rest)) :
    IndexWithin dataEnd (index ++ [entry]) := by
  obtain ⟨hpath, hnew, hinside⟩ := parseEntry_gives hentry
  refine ⟨fun other hmem => ?_, ?_, fun other hmem => ?_⟩
  · rcases List.mem_append.mp hmem with hold | hlast
    · exact h.paths other hold
    · rw [List.mem_singleton.mp hlast]
      exact hpath
  · rw [List.map_append, List.nodup_append]
    refine ⟨h.distinct, List.pairwise_singleton _ _, ?_⟩
    rintro path hold other hlast rfl
    obtain ⟨existing, hmem, heq⟩ := List.mem_map.mp hold
    exact hnew existing hmem (heq.trans (List.mem_singleton.mp hlast))
  · rcases List.mem_append.mp hmem with hold | hlast
    · exact h.inside other hold
    · rw [List.mem_singleton.mp hlast]
      exact hinside

theorem parseEntries_gives {dataEnd : UInt64} : ∀ (count : ℕ) {index all : List PackEntry}
    {bytes : Bytes}, IndexWithin dataEnd index →
    parseEntries dataEnd count index bytes = .ok all → IndexWithin dataEnd all
  | 0, index, all, bytes, hindex, h => by
      cases h
      exact hindex
  | count + 1, index, all, bytes, hindex, h => by
      rw [parseEntries] at h
      split at h
      · cases h
      · next hentry => exact parseEntries_gives count (hindex.add hentry) h

/-- A file of a pack's size: its trailer is taken off without wrapping. -/
theorem openValidatedMapping_gives {file : Option Bytes} {mapped : Bytes}
    (h : openValidatedMapping file = .ok mapped) :
    file = some mapped ∧
      (UInt64.ofNat mapped.length - kTrailerSize).toNat + kTrailerSize.toNat = mapped.length := by
  unfold openValidatedMapping at h
  split at h
  · cases h
  · split at h
    · cases h
    · next hsize =>
        cases h
        rw [Bool.or_eq_true, not_or, decide_eq_true_eq, decide_eq_true_eq, Nat.not_lt,
          Nat.not_lt] at hsize
        have hconstants : kTrailerSize.toNat = 96 ∧ (kHeaderSize + kTrailerSize).toNat = 157 :=
          ⟨rfl, rfl⟩
        have hmax : kMaxPackSize < UInt64.size := by decide
        have hofNat : (UInt64.ofNat mapped.length).toNat = mapped.length :=
          UInt64.toNat_ofNat_of_lt' (by omega)
        refine ⟨rfl, ?_⟩
        rw [UInt64.toNat_sub_of_le _ _ (UInt64.le_iff_toNat_le.mpr (by omega)), hofNat]
        omega

/-- A header that is accepted puts its index between the header and the trailer. -/
theorem parsePackHeader_gives {bytes : Bytes} {hashedLength : UInt64} {header : PackHeader}
    (h : parsePackHeader bytes hashedLength = .ok header) :
    kHeaderSize ≤ header.indexOffset ∧ header.indexOffset ≤ hashedLength := by
  unfold parsePackHeader at h
  split at h
  · cases h
  · split at h
    · cases h
    · split at h
      · cases h
      · split at h
        · cases h
        · dsimp only at h
          split at h
          · cases h
          · split at h
            · cases h
            · split at h
              · cases h
              · next hinside =>
                  rw [Bool.or_eq_true, not_or, decide_eq_true_eq, decide_eq_true_eq,
                    UInt64.not_lt, UInt64.not_lt] at hinside
                  split at h
                  · cases h
                  · split at h
                    · cases h
                    · cases h
                      exact hinside

/-- What a pack that opens is: no difference its checks take has wrapped. -/
structure Opened (file : Bytes) (opened : OpenedPack) : Prop where
  mapping : opened.mapping = file
  hashed : opened.hashedLength.toNat + kTrailerSize.toNat = file.length
  start : kHeaderSize.toNat ≤ opened.header.indexOffset.toNat
  indexLength : (opened.hashedLength - opened.header.indexOffset).toNat +
    opened.header.indexOffset.toNat = opened.hashedLength.toNat

theorem openPack_gives {file : Option Bytes} {opened : OpenedPack} (h : openPack file = .ok opened) :
    ∃ bytes, file = some bytes ∧ Opened bytes opened := by
  unfold openPack at h
  split at h
  · cases h
  · next mapped hmapped =>
      obtain ⟨rfl, htrailer⟩ := openValidatedMapping_gives hmapped
      dsimp only at h
      split at h
      · cases h
      · next header hheader =>
          cases h
          obtain ⟨hstart, hend⟩ := parsePackHeader_gives hheader
          refine ⟨mapped, rfl, rfl, htrailer, UInt64.le_iff_toNat_le.mp hstart, ?_⟩
          rw [UInt64.toNat_sub_of_le _ _ hend]
          exact Nat.sub_add_cancel (UInt64.le_iff_toNat_le.mp hend)

/-- An index that is accepted: its paths valid and distinct, its blobs within the data section, each
    of as many bytes as its entry says. -/
structure Accepted (file : Bytes) (opened : OpenedPack) (index : List PackEntry) : Prop where
  opens : Opened file opened
  within : IndexWithin opened.header.indexOffset index
  blobs : ∀ entry ∈ index, (blobBytes file entry).length = entry.size.toNat

theorem accepted_of_parse {file : Bytes} {opened : OpenedPack} {index : List PackEntry}
    (hopen : openPack (some file) = .ok opened) (h : parsePackIndexOf opened = .ok index) :
    Accepted file opened index := by
  obtain ⟨bytes, hbytes, hopened⟩ := openPack_gives hopen
  cases hbytes
  have hempty : IndexWithin opened.header.indexOffset [] :=
    ⟨fun _ hmem => (nomatch hmem), List.nodup_nil, fun _ hmem => (nomatch hmem)⟩
  have hwithin := parseEntries_gives _ hempty h
  refine ⟨hopened, hwithin, fun entry hmem => ?_⟩
  obtain ⟨-, hend⟩ := hwithin.inside entry hmem
  have hhashed := hopened.hashed
  have hindex := hopened.indexLength
  rw [blobBytes, List.length_take, List.length_drop]
  omega

theorem load_gives {crypto : Crypto} {file : Bytes} {publicKey : Ed25519PublicKey} {pack : Pack}
    (h : load crypto (some file) publicKey = .ok pack) : ∃ opened,
      openPack (some file) = .ok opened ∧ parsePackIndexOf opened = .ok pack.index ∧
        pack.mapping = opened.mapping := by
  unfold load at h
  split at h
  · cases h
  · next opened hopened =>
      dsimp only at h
      split at h
      · cases h
      · split at h
        · cases h
        · split at h
          · cases h
          · next index hindex =>
              cases h
              exact ⟨opened, hopened, hindex, rfl⟩

/-- CORRECT: a pack that is written loads with its entries, hashes and data as they were; what any
    file loads with stays in its data section, and none of the checks' differences wraps. -/
theorem pack_law (crypto : Crypto) (keys : Ed25519KeyPair)
    (hpair : ∀ hash, crypto.verify (crypto.sign hash keys.privateKey) hash keys.publicKey = true)
    {taken : Bool} {entries : List AssetEntry} {clientPack : Option PackHash} {hash : PackHash}
    {file : Bytes}
    (hwritten : writePack crypto taken entries keys.privateKey clientPack = .ok (hash, file)) :
    (∃ pack, load crypto (some file) keys.publicKey = .ok pack ∧ pack.hash = hash ∧
      pack.clientPack = clientPack ∧
      pack.index.map (fun entry => (entry.type, entry.path, blobBytes pack.mapping entry)) =
        entries.map fun entry => (entry.type, entry.path, entry.data)) ∧
    (∀ other publicKey pack, load crypto (some other) publicKey = .ok pack →
      ∃ opened, openPack (some other) = .ok opened ∧ parsePackIndexOf opened = .ok pack.index ∧
        pack.mapping = other ∧ Accepted other opened pack.index) ∧
    (∀ other opened index, openPack (some other) = .ok opened →
      parsePackIndexOf opened = .ok index → Accepted other opened index) ∧
    (∀ other mapped, openValidatedMapping (some other) = .ok mapped →
      (UInt64.ofNat mapped.length - kTrailerSize).toNat + kTrailerSize.toNat = mapped.length) ∧
    ∀ offset size dataEnd : UInt64, leavesDataSection offset size dataEnd = false ↔
      kHeaderSize.toNat ≤ offset.toNat ∧ offset.toNat + size.toNat ≤ dataEnd.toNat := by
  refine ⟨?_, ?_, fun _ _ _ => accepted_of_parse, fun _ _ h => (openValidatedMapping_gives h).2,
    fun _ _ _ => leavesDataSection_eq_false⟩
  · simp only [writePack, Except.bind_eq_ok] at hwritten
    obtain ⟨⟨⟩, hvalid, sections, hsections, written, hfile, hwritten⟩ := hwritten
    cases hwritten
    have hfile : file = fileOf sections (signPack crypto sections keys.privateKey) := by
      unfold writePackFile at hfile
      split at hfile
      · cases hfile
        rfl
      · cases hfile
    obtain ⟨index, -, hdata, -, hheader, hsize⟩ := buildPackSections_eq_ok hsections
    have hlength : sections.header.length = kHeaderSize.toNat := by
      rw [hheader, length_writeHeader]
    have hmax : kMaxPackSize < UInt64.size := by decide
    subst hfile
    refine ⟨_, load_fileOf hpair hvalid hsections, rfl, rfl, ?_⟩
    refine blobBytes_indexFrom entries kHeaderSize.toNat (sections.indexSection ++
      ((signPack crypto sections keys.privateKey).hash.1 ++
        (signPack crypto sections keys.privateKey).signature.1)) ?_ ?_
    · rw [fileOf, List.append_assoc, List.append_assoc, List.drop_left' hlength, hdata]
    · rw [← hdata]
      omega
  · intro other publicKey pack h
    obtain ⟨opened, hopened, hindex, hmapping⟩ := load_gives h
    have haccepted := accepted_of_parse hopened hindex
    exact ⟨opened, hopened, hindex, hmapping.trans haccepted.opens.mapping, haccepted⟩

/-- A server pack of an eye's blob and an empty script. -/
def eyeEntries : List AssetEntry :=
  [{ type := .eye, path := "soldier/Character/Eye".toUTF8.toList, data := [1, 2, 3] },
    { type := .script, path := "behaviour.lua".toUTF8.toList, data := [] }]

def eyeKeys : Ed25519KeyPair where
  publicKey :=
    ⟨Lib.bigEndian 32 0xD75A980182B10AB7D54BFED3C964073A0EE172F3DAA62325AF021A68F707511A,
      Lib.length_bigEndian _ _⟩
  privateKey :=
    ⟨Lib.bigEndian 32 0x9D61B19DEFFD5A60BA844AF492EC2CC44449C5697B326919703BAC031CAE7F60 ++
      Lib.bigEndian 32 0xD75A980182B10AB7D54BFED3C964073A0EE172F3DAA62325AF021A68F707511A, rfl⟩

def eyeHash : PackHash :=
  ⟨Lib.bigEndian 32 0x84E59D9487EF5AB709871766970062C7499E463739EAE9E7D5E611E62A18F40F,
    Lib.length_bigEndian _ _⟩

def eyeSignature : Ed25519Signature :=
  ⟨Lib.bigEndian 32 0x3ED5EE90432ED844F7CC86FD68F88B6A171EEF648C583B491DE80D4743EE558B ++
    Lib.bigEndian 32 0x26651A7EC36A0AD4589221B46A91ACF2437FF43A35856E0BA0067E4C067CD10A, rfl⟩

/-- BLAKE3 and Ed25519 as they are of that pack and those keys. -/
def eyeCrypto : Crypto where
  hash _ := eyeHash
  sign _ _ := eyeSignature
  verify signature _ key := signature = eyeSignature && key = eyeKeys.publicKey

theorem pack_law_eye : ∃ file pack,
    writePack eyeCrypto true eyeEntries eyeKeys.privateKey none = .ok (eyeHash, file) ∧
      load eyeCrypto (some file) eyeKeys.publicKey = .ok pack ∧ pack.hash = eyeHash ∧
      pack.index.map (fun entry => (entry.type, entry.path, blobBytes pack.mapping entry)) =
        eyeEntries.map fun entry => (entry.type, entry.path, entry.data) := by
  have hsome : (writePack eyeCrypto true eyeEntries eyeKeys.privateKey none).toOption.map (·.1) =
      some eyeHash := by decide +kernel
  rcases hwritten : writePack eyeCrypto true eyeEntries eyeKeys.privateKey none with
    error | ⟨hash, file⟩
  · rw [hwritten] at hsome
    cases hsome
  · rw [hwritten] at hsome
    cases hsome
    obtain ⟨⟨pack, hload, hhash, -, hindex⟩, -⟩ :=
      pack_law eyeCrypto eyeKeys (fun _ => by simp [eyeCrypto]) hwritten
    exact ⟨file, pack, rfl, hload, hhash, hindex⟩

end Augusta.Assets
