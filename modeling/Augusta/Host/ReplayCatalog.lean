import Augusta.Host.ReplayRun

/-! `augusta::host::ReplayCatalog`: which captures of its directory a replay server replays.

      directory ── entries ──▶ the .acap files, by name ── list ──▶ listings ── listedOf ──▶ Replay list
                                     │
      read :  name ↦ size, written, listing      kept from one list to the next

    A file's name is its bytes; its times are the file system's own. -/

namespace Augusta.Capture

/-- ".acap" -/
def kExtension : Protocol.Text := [46, 97, 99, 97, 112]

end Augusta.Capture

namespace Augusta.Host
open Lib (Table)
open Lib.Protobuf (Bytes)
open Protocol (Text)
open Capture (MatchCapture PackHash)

/-- What a capture must have been made on. -/
structure ReplayTerms where
  serverPack : PackHash
  tickRateHz : UInt8
  characters : List String

/-- One capture, as a Replay list names it. -/
structure ReplayListing where
  name : Text
  started : ℤ
  ticks : UInt32
  tickRateHz : UInt8
  characters : List String
  deriving DecidableEq

/-- `ListingOf`: none if it is not replayed on `terms`. -/
def listingOf (name : Text) (capture : MatchCapture) (terms : ReplayTerms) : Option ReplayListing :=
  if capture.header.serverPack ≠ terms.serverPack ∨
      capture.header.tickRateHz ≠ terms.tickRateHz then none
  else if !capture.joins.all fun join => terms.characters.contains join.character then none
  else if capture.joins.isEmpty then none
  else some {
    name
    started := capture.header.started
    -- offsets count from 0, so the last tick's is one short of the length
    ticks := (capture.events.getLast?.map (·.offset)).getD 0 + 1
    tickRateHz := capture.header.tickRateHz
    characters := capture.joins.map (·.character) }

/-! ### The directory -/

/-- A file as the directory has it when it is looked at. -/
structure FileEntry where
  name : Text
  isRegularFile : Bool
  size : ℕ
  /-- None if the file system could not tell. -/
  written : Option ℤ
  contents : Capture.Stream

/-- What a directory has, no two of one name. -/
structure Directory where
  files : List FileEntry
  nodup : (files.map FileEntry.name).Nodup

/-- `path::extension`, of a file name: none begins one. -/
def extensionOf (name : Text) : Text :=
  match name.reverse.findIdx? (· = 46) with
  | none => []
  | some after =>
      if name = [46, 46] ∨ after + 1 = name.length then [] else name.drop (name.length - after - 1)

/-- `Entries`. -/
def Directory.entries (directory : Directory) : List FileEntry :=
  (directory.files.filter fun file =>
    file.isRegularFile && decide (extensionOf file.name = Capture.kExtension)).insertionSort
      fun a b => a.name ≤ b.name

/-! ### Listing and finding -/

/-- `ReplayCatalog::Read`. -/
structure CatalogRead where
  size : ℕ
  written : ℤ
  listing : Option ReplayListing

structure ReplayCatalog where
  terms : ReplayTerms
  read : Table Text CatalogRead := ∅

section
variable (parse : Bytes → Option Protocol.Pb.CaptureRecord)

def readCaptureAt (file : FileEntry) : Option MatchCapture :=
  (Capture.readCapture parse file.contents).toOption

/-- A file's listing, read afresh. -/
def freshListing (terms : ReplayTerms) (file : FileEntry) : Option ReplayListing :=
  (readCaptureAt parse file).bind fun capture => listingOf file.name capture terms

namespace ReplayCatalog
variable (catalog : ReplayCatalog)

/-- What was read of a file that has not changed since, else what is read of it now. -/
def readOf (file : FileEntry) : Option ReplayListing :=
  match file.written, catalog.read.lookup file.name with
  | some written, some known =>
      if known.size = file.size ∧ known.written = written then known.listing
      else freshListing parse catalog.terms file
  | _, _ => freshListing parse catalog.terms file

/-- One entry of `List`'s loop. -/
def visit (looked : List ReplayListing × Table Text CatalogRead) (file : FileEntry) :
    List ReplayListing × Table Text CatalogRead :=
  let listing := catalog.readOf parse file
  (looked.1 ++ listing.toList,
    match file.written with
    -- it is read afresh next time
    | none => looked.2
    | some written => looked.2.emplace file.name ⟨file.size, written, listing⟩)

def list (directory : Directory) : List ReplayListing × ReplayCatalog :=
  let looked := directory.entries.foldl (catalog.visit parse) ([], ∅)
  (looked.1, { catalog with read := looked.2 })

def find (directory : Directory) (name : Text) : Option MatchCapture :=
  match directory.entries.find? fun file => decide (file.name = name) with
  | none => none
  | some file =>
      (readCaptureAt parse file).filter fun capture =>
        (listingOf file.name capture catalog.terms).isSome

/-- The lists asked for one after the other, each of the directory as it then was. -/
def lists : ReplayCatalog → List Directory → List (List ReplayListing)
  | _, [] => []
  | catalog, directory :: rest =>
      (catalog.list parse directory).1 :: lists (catalog.list parse directory).2 rest

end ReplayCatalog
end

/-! ### The Replay list -/

def kMaxReplayListings : ℕ := 255

def kMaxCaptureNameLength : ℕ := 64

/-- A name a Replay request can carry. -/
def canBeAskedFor (listing : ReplayListing) : Bool :=
  decide (listing.name.length ≤ kMaxCaptureNameLength) && Link.isUtf8 listing.name

/-- The loop of `ListedOf`, over the listings from the newest. -/
def listNewest : List ReplayListing → List ReplayListing → List ReplayListing
  | listed, [] => listed
  | listed, listing :: older =>
      if listed.length = kMaxReplayListings then listed
      else if canBeAskedFor listing then listNewest (listed ++ [listing]) older
      else listNewest listed older

/-- `ListedOf`: the newest a Replay list can name. -/
def listedOf (listings : List ReplayListing) : List ReplayListing :=
  (listNewest [] listings.reverse).reverse

/-! ### What is kept of a file -/

section
variable {parse : Bytes → Option Protocol.Pb.CaptureRecord} {catalog : ReplayCatalog}

theorem name_of_listingOf {name : Text} {capture : MatchCapture} {terms : ReplayTerms}
    {listing : ReplayListing} (h : listingOf name capture terms = some listing) :
    listing.name = name := by
  rw [listingOf] at h
  split_ifs at h
  cases h
  rfl

theorem name_of_freshListing {terms : ReplayTerms} {file : FileEntry} {listing : ReplayListing}
    (h : freshListing parse terms file = some listing) : listing.name = file.name := by
  obtain ⟨capture, -, hlisting⟩ := Option.bind_eq_some_iff.mp h
  exact name_of_listingOf hlisting

/-- A file's name, size and last write tell what it holds. -/
def ToldApart (files : List FileEntry) : Prop :=
  ∀ a ∈ files, ∀ b ∈ files, a.name = b.name → a.size = b.size → a.written = b.written →
    a.written ≠ none → a.contents = b.contents

/-- What is kept was read of a file looked at. -/
def ReadOf (parse : Bytes → Option Protocol.Pb.CaptureRecord) (terms : ReplayTerms)
    (files : List FileEntry) (read : Table Text CatalogRead) : Prop :=
  ∀ name known, read.lookup name = some known → ∃ file ∈ files,
    file.name = name ∧ file.size = known.size ∧ file.written = some known.written ∧
      freshListing parse terms file = known.listing

/-- What is kept of a file is what reading it now would give. -/
theorem readOf_eq {files : List FileEntry} (htold : ToldApart files)
    (hread : ReadOf parse catalog.terms files catalog.read) {file : FileEntry}
    (hfile : file ∈ files) : catalog.readOf parse file = freshListing parse catalog.terms file := by
  rw [ReplayCatalog.readOf]
  cases hwritten : file.written with
  | none => rfl
  | some written =>
      cases hknown : catalog.read.lookup file.name with
      | none => rfl
      | some known =>
          simp only
          split_ifs with hsame
          · obtain ⟨hsize, rfl⟩ := hsame
            obtain ⟨seen, hseen, hname, hsize', hwritten', hlisting⟩ := hread _ _ hknown
            have hcontents := htold seen hseen file hfile hname (hsize'.trans hsize)
              (hwritten'.trans hwritten.symm) (by simp [hwritten'])
            rw [← hlisting, freshListing, freshListing, readCaptureAt, readCaptureAt, hcontents,
              hname]
          · rfl

/-- The loop of a list: each file's listing, if it has one, and what is kept of it. -/
theorem foldl_visit {files : List FileEntry} (htold : ToldApart files)
    (hread : ReadOf parse catalog.terms files catalog.read) (visited : List FileEntry)
    (hvisited : ∀ file ∈ visited, file ∈ files) (looked : List ReplayListing × Table Text CatalogRead)
    (hlooked : ReadOf parse catalog.terms files looked.2) :
    (visited.foldl (catalog.visit parse) looked).1 =
        looked.1 ++ visited.filterMap (freshListing parse catalog.terms) ∧
      ReadOf parse catalog.terms files (visited.foldl (catalog.visit parse) looked).2 := by
  induction visited generalizing looked with
  | nil => exact ⟨by simp, hlooked⟩
  | cons file rest ih =>
      have hfile := hvisited file List.mem_cons_self
      have hlisting := readOf_eq htold hread hfile
      have hkept : ReadOf parse catalog.terms files (catalog.visit parse looked file).2 := by
        intro name known hknown
        simp only [ReplayCatalog.visit] at hknown
        cases hwritten : file.written with
        | none =>
            rw [hwritten] at hknown
            exact hlooked name known hknown
        | some written =>
            rw [hwritten] at hknown
            simp only [AList.emplace] at hknown
            split_ifs at hknown with hin
            · exact hlooked name known hknown
            · rw [AList.lookup_insert_eq] at hknown
              split_ifs at hknown with hname
              · cases hknown
                exact ⟨file, hfile, hname.symm, rfl, hwritten, hlisting.symm⟩
              · exact hlooked name known hknown
      obtain ⟨hlists, hreads⟩ := ih (fun later hlater => hvisited later (List.mem_cons_of_mem _ hlater))
        _ hkept
      refine ⟨?_, hreads⟩
      rw [List.foldl_cons, hlists, ReplayCatalog.visit, hlisting, List.filterMap_cons]
      cases freshListing parse catalog.terms file <;> simp

theorem mem_files_of_mem_entries {directory : Directory} {file : FileEntry}
    (h : file ∈ directory.entries) : file ∈ directory.files := by
  rw [Directory.entries, List.mem_insertionSort] at h
  exact List.mem_of_mem_filter h

/-- No two of what a directory lists have one name. -/
theorem nodup_entries (directory : Directory) : (directory.entries.map FileEntry.name).Nodup := by
  refine ((List.perm_insertionSort _ _).map FileEntry.name).nodup_iff.mpr ?_
  exact directory.nodup.sublist (List.filter_sublist.map _)

theorem lists_eq {files : List FileEntry} (htold : ToldApart files) {directories : List Directory}
    (hfiles : ∀ directory ∈ directories, ∀ file ∈ directory.files, file ∈ files)
    (hread : ReadOf parse catalog.terms files catalog.read) :
    catalog.lists parse directories = directories.map fun directory =>
      directory.entries.filterMap (freshListing parse catalog.terms) := by
  induction directories generalizing catalog with
  | nil => rfl
  | cons directory rest ih =>
      have hlooked : ReadOf parse catalog.terms files ∅ := by
        intro name known hknown
        cases hknown
      obtain ⟨hlist, hkept⟩ := foldl_visit htold hread directory.entries
        (fun file hfile => hfiles directory List.mem_cons_self file (mem_files_of_mem_entries hfile))
        ([], ∅) hlooked
      rw [ReplayCatalog.lists, List.map_cons, ReplayCatalog.list, hlist, List.nil_append]
      congr 1
      exact @ih { catalog with read := (directory.entries.foldl (catalog.visit parse) ([], ∅)).2 }
        (fun later hlater => hfiles later (List.mem_cons_of_mem _ hlater)) hkept

/-- By name, the least first. -/
theorem sorted_entries (directory : Directory) :
    (directory.entries.map FileEntry.name).Pairwise (· < ·) := by
  have hle : (directory.entries.map FileEntry.name).Pairwise (· ≤ ·) := by
    rw [List.pairwise_map]
    exact List.pairwise_insertionSort _ _
  exact (hle.and (nodup_entries directory)).imp fun h => Std.lt_of_le_of_ne h.1 h.2

/-- What is listed keeps the order of its files. -/
theorem names_sublist (terms : ReplayTerms) (files : List FileEntry) :
    ((files.filterMap (freshListing parse terms)).map (·.name)).Sublist
      (files.map FileEntry.name) := by
  induction files with
  | nil => exact List.Sublist.slnil
  | cons file rest ih =>
      cases hlisting : freshListing parse terms file with
      | none =>
          rw [List.filterMap_cons_none hlisting, List.map_cons]
          exact ih.cons _
      | some listing =>
          rw [List.filterMap_cons_some hlisting, List.map_cons, List.map_cons,
            name_of_freshListing hlisting]
          exact ih.cons_cons _

/-! ### What is found -/

theorem find_eq_some {directory : Directory} {name : Text} {capture : MatchCapture} :
    catalog.find parse directory name = some capture ↔ ∃ file ∈ directory.entries,
      file.name = name ∧ readCaptureAt parse file = some capture ∧
        (listingOf file.name capture catalog.terms).isSome = true := by
  rw [ReplayCatalog.find]
  constructor
  · intro h
    cases hfile : directory.entries.find? fun file => decide (file.name = name) with
    | none =>
        rw [hfile] at h
        cases h
    | some file =>
        rw [hfile] at h
        obtain ⟨hread, hlisting⟩ := Option.filter_eq_some_iff.mp h
        exact ⟨file, List.mem_of_find?_eq_some hfile, by simpa using List.find?_some hfile, hread,
          hlisting⟩
  · rintro ⟨file, hfile, rfl, hread, hlisting⟩
    have hfound : directory.entries.find? (fun other => decide (other.name = file.name)) =
        some file := by
      cases hother : directory.entries.find? fun other => decide (other.name = file.name) with
      | none => exact absurd (decide_eq_true rfl) (List.find?_eq_none.mp hother file hfile)
      | some other =>
          have hname : other.name = file.name := by simpa using List.find?_some hother
          have hsame := List.inj_on_of_nodup_map (nodup_entries directory)
            (List.mem_of_find?_eq_some hother) hfile hname
          rw [hsame]
    rw [hfound]
    exact Option.filter_eq_some_iff.mpr ⟨hread, hlisting⟩

/-- What is found was read, and its players' Characters are those of the terms. -/
theorem known_of_find {directory : Directory} {name : Text} {capture : MatchCapture}
    (h : catalog.find parse directory name = some capture) :
    (∃ stream, Capture.readCapture parse stream = .ok capture) ∧
      ∀ join ∈ capture.joins, join.character ∈ catalog.terms.characters := by
  obtain ⟨file, -, -, hread, hlisting⟩ := find_eq_some.mp h
  constructor
  · rw [readCaptureAt] at hread
    cases hcontents : Capture.readCapture parse file.contents with
    | error failed =>
        rw [hcontents] at hread
        cases hread
    | ok read =>
        rw [hcontents] at hread
        cases hread
        exact ⟨file.contents, hcontents⟩
  · intro join hjoin
    rw [listingOf] at hlisting
    split_ifs at hlisting with hterms hall hempty
    all_goals simp at hlisting
    simp only [Bool.not_eq_true', Bool.not_eq_false, List.all_eq_true] at hall
    exact List.contains_iff_mem.mp (hall join hjoin)

theorem find_isSome {directory : Directory} {name : Text} :
    (catalog.find parse directory name).isSome = true ↔
      name ∈ (directory.entries.filterMap (freshListing parse catalog.terms)).map (·.name) := by
  rw [Option.isSome_iff_exists]
  simp only [find_eq_some, List.mem_map, List.mem_filterMap]
  constructor
  · rintro ⟨capture, file, hfile, rfl, hread, hlisting⟩
    obtain ⟨listing, hlisting⟩ := Option.isSome_iff_exists.mp hlisting
    exact ⟨listing, ⟨file, hfile, Option.bind_eq_some_iff.mpr ⟨capture, hread, hlisting⟩⟩,
      name_of_listingOf hlisting⟩
  · rintro ⟨listing, ⟨file, hfile, hfresh⟩, rfl⟩
    obtain ⟨capture, hread, hlisting⟩ := Option.bind_eq_some_iff.mp hfresh
    exact ⟨capture, file, hfile, (name_of_listingOf hlisting).symm, hread,
      Option.isSome_iff_exists.mpr ⟨listing, hlisting⟩⟩

end

/-! ### What a Replay list names -/

theorem listNewest_eq {listed older : List ReplayListing} (h : listed.length ≤ kMaxReplayListings) :
    listNewest listed older =
      listed ++ (older.filter canBeAskedFor).take (kMaxReplayListings - listed.length) := by
  induction older generalizing listed with
  | nil => simp [listNewest]
  | cons listing older ih =>
      rw [listNewest]
      split_ifs with hfull hasked
      · simp [hfull]
      · obtain ⟨room, hroom⟩ : ∃ room, kMaxReplayListings - listed.length = room + 1 :=
          ⟨kMaxReplayListings - listed.length - 1, by omega⟩
        rw [ih (by simp only [List.length_append, List.length_singleton]; omega),
          List.filter_cons_of_pos hasked, hroom, List.take_succ_cons, List.length_append,
          List.length_singleton, ← Nat.sub_sub, hroom, Nat.add_sub_cancel, List.append_assoc]
        rfl
      · rw [ih h, List.filter_cons_of_neg hasked]

theorem listedOf_eq (listings : List ReplayListing) :
    listedOf listings = (listings.filter canBeAskedFor).drop
      ((listings.filter canBeAskedFor).length - kMaxReplayListings) := by
  rw [listedOf, listNewest_eq (Nat.zero_le _), List.nil_append, List.filter_reverse,
    List.length_nil, Nat.sub_zero, List.take_reverse, List.reverse_reverse]

/-- CORRECT: lists asked for one after the other, the directory whatever it then is, each name what
    reading every file afresh would, as long as a file's name, size and last write tell what it
    holds; a name is found if it is listed; and a Replay list names the newest of those that can be
    asked for. -/
theorem catalog_law (parse : Bytes → Option Protocol.Pb.CaptureRecord) (terms : ReplayTerms)
    (directories : List Directory)
    (htold : ToldApart (directories.flatMap fun directory => directory.files)) :
    ({ terms } : ReplayCatalog).lists parse directories =
        directories.map (fun directory =>
          directory.entries.filterMap (freshListing parse terms)) ∧
    ∀ directory : Directory,
      let listings := directory.entries.filterMap (freshListing parse terms)
      (listings.map (·.name)).Pairwise (· < ·) ∧
      (∀ (read : Table Text CatalogRead) (name : Text),
        ((⟨terms, read⟩ : ReplayCatalog).find parse directory name).isSome = true ↔
          name ∈ listings.map (·.name)) ∧
      listedOf listings = (listings.filter canBeAskedFor).drop
        ((listings.filter canBeAskedFor).length - kMaxReplayListings) := by
  refine ⟨lists_eq htold (fun directory hdirectory file hfile =>
    List.mem_flatMap.mpr ⟨directory, hdirectory, hfile⟩) (fun name known hknown => ?_),
    fun directory => ⟨?_, fun read name => find_isSome, listedOf_eq _⟩⟩
  · cases hknown
  · exact (sorted_entries directory).sublist (names_sublist terms _)

/-! A capture, listed twice before it is cut short. -/

/-- "a.acap" -/
def captureName : Text := [97, 46, 97, 99, 97, 112]

def wholeFile : FileEntry := ⟨captureName, true, 7, some 1, Replay.numberedStream⟩

def cutFile : FileEntry := ⟨captureName, true, 2, some 2, { rest := [65, 85] }⟩

def oneFile (file : FileEntry) : Directory := ⟨[file], List.nodup_singleton _⟩

def plainTerms : ReplayTerms := ⟨Vector.replicate 32 0, 0, [""]⟩

theorem catalog_law_cut :
    (({ terms := plainTerms } : ReplayCatalog).lists Replay.parseNumbered
        [oneFile wholeFile, oneFile wholeFile, oneFile cutFile]).map (·.map (·.ticks)) =
      [[4], [4], []] := by
  rw [(catalog_law Replay.parseNumbered plainTerms
    [oneFile wholeFile, oneFile wholeFile, oneFile cutFile] ?_).1]
  · rfl
  · intro a ha b hb _ hsize _ _
    simp only [oneFile, List.flatMap_cons, List.flatMap_nil, List.cons_append, List.nil_append,
      List.mem_cons, List.not_mem_nil, or_false] at ha hb
    rcases ha with rfl | rfl | rfl <;> rcases hb with rfl | rfl | rfl <;>
      first | rfl | (simp [wholeFile, cutFile] at hsize)

end Augusta.Host
