import Augusta.Host.RetentionLaw
import Mathlib.Data.List.Perm.Basic

/-! A capture directory over a server's run: each Match's Open and Reserves, and what the disk holds.

      Open    scan ─▶ make room ─▶ the file created, its first bytes written
      Reserve         make room ─▶ more bytes written to it

    A capture the disk would not delete stays, and is out of the account until the next Open. -/

namespace Augusta.Host

inductive RetentionOp
  /-- What the disk then holds, the file to create and its first bytes, how many of these the disk
      takes, and which captures it lets be deleted. -/
  | open_ (entries : List DirectoryEntry) (fileName : String) (bytes written : UInt64)
      (deletes : String → Bool)
  | reserve (bytes written : UInt64) (deletes : String → Bool)

structure RetentionRun where
  directory : CaptureDirectory
  entries : List DirectoryEntry := []
  /-- The file of the capture open. -/
  fileName : String := ""
  /-- The captures the disk has not let be deleted since the last Open. -/
  stuck : List String := []

/-- The entries left once those of `deleted` the disk lets go are gone. -/
def survivors (entries : List DirectoryEntry) (deleted : List CompletedCapture)
    (deletes : String → Bool) : List DirectoryEntry :=
  entries.filter fun entry => !(deleted.any fun capture =>
    capture.name = entry.name && deletes entry.name)

def stuckOf (deleted : List CompletedCapture) (deletes : String → Bool) : List String :=
  (deleted.map (·.name)).filter fun name => !deletes name

/-- A step, and whether it succeeds. -/
def RetentionRun.step (run : RetentionRun) : RetentionOp → RetentionRun × Bool
  | .open_ entries fileName bytes written deletes =>
      let (created, deleted, directory) := run.directory.open_ entries fileName bytes
      let left := survivors entries deleted deletes
      ({ directory, fileName
         entries := if created then
            (left.filter fun entry => entry.name ≠ fileName) ++ [{ name := fileName, size := written }]
          else left
         stuck := stuckOf deleted deletes }, created)
  | .reserve bytes written deletes =>
      let (reserved, deleted, directory) := run.directory.reserve bytes
      let left := survivors run.entries deleted deletes
      ({ run with
         directory
         entries := if reserved then left.map fun entry =>
            if entry.name = run.fileName then { entry with size := entry.size + written } else entry
          else left
         stuck := run.stuck ++ stuckOf deleted deletes }, reserved)

/-- What a directory is asked: names of its own for its entries, no more written than asked for, and
    fewer than 2⁶⁴ bytes in all. -/
def RetentionRun.Legal (run : RetentionRun) : RetentionOp → Prop
  | .open_ entries fileName bytes written _ =>
      (entries.map (·.name)).Nodup ∧ written ≤ bytes ∧
        sizes (scan entries fileName) + bytes.toNat < 2 ^ 64
  | .reserve bytes written _ =>
      run.directory.isOpen = true ∧ written ≤ bytes ∧
        run.directory.total.toNat + bytes.toNat < 2 ^ 64

/-- The runs of a directory. -/
inductive Manages (retention : CaptureRetention) : RetentionRun → Prop
  | start : Manages retention { directory := { retention } }
  | step {run : RetentionRun} {op : RetentionOp} :
      Manages retention run → run.Legal op → Manages retention (run.step op).1

/-- The captures on the disk, but those it did not let be deleted. -/
def RetentionRun.counted (run : RetentionRun) : List DirectoryEntry :=
  run.entries.filter fun entry => entry.isCapture && entry.name ∉ run.stuck

/-- What a directory that managed it keeps within. -/
structure WithinLimits (retention : CaptureRetention) (entries : List DirectoryEntry) : Prop where
  files : ∀ maxFiles ∈ retention.maxFiles, entries.length ≤ maxFiles
  bytes : ∀ maxBytes ∈ retention.maxBytes,
    (entries.map (·.size.toNat)).sum ≤ maxBytes.toNat

/-! ### What a deletion leaves on the disk -/

def DirectoryEntry.completed (entry : DirectoryEntry) : CompletedCapture := ⟨entry.name, entry.size⟩

/-- The captures that are not `fileName`'s, and not stuck. -/
def others (entries : List DirectoryEntry) (fileName : String) (stuck : List String) :
    List CompletedCapture :=
  (entries.filter fun entry =>
    entry.name ≠ fileName && entry.isCapture && entry.name ∉ stuck).map (·.completed)

theorem names_others_sublist (entries : List DirectoryEntry) (fileName : String)
    (stuck : List String) :
    ((others entries fileName stuck).map (·.name)).Sublist (entries.map (·.name)) := by
  rw [others, List.map_map]
  exact List.filter_sublist.map _

/-- What a scan finds is what is there. -/
theorem scan_perm (entries : List DirectoryEntry) (fileName : String) :
    (scan entries fileName).Perm (others entries fileName []) := by
  refine (List.perm_insertionSort _ _).trans (List.Perm.of_eq ?_)
  rw [others]
  refine congrArg (List.map _) (List.filter_congr fun entry _ => ?_)
  simp

/-- A capture named for deletion is gone or stuck; any other is as it was. -/
theorem others_survivors (entries : List DirectoryEntry) (fileName : String) (stuck : List String)
    (deleted : List CompletedCapture) (deletes : String → Bool) :
    others (survivors entries deleted deletes) fileName (stuck ++ stuckOf deleted deletes) =
      (others entries fileName stuck).filter fun capture =>
        capture.name ∉ deleted.map (·.name) := by
  rw [others, others, survivors, List.filter_filter, List.filter_map, List.filter_filter]
  refine congrArg (List.map _) (List.filter_congr fun entry _ => ?_)
  by_cases hnamed : entry.name ∈ deleted.map (·.name)
  · -- named: gone if the disk lets it go, else stuck
    have hstuck : entry.name ∈ stuckOf deleted deletes ↔ deletes entry.name = false := by
      simp only [stuckOf, List.mem_filter, hnamed, true_and, Bool.not_eq_true']
    have hany : (deleted.any fun capture => capture.name = entry.name && deletes entry.name) =
        deletes entry.name := by
      obtain ⟨capture, hmem, hname⟩ := List.mem_map.mp hnamed
      rw [Bool.eq_iff_iff, List.any_eq_true]
      constructor
      · rintro ⟨_, -, hboth⟩
        exact (Bool.and_eq_true_iff.mp hboth).2
      · intro hdeletes
        exact ⟨capture, hmem, by simp [hname, hdeletes]⟩
    simp only [Function.comp_apply, DirectoryEntry.completed, hany, hnamed, List.mem_append, hstuck]
    cases deletes entry.name <;> simp
  · have hstuck : entry.name ∉ stuckOf deleted deletes := fun h =>
      hnamed (List.mem_filter.mp h).1
    have hany : (deleted.any fun capture => capture.name = entry.name && deletes entry.name) =
        false := by
      rw [Bool.eq_false_iff, Ne, List.any_eq_true]
      rintro ⟨capture, hmem, hboth⟩
      exact hnamed (List.mem_map.mpr
        ⟨capture, hmem, of_decide_eq_true (Bool.and_eq_true_iff.mp hboth).1⟩)
    simp only [Function.comp_apply, DirectoryEntry.completed, hany, hnamed, List.mem_append, hstuck]
    simp

/-- Of captures of different names, those not named in a prefix are the rest. -/
theorem filter_named {deleted left : List CompletedCapture}
    (h : ((deleted ++ left).map (·.name)).Nodup) :
    ((deleted ++ left).filter fun capture => capture.name ∉ deleted.map (·.name)) = left := by
  rw [List.map_append, List.nodup_append] at h
  rw [List.filter_append, List.filter_eq_nil_iff.mpr, List.filter_eq_self.mpr, List.nil_append]
  · intro capture hmem
    refine decide_eq_true fun hnamed => ?_
    exact h.2.2 _ hnamed _ (List.mem_map_of_mem hmem) rfl
  · intro capture hmem hout
    exact of_decide_eq_true hout (List.mem_map_of_mem hmem)

/-- After a deletion, the captures of the account are those it leaves. -/
theorem others_left {entries : List DirectoryEntry} {fileName : String} {stuck : List String}
    {deleted left : List CompletedCapture} (hnodup : (entries.map (·.name)).Nodup)
    (h : (others entries fileName stuck).Perm (deleted ++ left)) (deletes : String → Bool) :
    (others (survivors entries deleted deletes) fileName
      (stuck ++ stuckOf deleted deletes)).Perm left := by
  have hnames : ((deleted ++ left).map (·.name)).Nodup :=
    (h.map _).nodup_iff.mp (hnodup.sublist (names_others_sublist entries fileName stuck))
  rw [others_survivors]
  exact (h.filter _).trans (List.Perm.of_eq (filter_named hnames))

/-- Creating the file changes no other. -/
theorem others_created (entries : List DirectoryEntry) (fileName : String) (stuck : List String)
    (size : UInt64) :
    others ((entries.filter fun entry => entry.name ≠ fileName) ++ [{ name := fileName, size }])
      fileName stuck = others entries fileName stuck := by
  have hnot : (decide (fileName ≠ fileName)) = false := by simp
  rw [others, List.filter_append, List.filter_filter, List.filter_singleton, hnot]
  simp only [Bool.false_and, cond_false, List.append_nil]
  refine congrArg (List.map _) (List.filter_congr fun entry _ => ?_)
  cases decide (entry.name ≠ fileName) <;> simp

/-- Writing to the file changes no other. -/
theorem others_written (entries : List DirectoryEntry) (fileName : String) (stuck : List String)
    (written : UInt64) :
    others (entries.map fun entry =>
        if entry.name = fileName then { entry with size := entry.size + written } else entry)
      fileName stuck = others entries fileName stuck := by
  induction entries with
  | nil => rfl
  | cons entry rest ih =>
      rw [others, others] at ih ⊢
      by_cases hname : entry.name = fileName
      · simpa [hname] using ih
      · simp only [List.map_cons, hname, if_false, List.filter_cons]
        split_ifs
        · rw [List.map_cons, List.map_cons, ih]
        · exact ih

/-! ### What every run keeps -/

/-- While a capture is open: the account is of what the disk holds, and the file's bytes are in it. -/
structure RetentionRun.Kept (retention : CaptureRetention) (run : RetentionRun) : Prop where
  nodup : (run.entries.map (·.name)).Nodup
  account : (others run.entries run.fileName run.stuck).Perm run.directory.remaining
  reserved : ∃ reserved,
    run.directory.total.toNat = sizes run.directory.remaining + reserved ∧
      ∀ entry ∈ run.entries, entry.name = run.fileName → entry.size.toNat ≤ reserved
  files : ∀ maxFiles ∈ retention.maxFiles, run.directory.remaining.length + 1 ≤ maxFiles

theorem sizes_perm {captures other : List CompletedCapture} (h : captures.Perm other) :
    sizes captures = sizes other :=
  (h.map _).sum_eq

/-- Of entries of different names, one at most is a given file. -/
theorem file_cases {entries : List DirectoryEntry} (h : (entries.map (·.name)).Nodup)
    (fileName : String) (p : DirectoryEntry → Bool) :
    (entries.filter fun entry => p entry && !decide (entry.name ≠ fileName)) = [] ∨
      ∃ file ∈ entries, file.name = fileName ∧
        (entries.filter fun entry => p entry && !decide (entry.name ≠ fileName)) = [file] := by
  have hmem : ∀ file ∈ entries.filter fun entry => p entry && !decide (entry.name ≠ fileName),
      file ∈ entries ∧ file.name = fileName := by
    intro file hfile
    obtain ⟨hentry, hboth⟩ := List.mem_filter.mp hfile
    exact ⟨hentry, by simpa using (Bool.and_eq_true_iff.mp hboth).2⟩
  have hnames := h.sublist ((List.filter_sublist (l := entries)
    (p := fun entry => p entry && !decide (entry.name ≠ fileName))).map (·.name))
  rcases hlist : entries.filter fun entry => p entry && !decide (entry.name ≠ fileName) with
    _ | ⟨file, _ | ⟨second, rest⟩⟩
  · exact .inl rfl
  · rw [hlist] at hmem
    obtain ⟨hentry, hname⟩ := hmem file (List.mem_singleton_self _)
    exact .inr ⟨file, hentry, hname, rfl⟩
  · rw [hlist] at hmem hnames
    have hfirst := (hmem file (by simp)).2
    have hsecond := (hmem second (by simp)).2
    rw [List.map_cons, List.map_cons, hfirst, hsecond] at hnames
    exact absurd (List.mem_cons_self ..) (List.nodup_cons.mp hnames).1

/-- An account within the limits is of a disk within them. -/
theorem RetentionRun.Kept.within {retention : CaptureRetention} {run : RetentionRun}
    (h : run.Kept retention)
    (hbytes : ∀ maxBytes ∈ retention.maxBytes, run.directory.total.toNat ≤ maxBytes.toNat) :
    WithinLimits retention run.counted := by
  obtain ⟨reserved, htotal, hreserved⟩ := h.reserved
  obtain ⟨rest, hrest⟩ : ∃ rest, rest = run.counted.filter fun entry => entry.name ≠ run.fileName :=
    ⟨_, rfl⟩
  have hothers : (rest.map (·.completed)).Perm run.directory.remaining := by
    refine (List.Perm.of_eq ?_).trans h.account
    rw [hrest, others, RetentionRun.counted, List.filter_filter]
    refine congrArg (List.map _) (List.filter_congr fun entry _ => ?_)
    rw [Bool.and_assoc]
  have hlength : rest.length = run.directory.remaining.length := by
    rw [← hothers.length_eq, List.length_map]
  have hsum : (rest.map (·.size.toNat)).sum = sizes run.directory.remaining := by
    rw [← sizes_perm hothers, sizes, List.map_map]
    rfl
  obtain ⟨file, hperm, hone, hsize⟩ : ∃ file : List DirectoryEntry,
      run.counted.Perm (rest ++ file) ∧ file.length ≤ 1 ∧
        (file.map (·.size.toNat)).sum ≤ reserved := by
    refine ⟨run.counted.filter fun entry => !decide (entry.name ≠ run.fileName), ?_, ?_⟩
    · rw [hrest]
      exact (List.filter_append_perm _ _).symm
    · rw [RetentionRun.counted, List.filter_filter]
      simp only [Bool.and_comm (!decide _)]
      rcases file_cases h.nodup run.fileName
        (fun entry => entry.isCapture && entry.name ∉ run.stuck) with hnil | ⟨file, hmem, hname, hfile⟩
      · rw [hnil]
        exact ⟨Nat.zero_le _, Nat.zero_le _⟩
      · rw [hfile]
        exact ⟨Nat.le_refl _, by simpa using hreserved file hmem hname⟩
  constructor
  · intro maxFiles hmaxFiles
    have hroom := h.files maxFiles hmaxFiles
    rw [hperm.length_eq, List.length_append]
    omega
  · intro maxBytes hmaxBytes
    have hroom := hbytes maxBytes hmaxBytes
    rw [(hperm.map _).sum_eq, List.map_append, List.sum_append]
    omega

section
variable {retention : CaptureRetention} {bytes total : UInt64} {completed : List CompletedCapture}

/-- What making room leaves, and what it is room for. -/
theorem makeRoom_room (hfiles : ∀ maxFiles ∈ retention.maxFiles, 0 < maxFiles) (opening : Bool)
    (completed : List CompletedCapture) (hfew : total.toNat + bytes.toNat < 2 ^ 64) :
    let room := makeRoom retention opening bytes completed total
    room.deleted ++ room.left = completed ∧
      room.total.toNat = total.toNat - sizes room.deleted ∧
      (room.fits = true → opening = true → ∀ maxFiles ∈ retention.maxFiles,
        room.left.length + 1 ≤ maxFiles) ∧
      (room.fits = true → ∀ maxBytes ∈ retention.maxBytes,
        room.total.toNat + bytes.toNat ≤ maxBytes.toNat) := by
  obtain ⟨hdeleted, hleft, htotal, hfits⟩ := makeRoom_deletes hfiles opening completed hfew
  have hplan := isPlan_planRetention hfiles opening completed hfew
  intro room
  simp only [room]
  rw [hdeleted, hleft, htotal, hfits]
  refine ⟨List.take_append_drop _ _, rfl, ?_, ?_⟩
  · intro hfit htrue maxFiles hmaxFiles
    exact (hplan.fits_iff.mp hfit).files htrue maxFiles hmaxFiles
  · intro hfit maxBytes hmaxBytes
    exact (hplan.fits_iff.mp hfit).bytes maxBytes hmaxBytes

/-- The scan's total is the sum of what it found. -/
theorem toNat_foldl_sizes (hfew : total.toNat + sizes completed < 2 ^ 64) :
    (completed.foldl (fun total capture => total + capture.size) total).toNat =
      total.toNat + sizes completed := by
  induction completed generalizing total with
  | nil => rfl
  | cons capture rest ih =>
      rw [sizes_cons] at hfew ⊢
      have hsum : (total + capture.size).toNat = total.toNat + capture.size.toNat := by
        rw [UInt64.toNat_add]
        exact Nat.mod_eq_of_lt (by omega)
      rw [List.foldl_cons, ih (by omega), hsum]
      omega

end

section
variable {retention : CaptureRetention} {run : RetentionRun}

theorem nodup_survivors {entries : List DirectoryEntry} (h : (entries.map (·.name)).Nodup)
    (deleted : List CompletedCapture) (deletes : String → Bool) :
    ((survivors entries deleted deletes).map (·.name)).Nodup :=
  h.sublist (List.filter_sublist.map _)

/-- An Open that succeeds. -/
theorem RetentionRun.kept_open (hretention : run.directory.retention = retention)
    (hfiles : ∀ maxFiles ∈ retention.maxFiles, 0 < maxFiles) {entries : List DirectoryEntry}
    {fileName : String} {bytes written : UInt64} {deletes : String → Bool}
    (hlegal : run.Legal (.open_ entries fileName bytes written deletes))
    (hcreated : (run.step (.open_ entries fileName bytes written deletes)).2 = true) :
    (run.step (.open_ entries fileName bytes written deletes)).1.Kept retention ∧
      ∀ maxBytes ∈ retention.maxBytes,
        (run.step (.open_ entries fileName bytes written deletes)).1.directory.total.toNat ≤
          maxBytes.toNat := by
  obtain ⟨hnodup, hwritten, hfew⟩ := hlegal
  obtain ⟨total, htotal⟩ : ∃ total : UInt64, total =
    (scan entries fileName).foldl (fun total capture => total + capture.size) 0 := ⟨_, rfl⟩
  have hsum : total.toNat = sizes (scan entries fileName) := by
    rw [htotal, toNat_foldl_sizes (by rw [UInt64.toNat_zero]; omega), UInt64.toNat_zero,
      Nat.zero_add]
  obtain ⟨room, hroom⟩ : ∃ room, room =
    makeRoom retention true bytes (scan entries fileName) total := ⟨_, rfl⟩
  obtain ⟨hsplit, hleft, hcount, hbytes⟩ :=
    makeRoom_room hfiles true (scan entries fileName) (hsum ▸ hfew)
  rw [← hroom] at hsplit hleft hcount hbytes
  simp only [RetentionRun.step, CaptureDirectory.open_, CaptureDirectory.makeRoom, hretention,
    ← htotal, ← hroom] at hcreated ⊢
  by_cases hfits : room.fits = true
  · simp only [hfits, if_true]
    have hnames := nodup_survivors hnodup room.deleted deletes
    have haccount := others_left hnodup
      ((scan_perm entries fileName).symm.trans (List.Perm.of_eq hsplit.symm)) deletes
    have hrest : room.total.toNat = sizes room.left := by
      rw [hleft, hsum, ← hsplit, sizes_append]
      omega
    have hend : (room.total + bytes).toNat = sizes room.left + bytes.toNat := by
      rw [UInt64.toNat_add, hrest]
      rw [← hsplit, sizes_append] at hfew
      exact Nat.mod_eq_of_lt (by omega)
    refine ⟨⟨?_, ?_, ⟨bytes.toNat, hend, ?_⟩, hcount hfits rfl⟩, ?_⟩
    · rw [List.map_append]
      refine List.nodup_append.mpr ⟨hnames.sublist (List.filter_sublist.map _),
        List.nodup_singleton _, ?_⟩
      intro name hname other hother hsame
      obtain ⟨entry, hentry, rfl⟩ := List.mem_map.mp hname
      exact of_decide_eq_true (List.mem_filter.mp hentry).2
        (hsame.trans (List.mem_singleton.mp hother))
    · simp only [others_created]
      exact haccount
    · intro entry hentry hname
      rcases List.mem_append.mp hentry with hold | hnew
      · exact absurd hname (of_decide_eq_true (List.mem_filter.mp hold).2)
      · rw [List.mem_singleton.mp hnew]
        exact UInt64.le_iff_toNat_le.mp hwritten
    · intro maxBytes hmaxBytes
      have hroom := hbytes hfits maxBytes hmaxBytes
      rw [hend, ← hrest]
      exact hroom
  · simp only [hfits] at hcreated
    nomatch hcreated

/-- A Reserve, whether it succeeds or not; and what it then keeps within. -/
theorem RetentionRun.kept_reserve (hretention : run.directory.retention = retention)
    (hfiles : ∀ maxFiles ∈ retention.maxFiles, 0 < maxFiles) (h : run.Kept retention)
    {bytes written : UInt64} {deletes : String → Bool}
    (hlegal : run.Legal (.reserve bytes written deletes)) :
    (run.step (.reserve bytes written deletes)).1.Kept retention ∧
      ((run.step (.reserve bytes written deletes)).2 = true → ∀ maxBytes ∈ retention.maxBytes,
        (run.step (.reserve bytes written deletes)).1.directory.total.toNat ≤
          maxBytes.toNat) := by
  obtain ⟨-, hwritten, hfew⟩ := hlegal
  obtain ⟨reserved, htotal, hreserved⟩ := h.reserved
  obtain ⟨room, hroom⟩ : ∃ room, room =
    makeRoom retention false bytes run.directory.remaining run.directory.total := ⟨_, rfl⟩
  obtain ⟨hsplit, hleft, -, hbytes⟩ := makeRoom_room hfiles false run.directory.remaining hfew
  rw [← hroom] at hsplit hleft hbytes
  have hnames := nodup_survivors h.nodup room.deleted deletes
  have haccount := others_left h.nodup (h.account.trans (List.Perm.of_eq hsplit.symm)) deletes
  have hrest : room.total.toNat = sizes room.left + reserved := by
    rw [hleft, htotal, ← hsplit, sizes_append]
    omega
  have hcount : ∀ maxFiles ∈ retention.maxFiles, room.left.length + 1 ≤ maxFiles := by
    intro maxFiles hmaxFiles
    have hbefore := h.files maxFiles hmaxFiles
    rw [← hsplit, List.length_append] at hbefore
    omega
  simp only [RetentionRun.step, CaptureDirectory.reserve, CaptureDirectory.makeRoom, hretention,
    ← hroom]
  cases hfits : room.fits with
  | false =>
      simp only [Bool.false_eq_true, if_false]
      refine ⟨⟨hnames, haccount, ⟨reserved, hrest, ?_⟩, hcount⟩, fun hreserved => (nomatch hreserved)⟩
      intro entry hentry hname
      exact hreserved entry (List.mem_of_mem_filter hentry) hname
  | true =>
      simp only [if_true]
      have hsum : (room.total + bytes).toNat = sizes room.left + (reserved + bytes.toNat) := by
        rw [UInt64.toNat_add, hrest]
        rw [htotal, ← hsplit, sizes_append] at hfew
        rw [Nat.mod_eq_of_lt (by omega)]
        omega
      refine ⟨⟨?_, ?_, ⟨reserved + bytes.toNat, hsum, ?_⟩, hcount⟩, ?_⟩
      · rw [List.map_map]
        refine (List.map_congr_left fun entry _ => ?_) ▸ hnames
        simp only [Function.comp_apply]
        split_ifs <;> rfl
      · rw [others_written]
        exact haccount
      · intro entry hentry hname
        obtain ⟨before, hbefore, rfl⟩ := List.mem_map.mp hentry
        have hsize := hreserved before (List.mem_of_mem_filter hbefore)
        split_ifs at hname ⊢ with hfile
        · have hmore := UInt64.le_iff_toNat_le.mp hwritten
          have hold := hsize hfile
          rw [UInt64.toNat_add]
          exact Nat.le_trans (Nat.mod_le _ _) (by omega)
        · exact absurd hname hfile
      · intro _ maxBytes hmaxBytes
        have hlimit := hbytes hfits maxBytes hmaxBytes
        rw [hsum]
        omega

/-- A step that fails to open leaves no capture open; any other keeps what there is. -/
theorem RetentionRun.kept_step (hretention : run.directory.retention = retention)
    (hfiles : ∀ maxFiles ∈ retention.maxFiles, 0 < maxFiles)
    (h : run.directory.isOpen = true → run.Kept retention) {op : RetentionOp}
    (hlegal : run.Legal op) :
    (run.step op).1.directory.retention = retention ∧
      ((run.step op).1.directory.isOpen = true → (run.step op).1.Kept retention) ∧
      ((run.step op).2 = true → WithinLimits retention (run.step op).1.counted) := by
  cases op with
  | open_ entries fileName bytes written deletes =>
      have hopened : (run.step (.open_ entries fileName bytes written deletes)).1.directory.isOpen =
          (run.step (.open_ entries fileName bytes written deletes)).2 := by
        simp only [RetentionRun.step, CaptureDirectory.open_]
        split_ifs <;> rfl
      refine ⟨?_, ?_, ?_⟩
      · simp only [RetentionRun.step, CaptureDirectory.open_]
        split_ifs <;> exact hretention
      · intro hopen
        exact (kept_open hretention hfiles hlegal (hopened ▸ hopen)).1
      · intro hcreated
        obtain ⟨hkept, hbytes⟩ := kept_open hretention hfiles hlegal hcreated
        exact hkept.within hbytes
  | reserve bytes written deletes =>
      obtain ⟨hkept, hbytes⟩ := kept_reserve hretention hfiles (h hlegal.1) hlegal
      refine ⟨?_, fun _ => hkept, fun hreserved => hkept.within (hbytes hreserved)⟩
      simp only [RetentionRun.step, CaptureDirectory.reserve]
      split_ifs <;> exact hretention

theorem kept_of_manages (hfiles : ∀ maxFiles ∈ retention.maxFiles, 0 < maxFiles)
    (h : Manages retention run) :
    run.directory.retention = retention ∧
      (run.directory.isOpen = true → run.Kept retention) := by
  induction h with
  | start => exact ⟨rfl, fun hopen => (nomatch hopen)⟩
  | step _ hlegal ih =>
      obtain ⟨hsame, hkept, -⟩ := RetentionRun.kept_step ih.1 hfiles ih.2 hlegal
      exact ⟨hsame, hkept⟩

end

/-- CORRECT: with fewer than 2⁶⁴ bytes in all, the plan is the shortest oldest-first prefix whose
    deletion makes room, or every capture and a refusal; deleting one at a time carries it out; and
    after each Open or Reserve that succeeds, the captures, but those the disk would not delete, are
    within the limits. -/
theorem retention_law (retention : CaptureRetention)
    (hfiles : ∀ maxFiles ∈ retention.maxFiles, 0 < maxFiles) :
    (∀ (completed : List CompletedCapture) (total : UInt64) (opening : Bool) (bytes : UInt64),
      total.toNat + bytes.toNat < 2 ^ 64 →
      let plan := planRetention completed total opening bytes retention
      let room := makeRoom retention opening bytes completed total
      IsPlan retention opening bytes.toNat completed total.toNat plan ∧
        room.deleted = completed.take plan.deletions ∧
        room.left = completed.drop plan.deletions ∧
        room.total.toNat = total.toNat - sizes (completed.take plan.deletions) ∧
        room.fits = plan.fits) ∧
    ∀ (run : RetentionRun) (op : RetentionOp), Manages retention run → run.Legal op →
      (run.step op).2 = true → WithinLimits retention (run.step op).1.counted := by
  constructor
  · intro completed total opening bytes hfew
    exact ⟨isPlan_planRetention hfiles opening completed hfew,
      makeRoom_deletes hfiles opening completed hfew⟩
  · intro run op hmanages hlegal
    obtain ⟨hretention, hkept⟩ := kept_of_manages hfiles hmanages
    exact (RetentionRun.kept_step hretention hfiles hkept hlegal).2.2

/-! ### Two directories -/

/-- The capture file of an engine before the Match ID, the `n`th of a day. -/
def numbered (n : Char) : String := "20260101T00000000" ++ n.toString ++ "Z-0001.acap"

def pairAtMost : CaptureRetention where
  maxFiles := some 2
  maxBytes := some 40

/-- Three captures of ten bytes, the oldest to go first, and a file that is no capture. -/
def tenEach : List DirectoryEntry :=
  [{ name := numbered '2', size := 10 }, { name := "notes.txt", size := 99 },
    { name := numbered '1', size := 10 }, { name := numbered '3', size := 10 }]

def openTen : RetentionOp := .open_ tenEach (numbered '4') 20 20 fun _ => true

theorem retention_law_pair :
    let left := (({ directory := { retention := pairAtMost } } : RetentionRun).step openTen).1.counted
    left.map (·.name) = [numbered '3', numbered '4'] ∧ WithinLimits pairAtMost left :=
  ⟨by decide +kernel,
    (retention_law pairAtMost (by intro m h; cases h; decide)).2 _ openTen .start
      ⟨by decide +kernel, by decide, by decide +kernel⟩ (by decide +kernel)⟩

/-- Two captures of the largest size a file can have, and a small one. -/
def hugeEach : List DirectoryEntry :=
  [{ name := numbered '1', size := 0x7FFFFFFFFFFFFFFF },
    { name := numbered '2', size := 0x7FFFFFFFFFFFFFFF }, { name := numbered '3', size := 10 }]

/-- Their total wraps to eight: a file is created beside them in a directory of a thousand bytes
    at most. -/
theorem total_wraps :
    let opened := ({ directory := { retention := { maxBytes := some 1000 } } } : RetentionRun).step
      (.open_ hugeEach (numbered '4') 8 8 fun _ => true)
    opened.2 = true ∧ opened.1.directory.total = 16 ∧ opened.1.stuck = [] ∧
      (opened.1.counted.map (·.size.toNat)).sum = 2 ^ 64 + 16 := by
  decide +kernel

end Augusta.Host
