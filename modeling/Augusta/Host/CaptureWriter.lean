import Augusta.Capture.Records
import Augusta.Lib.Table

/-! `augusta::host::Capturer::Writer`: the queue the Simulation thread hands each Match's file and
    its records to, and the thread that writes them.

                Push, Open, Close                 take            handle
      Simulation ───────────────▶ [ queue ] ─────────────▶ hand ─────────▶ files
                                       ▲                     │ failed
                                       └─ its Match's        ▼
                                          records dropped ◀─ note the loss

    A Match's file is named by its Match ID, so `files` has them by it. What the disk does is
    given to each step that asks it. The fields from `pushed` on are history, which nothing
    reads. -/

namespace Augusta.Host
open Lib (Table)
open Capture

inductive CaptureMode
  | optional | strict
  deriving DecidableEq, Repr

inductive CaptureHealth
  | enabled | degraded | stopped
  deriving DecidableEq, Repr

inductive CaptureStep
  | create | write | flush | queueFull | recordTooLong | retentionBudget
  deriving DecidableEq, Repr

/-- The `failure::Code` of a loss. -/
inductive LossCode
  | strictCaptureFailed | captureWriteFailed | captureFlushFailed | captureQueueFull
  | captureRecordTooLong | captureRetentionBudget
  deriving DecidableEq, Repr

structure Loss where
  code : LossCode
  match_ : MatchId
  step : CaptureStep
  deriving DecidableEq, Repr

def optionalLossCode : CaptureStep → LossCode
  | .flush => .captureFlushFailed
  | .queueFull => .captureQueueFull
  | .recordTooLong => .captureRecordTooLong
  | .retentionBudget => .captureRetentionBudget
  | .create | .write => .captureWriteFailed

def lostCapture (mode : CaptureMode) (match_ : MatchId) (step : CaptureStep) : Loss where
  code := if mode = .strict then .strictCaptureFailed else optionalLossCode step
  match_
  step

/-- What is queued for the writer: a Match's file opened with its header, a record of it, its file
    closed. -/
inductive Item
  | kOpen (match_ : MatchId) (header : Encoded)
  | kRecord (match_ : MatchId) (encoded : Encoded)
  | kClose (match_ : MatchId)
  deriving DecidableEq

def Item.isRecord : Item → Bool
  | .kRecord .. => true
  | _ => false

/-- Whether it is one of the Match's records. -/
def Item.isRecordOf (match_ : MatchId) : Item → Bool
  | .kRecord m _ => m = match_
  | _ => false

/-- What the writer thread has in hand. -/
inductive Hand
  | idle
  | holding (item : Item)
  /-- Its item failed, and the loss is not noted yet. -/
  | failed (match_ : MatchId) (step : CaptureStep)
  deriving DecidableEq

/-- What the disk and the directory's retention make of an item. -/
structure Disk where
  /-- The completed captures deleted to make room. -/
  deleted : List MatchId := []
  /-- Whether there is then room for it. -/
  room : Bool := true
  created : Bool := true
  /-- The step its write fails at, if it does. -/
  failing : Option CaptureStep := none
  /-- How many bytes get to the file all the same. -/
  landed : ℕ := 0
  /-- How many more the stream keeps, for when it is closed. -/
  kept : ℕ := 0

structure Writer where
  mode : CaptureMode
  capacity : ℕ
  queue : List Item := []
  recordsQueued : ℕ := 0
  /-- The Matches whose capture stopped and whose file is not yet closed. -/
  stopped : List MatchId := []
  health : CaptureHealth := .enabled
  loss : Option Loss := none
  hand : Hand := .idle
  fileMatch : Option MatchId := none
  /-- What the stream holds of a write that failed. -/
  held : Encoded := []
  files : Table MatchId Encoded := ∅
  pushed : List (MatchId × Encoded) := []
  wrote : List (MatchId × Encoded) := []
  /-- The Matches an item of which failed. -/
  failed : List MatchId := []
  /-- Those of them it was a write or a flush that failed of. -/
  broken : List MatchId := []
  /-- The Matches whose capture stopped. -/
  lost : List MatchId := []
  /-- The Matches with a piece that was not queued. -/
  refused : List MatchId := []
  deleted : List MatchId := []

namespace Writer

/-! ### With the lock held -/

def loseLocked (w : Writer) (match_ : MatchId) (step : CaptureStep) : Writer :=
  if w.health ≠ .enabled then w
  else
    { w with
      loss := some (lostCapture w.mode match_ step)
      health := if w.mode = .optional then .degraded else .stopped }

def stopLocked (w : Writer) (match_ : MatchId) (step : CaptureStep) : Writer :=
  if match_ ∈ w.stopped then w
  else
    loseLocked { w with stopped := match_ :: w.stopped, lost := w.lost ++ [match_] } match_ step

/-- `Open`; never refused. -/
def enqueue (w : Writer) (match_ : MatchId) (header : Encoded) : Writer :=
  { w with queue := w.queue ++ [.kOpen match_ header], pushed := w.pushed ++ [(match_, header)] }

def close (w : Writer) (match_ : MatchId) : Writer :=
  { w with queue := w.queue ++ [.kClose match_] }

/-- A piece of the Match that is not queued. -/
def refuse (w : Writer) (match_ : MatchId) : Writer := { w with refused := w.refused ++ [match_] }

def push (w : Writer) (match_ : MatchId) (record : Encoded) : Writer :=
  if match_ ∈ w.stopped ∨ w.health = .stopped then w.refuse match_
  else if w.capacity ≤ w.recordsQueued then (w.stopLocked match_ .queueFull).refuse match_
  else
    { w with
      recordsQueued := w.recordsQueued + 1
      queue := w.queue ++ [.kRecord match_ record]
      pushed := w.pushed ++ [(match_, record)] }

/-- `StopCapturesLocked`, by `Finish` once nothing is queued or in hand. -/
def finish (w : Writer) : Option Writer :=
  if w.queue = [] ∧ w.hand = .idle then some { w with health := .stopped } else none

/-! ### The writer thread -/

/-- The oldest item queued is taken in hand. -/
def take (w : Writer) : Option Writer :=
  match w.hand, w.queue with
  | .idle, item :: rest =>
      some { w with
        hand := .holding item
        queue := rest
        recordsQueued := if item.isRecord then w.recordsQueued - 1 else w.recordsQueued }
  | _, _ => none

def content (w : Writer) (match_ : MatchId) : Encoded := (w.files.lookup match_).getD []

/-- The item in hand failed. -/
def fail (w : Writer) (match_ : MatchId) (step : CaptureStep) : Writer :=
  { w with hand := .failed match_ step, failed := w.failed ++ [match_] }

/-- The directory without the completed captures retention deleted; the one being written stays. -/
def retain (w : Writer) (match_ : MatchId) (disk : Disk) : Writer :=
  let gone := disk.deleted.filter (· ≠ match_)
  { w with files := w.files.filter fun m _ => m ∉ gone, deleted := w.deleted ++ gone }

/-- `Write`, to the Match's file, which is open. -/
def write (w : Writer) (match_ : MatchId) (encoded : Encoded) (disk : Disk) : Writer :=
  match disk.failing with
  | some step =>
      fail { w with
        files := w.files.insert match_ (w.content match_ ++ encoded.take disk.landed)
        held := (encoded.drop disk.landed).take disk.kept
        broken := w.broken ++ [match_] } match_ step
  | none =>
      { w with
        hand := .idle
        files := w.files.insert match_ (w.content match_ ++ encoded)
        wrote := w.wrote ++ [(match_, encoded)] }

def openFile (w : Writer) (match_ : MatchId) (header : Encoded) (disk : Disk) : Writer :=
  let kept := w.retain match_ disk
  if ¬ disk.room then kept.fail match_ .retentionBudget
  else if ¬ disk.created then kept.fail match_ .create
  else
    write { kept with files := kept.files.insert match_ [], fileMatch := some match_, held := [] }
      match_ header disk

/-- `Persist`, of the Match whose file is open. -/
def persist (w : Writer) (match_ : MatchId) (encoded : Encoded) (disk : Disk) : Writer :=
  let kept := w.retain match_ disk
  if ¬ disk.room then kept.fail match_ .retentionBudget else kept.write match_ encoded disk

/-- `CloseFile`: closing the stream may still put what it holds on disk. -/
def closeFile (w : Writer) (match_ : MatchId) (disk : Disk) : Writer :=
  let forgotten := { w with hand := .idle, stopped := w.stopped.filter (· ≠ match_) }
  if w.fileMatch ≠ some match_ then forgotten
  else
    { forgotten with
      files := w.files.insert match_ (w.content match_ ++ w.held.take disk.landed)
      fileMatch := none
      held := [] }

/-- `Handle`, of the item in hand. -/
def handle (w : Writer) (disk : Disk) : Option Writer :=
  match w.hand with
  | .holding (.kOpen m header) => some (w.openFile m header disk)
  | .holding (.kRecord m encoded) =>
      some (if w.fileMatch = some m then w.persist m encoded disk else { w with hand := .idle })
  | .holding (.kClose m) => some (w.closeFile m disk)
  | _ => none

/-- The loss of the item in hand is noted: nothing more of its Match stays queued. -/
def note (w : Writer) : Option Writer :=
  match w.hand with
  | .failed m step =>
      let queue := w.queue.filter fun item => ¬ item.isRecordOf m
      some (stopLocked
        { w with hand := .idle, queue, recordsQueued := queue.countP Item.isRecord } m step)
  | _ => none

end Writer
end Augusta.Host
