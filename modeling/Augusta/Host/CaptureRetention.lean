import Augusta.Core.Command
import Mathlib.Data.List.Sort

/-! `augusta::host::CaptureDirectory`: a capture directory kept within a count and a size.

      directory ──scan──▶ [ oldest … newest ]      the completed captures, by name
                            └─ deleted one by one until a plan deletes no more

    What the disk holds is the directory's entries; whether it lets one go is not for the server to
    say. -/

namespace Augusta.Host

/-! ### Which files are captures -/

def isDigit (character : Char) : Bool := '0' ≤ character && character ≤ '9'

def isLowerHex (character : Char) : Bool :=
  isDigit character || ('a' ≤ character && character ≤ 'f')

/-- The form `boost::uuids::to_string` writes. -/
def kMatchIdPattern : List Char := "hhhhhhhh-hhhh-hhhh-hhhh-hhhhhhhhhhhh".toList

def kStart : List Char := "DDDDDDDDTDDDDDDDDDZ-".toList

def kExtension : List Char := ".acap".toList

def kNumberDigits : ℕ := 4

/-- One character of a pattern: `D` a digit, `h` a lowercase hexadecimal one, the rest itself. -/
def matches_ (pattern character : Char) : Bool :=
  if pattern = 'D' then isDigit character
  else if pattern = 'h' then isLowerHex character
  else pattern = character

def follows (pattern text : List Char) : Bool :=
  pattern.length = text.length && (pattern.zip text).all fun (p, c) => matches_ p c

def isMatchId (text : List Char) : Bool := follows kMatchIdPattern text

def isCaptureFileName (name : String) : Bool :=
  let text := name.toList
  if text.length < kStart.length + kNumberDigits + kExtension.length then false
  else if ¬ kExtension.isSuffixOf text then false
  else
    let named := (text.drop kStart.length).take
      (text.length - kStart.length - kExtension.length)
    follows kStart (text.take kStart.length) && (isMatchId named || named.all isDigit)

/-! ### The plan -/

/-- The limits of one server's capture directory, each off when none. -/
structure CaptureRetention where
  /-- How many captures it keeps, the one being written included; at least 1. -/
  maxFiles : Option ℕ := none
  maxBytes : Option UInt64 := none

structure CompletedCapture where
  name : String
  size : UInt64
  deriving DecidableEq, Repr

structure RetentionPlan where
  deletions : ℕ := 0
  /-- Whether the addition then fits. -/
  fits : Bool := true
  deriving DecidableEq, Repr

/-- Part way through a plan: the captures it leaves, how many it deletes, the bytes then left. -/
structure Pruned where
  left : List CompletedCapture
  deletions : ℕ := 0
  remaining : UInt64

/-- Deletes the oldest while `excess` says what is left is too much. -/
def deleteWhile (excess : List CompletedCapture → UInt64 → Bool) :
    List CompletedCapture → ℕ → UInt64 → Pruned
  | [], deletions, remaining => ⟨[], deletions, remaining⟩
  | oldest :: left, deletions, remaining =>
      if excess (oldest :: left) remaining then
        deleteWhile excess left (deletions + 1) (remaining - min remaining oldest.size)
      else ⟨oldest :: left, deletions, remaining⟩

/-- The first loop: fewer than `maxFiles` left, so that with the one opening there are as many at
    most. -/
def deleteFiles (completed : List CompletedCapture) (total : UInt64) (opening : Bool)
    (retention : CaptureRetention) : Pruned :=
  match opening, retention.maxFiles with
  | true, some maxFiles => deleteWhile (fun left _ => maxFiles ≤ left.length) completed 0 total
  | _, _ => ⟨completed, 0, total⟩

def planRetention (completed : List CompletedCapture) (total : UInt64) (opening : Bool)
    (bytes : UInt64) (retention : CaptureRetention) : RetentionPlan :=
  let counted := deleteFiles completed total opening retention
  match retention.maxBytes with
  | none => ⟨counted.deletions, true⟩
  | some maxBytes =>
      let pruned := deleteWhile (fun _ remaining => maxBytes < remaining + bytes) counted.left
        counted.deletions counted.remaining
      ⟨pruned.deletions, pruned.remaining + bytes ≤ maxBytes⟩

/-! ### The directory -/

/-- What the file system tells of one entry. -/
structure DirectoryEntry where
  name : String
  size : UInt64 := 0
  isRegularFile : Bool := true
  isSymlink : Bool := false
  startsWithMagic : Bool := true
  deriving DecidableEq, Repr

def DirectoryEntry.isCapture (entry : DirectoryEntry) : Bool :=
  isCaptureFileName entry.name && entry.isRegularFile && !entry.isSymlink && entry.startsWithMagic

/-- A directory's completed captures, oldest first, but `fileName`. -/
def scan (entries : List DirectoryEntry) (fileName : String) : List CompletedCapture :=
  ((entries.filter fun entry => entry.name ≠ fileName && entry.isCapture).map fun entry =>
    ⟨entry.name, entry.size⟩).insertionSort fun a b => a.name ≤ b.name

structure CaptureDirectory where
  retention : CaptureRetention
  /-- The completed captures not yet deleted, oldest first. -/
  remaining : List CompletedCapture := []
  total : UInt64 := 0
  /-- Whether the capture open counts as one of the directory's files. -/
  isOpen : Bool := false

/-- What `MakeRoom` does: the captures it deletes, oldest first, those it leaves, and the total. -/
structure Room where
  deleted : List CompletedCapture := []
  left : List CompletedCapture
  total : UInt64
  fits : Bool

/-- `MakeRoom`: the oldest deleted and the plan made again, until it deletes none. -/
def makeRoom (retention : CaptureRetention) (opening : Bool) (bytes : UInt64) :
    List CompletedCapture → UInt64 → Room
  | [], total => ⟨[], [], total, (planRetention [] total opening bytes retention).fits⟩
  | oldest :: left, total =>
      let plan := planRetention (oldest :: left) total opening bytes retention
      if plan.deletions = 0 then ⟨[], oldest :: left, total, plan.fits⟩
      else
        let room := makeRoom retention opening bytes left (total - min total oldest.size)
        { room with deleted := oldest :: room.deleted }

namespace CaptureDirectory
variable (directory : CaptureDirectory)

/-- `MakeRoom` on the directory, with what it deletes. -/
def makeRoom (opening : Bool) (bytes : UInt64) : Room :=
  Host.makeRoom directory.retention opening bytes directory.remaining directory.total

/-- `Open`: whether the file is to be created, the captures deleted, and the directory after it. -/
def open_ (entries : List DirectoryEntry) (fileName : String) (bytes : UInt64) :
    Bool × List CompletedCapture × CaptureDirectory :=
  let completed := scan entries fileName
  let total := completed.foldl (fun total capture => total + capture.size) 0
  let scanned := { directory with remaining := completed, total, isOpen := false }
  let room := scanned.makeRoom true bytes
  let left := { scanned with remaining := room.left, total := room.total }
  if room.fits then (true, room.deleted, { left with isOpen := true, total := left.total + bytes })
  else (false, room.deleted, left)

/-- `Reserve`: whether the bytes are to be written, the captures deleted, and the directory. -/
def reserve (bytes : UInt64) : Bool × List CompletedCapture × CaptureDirectory :=
  let room := directory.makeRoom false bytes
  let left := { directory with remaining := room.left, total := room.total }
  if room.fits then (true, room.deleted, { left with total := left.total + bytes })
  else (false, room.deleted, left)

end CaptureDirectory
end Augusta.Host
