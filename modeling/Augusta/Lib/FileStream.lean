import Mathlib.Data.List.Induction
import Mathlib.Data.List.TakeDrop

/-! A buffered stream onto a file that can fail, and learns of it only where it flushes:

      given   a b c d e f g h
              └ file ┘└ buffer ┘        put   more is given; some of the buffer may land
                                        close the rest lands, or some of it does and nobody asks -/

namespace Lib

/-- How far a flush gets: how many bytes land, and whether it fails there. -/
structure Flush where
  landed : ℕ := 0
  failed : Bool := false
  deriving DecidableEq, Repr

structure FileStream (α : Type) where
  file : List α := []
  buffer : List α := []
  failed : Bool := false
  deriving DecidableEq, Repr

namespace FileStream
variable {α : Type} (s : FileStream α)

/-- Gives the stream `data`; one that has failed takes nothing more. -/
def put (data : List α) (flush : Flush) : FileStream α :=
  if s.failed then s
  else
    { file := s.file ++ (s.buffer ++ data).take flush.landed
      buffer := (s.buffer ++ data).drop flush.landed
      failed := flush.failed }

/-- Flushes what is left and closes the file. -/
def close (flush : Flush) : FileStream α where
  file := s.file ++ if flush.failed then s.buffer.take flush.landed else s.buffer
  failed := s.failed || flush.failed

/-- Puts each piece in turn. -/
def putAll (pieces : List (List α × Flush)) : FileStream α :=
  pieces.foldl (fun s piece => s.put piece.1 piece.2) s

/-- Everything given, as long as nothing failed. -/
def given : List α := s.file ++ s.buffer

section
variable {s} {data : List α} {flush : Flush} {pieces : List (List α × Flush)}

theorem put_given (h : (s.put data flush).failed = false) :
    s.failed = false ∧ (s.put data flush).given = s.given ++ data := by
  rw [put] at h ⊢
  split_ifs at h ⊢ with hfailed
  · rw [hfailed] at h
    cases h
  · refine ⟨by simpa using hfailed, ?_⟩
    rw [given, given, List.append_assoc, List.take_append_drop, ← List.append_assoc]

/-- A stream that has not failed holds all it was given, in the file or still in its buffer. -/
theorem putAll_given (h : (s.putAll pieces).failed = false) :
    (s.putAll pieces).given = s.given ++ (pieces.map Prod.fst).flatten := by
  induction pieces using List.reverseRecOn with
  | nil => simp [putAll]
  | append_singleton pieces piece ih =>
      rw [putAll, List.foldl_append, List.foldl_cons, List.foldl_nil] at h ⊢
      obtain ⟨hbefore, hgiven⟩ := put_given h
      rw [hgiven, List.map_append, List.flatten_append, ← List.append_assoc]
      congr 1
      · exact ih hbefore
      · simp

/-- Closed, the file is whole unless the last flush failed with some of the buffer not landed. -/
theorem close_file_iff (s : FileStream α) (flush : Flush) :
    (s.close flush).file = s.given ↔ ¬ (flush.failed = true ∧ flush.landed < s.buffer.length) := by
  rw [close, given, List.append_cancel_left_eq]
  cases flush.failed with
  | false => simp
  | true =>
      simp only [if_true, true_and, Nat.not_lt]
      exact List.take_eq_self_iff s.buffer

end
end FileStream
end Lib
