import Augusta.Gameplay.Weapon
import Augusta.Physics.Movement
import Mathlib.Data.List.Basic

/-! `augusta::prediction::History`: the Commands sent and what was predicted after each, until the
    server answers them.

      acknowledge s :  s-2  s-1   s  │ s+1  s+2 …     what was predicted after s is given back
                       ────dropped── │ ──kept───▶ replay steps these again

    Sequences grow, so what is dropped is a front of the list. -/

namespace Augusta.Prediction
open Lib (Binary32)

def kMaxHistory : ℕ := 128

/-- The local player as predicted: its body, with its fall, and its rifle. -/
structure Predicted where
  body : Physics.BodyRecord := {}
  rifle : Weapon.State := {}
  deriving DecidableEq, Repr

structure Entry where
  sequence : Sequence
  command : Command
  predicted : Predicted
  deriving DecidableEq, Repr

structure History where
  entries : List Entry := []
  deriving DecidableEq, Repr

namespace History

/-- Beyond `kMaxHistory` the oldest is forgotten. -/
def record (history : History) (sequence : Sequence) (command : Command) (predicted : Predicted) :
    History :=
  let entries := history.entries ++ [⟨sequence, command, predicted⟩]
  ⟨if kMaxHistory < entries.length then entries.tail else entries⟩

/-- The state predicted after `sequence`, if it is held, and the history without it and everything
    older. -/
def acknowledge (history : History) (sequence : Sequence) : Option Predicted × History :=
  match history.entries.dropWhile fun entry => entry.sequence < sequence with
  | [] => (none, ⟨[]⟩)
  | first :: rest =>
      if first.sequence ≠ sequence then (none, ⟨first :: rest⟩) else (some first.predicted, ⟨rest⟩)

/-- Steps each Command held from `now`, oldest first, and keeps what each leaves as what was
    predicted after it. -/
def replayFrom (step : Predicted → Command → Predicted) :
    Predicted → List Entry → List Entry × Predicted
  | now, [] => ([], now)
  | now, entry :: rest =>
      let next := step now entry.command
      let replayed := replayFrom step next rest
      ({ entry with predicted := next } :: replayed.1, replayed.2)

def replay (history : History) (step : Predicted → Command → Predicted) (now : Predicted) :
    History × Predicted :=
  let replayed := replayFrom step now history.entries
  (⟨replayed.1⟩, replayed.2)

/-! ### Growing sequences -/

def Increasing (entries : List Entry) : Prop :=
  entries.Pairwise fun a b => a.sequence.toNat < b.sequence.toNat

/-- Exactly the Commands up to the one acknowledged are dropped. -/
theorem acknowledge_entries {history : History} (h : Increasing history.entries)
    (sequence : Sequence) : (history.acknowledge sequence).2.entries =
      history.entries.filter fun entry => sequence < entry.sequence := by
  obtain ⟨entries⟩ := history
  simp only [acknowledge]
  induction entries with
  | nil => rfl
  | cons first rest ih =>
      obtain ⟨hfirst, hrest⟩ := List.pairwise_cons.mp h
      by_cases hold : first.sequence < sequence
      · have hdropped : ¬ sequence < first.sequence := UInt64.lt_asymm hold
        simp only [List.dropWhile_cons, hold, decide_true, if_true, List.filter_cons, hdropped,
          decide_false, Bool.false_eq_true, if_false]
        exact ih hrest
      · have hafter : ∀ entry ∈ rest, sequence < entry.sequence := by
          intro entry hentry
          have := hfirst entry hentry
          rw [UInt64.lt_iff_toNat_lt] at hold ⊢
          omega
        have hkept : rest.filter (fun entry => sequence < entry.sequence) = rest :=
          List.filter_eq_self.mpr fun entry hentry => decide_eq_true (hafter entry hentry)
        simp only [List.dropWhile_cons, hold, decide_false, Bool.false_eq_true, if_false,
          List.filter_cons, hkept]
        by_cases hsame : first.sequence = sequence
        · have hdropped : ¬ sequence < first.sequence := by rw [hsame]; exact UInt64.lt_irrefl _
          rw [if_neg (not_not.mpr hsame), if_neg (by simpa using hdropped)]
        · have hnewer : sequence < first.sequence :=
            UInt64.lt_of_le_of_ne (UInt64.not_lt.mp hold) (Ne.symm hsame)
          rw [if_pos hsame, if_pos (decide_eq_true hnewer)]

/-- What was predicted is given back for a Command that is held, and nothing for any other. -/
theorem acknowledge_predicted {history : History} (h : Increasing history.entries)
    {sequence : Sequence} {predicted : Predicted} :
    (history.acknowledge sequence).1 = some predicted ↔
      ∃ entry ∈ history.entries, entry.sequence = sequence ∧ entry.predicted = predicted := by
  obtain ⟨entries⟩ := history
  simp only [acknowledge]
  induction entries with
  | nil => simp
  | cons first rest ih =>
      obtain ⟨hfirst, hrest⟩ := List.pairwise_cons.mp h
      by_cases hold : first.sequence < sequence
      · have hne : first.sequence ≠ sequence := UInt64.ne_of_lt hold
        simp only [List.dropWhile_cons, hold, decide_true, if_true, List.mem_cons,
          exists_eq_or_imp, hne, false_and, false_or]
        exact ih hrest
      · have hafter : ∀ entry ∈ rest, entry.sequence ≠ sequence := by
          rintro entry hentry rfl
          exact hold (UInt64.lt_iff_toNat_lt.mpr (hfirst entry hentry))
        simp only [List.dropWhile_cons, hold, decide_false, Bool.false_eq_true, if_false]
        split_ifs with hsame
        · simp only [List.mem_cons, exists_eq_or_imp, hsame, false_and, false_or,
            false_iff, not_exists, not_and]
          exact fun entry hentry heq => absurd heq (hafter entry hentry)
        · simp only [Option.some.injEq, List.mem_cons, exists_eq_or_imp, not_not.mp hsame, true_and]
          constructor
          · exact .inl
          · rintro (h | ⟨entry, hentry, heq, -⟩)
            · exact h
            · exact absurd heq (hafter entry hentry)

/-- A sequence older than all that is held changes nothing, however often it comes. -/
theorem acknowledge_old {history : History} {sequence : Sequence}
    (h : ∀ entry ∈ history.entries, sequence < entry.sequence) :
    history.acknowledge sequence = (none, history) := by
  obtain ⟨entries⟩ := history
  cases entries with
  | nil => rfl
  | cons first rest =>
      have hnewer := h first List.mem_cons_self
      have hkeep : ¬ first.sequence < sequence := UInt64.lt_asymm hnewer
      have hne : first.sequence ≠ sequence := (UInt64.ne_of_lt hnewer).symm
      simp only [acknowledge, List.dropWhile_cons, hkeep, decide_false, Bool.false_eq_true,
        if_false, hne, ne_eq, not_false_eq_true, if_true]

/-! ### The replay -/

variable {step : Predicted → Command → Predicted}

/-- Each entry's prediction is the step by its Command from the one before it. -/
def Chain (step : Predicted → Command → Predicted) : Predicted → List Entry → Prop
  | _, [] => True
  | now, entry :: rest => entry.predicted = step now entry.command ∧ Chain step entry.predicted rest

/-- What is predicted after the newest Command. -/
def lastPredicted (now : Predicted) (entries : List Entry) : Predicted :=
  (entries.getLast?.map (·.predicted)).getD now

theorem replayFrom_commands (now : Predicted) (entries : List Entry) :
    (replayFrom step now entries).1.map (fun entry => (entry.sequence, entry.command)) =
      entries.map fun entry => (entry.sequence, entry.command) := by
  induction entries generalizing now with
  | nil => rfl
  | cons entry rest ih => simp only [replayFrom, List.map_cons, ih]

theorem replayFrom_chain (now : Predicted) (entries : List Entry) :
    Chain step now (replayFrom step now entries).1 := by
  induction entries generalizing now with
  | nil => trivial
  | cons entry rest ih => exact ⟨rfl, ih _⟩

theorem replayFrom_last (now : Predicted) (entries : List Entry) :
    (replayFrom step now entries).2 =
      (entries.map (·.command)).foldl step now := by
  induction entries generalizing now with
  | nil => rfl
  | cons entry rest ih => exact ih _

end History
end Augusta.Prediction
