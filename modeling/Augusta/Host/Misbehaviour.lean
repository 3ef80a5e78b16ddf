import Augusta.Lib.Window
import Mathlib.Algebra.Order.Group.Int
import Mathlib.Data.List.Induction

/-! `augusta::host::MisbehaviourTracker`: what one peer sent that no honest client sends.

      Record(rejection, now) ──▶ routine       kept, and nothing recorded
                             ──▶ misbehaviour  recorded; the peer is to be disconnected once
                                               `kMisbehaviourThreshold` of them are in the window

    Times are nanoseconds of the caller's clock. -/

namespace Augusta.Host
open Lib

inductive PeerRejection
  | undecodable | notAClientMessage | nonFiniteCommand | outOfRangeCommand | commandsBeforeJoining
  | staleCommand | commandsOutsideMatch | staleReady | joinRefused
  deriving DecidableEq, Repr

/-- Whether a rejection counts toward a disconnect. -/
def isMisbehaviour : PeerRejection → Bool
  | .undecodable | .notAClientMessage | .nonFiniteCommand | .outOfRangeCommand
  | .commandsBeforeJoining => true
  | .staleCommand | .commandsOutsideMatch | .staleReady | .joinRefused => false

/-- 5 seconds. -/
def kMisbehaviourWindow : ℤ := 5000000000

def kMisbehaviourThreshold : ℕ := 16

inductive Verdict
  | keep | disconnect
  deriving DecidableEq, Repr

structure MisbehaviourTracker where
  /-- When each misbehaviour still in the window happened, oldest first. -/
  recent : List ℤ := []
  deriving DecidableEq, Repr

/-- `Record`. -/
def MisbehaviourTracker.record (tracker : MisbehaviourTracker) (rejection : PeerRejection) (now : ℤ) :
    Verdict × MisbehaviourTracker :=
  if !isMisbehaviour rejection then (.keep, tracker)
  else
    let recent := tracker.recent.dropWhile (fun front => kMisbehaviourWindow ≤ now - front) ++ [now]
    (if kMisbehaviourThreshold ≤ recent.length then .disconnect else .keep, { recent })

/-- One call of `Record`. -/
structure Rejected where
  rejection : PeerRejection
  now : ℤ
  deriving DecidableEq, Repr

namespace MisbehaviourTracker

/-- The answers to calls in turn, and the tracker they leave. -/
def run (tracker : MisbehaviourTracker) : List Rejected → List Verdict × MisbehaviourTracker
  | [] => ([], tracker)
  | given :: later =>
      let (verdict, next) := tracker.record given.rejection given.now
      let (verdicts, last) := next.run later
      (verdict :: verdicts, last)

variable (tracker : MisbehaviourTracker)

theorem record_routine {rejection : PeerRejection} (h : isMisbehaviour rejection = false) (now : ℤ) :
    tracker.record rejection now = (.keep, tracker) := by
  simp [record, h]

theorem record_misbehaviour {rejection : PeerRejection} (h : isMisbehaviour rejection = true) (now : ℤ) :
    tracker.record rejection now =
      (if kMisbehaviourThreshold ≤ (Window.slide kMisbehaviourWindow now tracker.recent).length then
        .disconnect else .keep, ⟨Window.slide kMisbehaviourWindow now tracker.recent⟩) := by
  simp only [record, h, Bool.not_true, Bool.false_eq_true, if_false]
  rfl

end MisbehaviourTracker

/-! ### The window -/

/-- When the misbehaviours among the calls happened. -/
def misbehavedAt (calls : List Rejected) : List ℤ :=
  (calls.filter fun given => isMisbehaviour given.rejection).map (·.now)

/-- The misbehaviours among `calls` that happened less than the window before `now`. -/
def recentAt (now : ℤ) (calls : List Rejected) : List Rejected :=
  calls.filter fun given => isMisbehaviour given.rejection && decide (now - given.now < kMisbehaviourWindow)

/-- Calls on a clock that does not go back. -/
def Forward (calls : List Rejected) : Prop :=
  calls.Pairwise fun earlier later => earlier.now ≤ later.now

instance (calls : List Rejected) : Decidable (Forward calls) := by
  unfold Forward; infer_instance

theorem misbehavedAt_append (calls later : List Rejected) :
    misbehavedAt (calls ++ later) = misbehavedAt calls ++ misbehavedAt later := by
  rw [misbehavedAt, List.filter_append, List.map_append]
  rfl

theorem within_misbehavedAt (now : ℤ) (calls : List Rejected) :
    Window.within kMisbehaviourWindow now (misbehavedAt calls) = (recentAt now calls).map (·.now) := by
  rw [Window.within, misbehavedAt, List.filter_map, List.filter_filter, recentAt]
  congr 2
  funext given
  exact Bool.and_comm ..

theorem Forward.misbehavedAt {calls : List Rejected} (h : Forward calls) :
    (misbehavedAt calls).Pairwise (· ≤ ·) :=
  List.pairwise_map.mpr (h.sublist List.filter_sublist)

/-- What a tracker holds of the calls so far: nothing that did not happen, and all that any window
    from now on counts. -/
structure Holds (calls : List Rejected) (tracker : MisbehaviourTracker) : Prop where
  kept : tracker.recent.Sublist (misbehavedAt calls)
  counts : ∀ now, (∀ given ∈ calls, given.now ≤ now) →
    Window.within kMisbehaviourWindow now tracker.recent =
      Window.within kMisbehaviourWindow now (misbehavedAt calls)

theorem holds_empty : Holds [] {} := ⟨List.Sublist.refl _, fun _ _ => rfl⟩

theorem Forward.earlier_le {calls : List Rejected} {given : Rejected}
    (h : Forward (calls ++ [given])) : ∀ earlier ∈ calls, earlier.now ≤ given.now :=
  fun earlier hmem => (List.pairwise_append.mp h).2.2 earlier hmem given (List.mem_singleton.mpr rfl)

theorem Forward.init {calls later : List Rejected} (h : Forward (calls ++ later)) : Forward calls :=
  (List.pairwise_append.mp h).1

theorem misbehavedAt_routine {given : Rejected} (h : isMisbehaviour given.rejection = false) :
    misbehavedAt [given] = [] := by
  simp [misbehavedAt, h]

theorem misbehavedAt_misbehaviour {given : Rejected} (h : isMisbehaviour given.rejection = true) :
    misbehavedAt [given] = [given.now] := by
  simp [misbehavedAt, h]

namespace Holds
variable {calls : List Rejected} {tracker : MisbehaviourTracker} {given : Rejected}

/-- At a misbehaviour the window slides to it, over all that count. -/
theorem slide (h : Holds calls tracker) (hforward : Forward (calls ++ [given]))
    (hmis : isMisbehaviour given.rejection = true) :
    Window.slide kMisbehaviourWindow given.now tracker.recent =
      Window.within kMisbehaviourWindow given.now (misbehavedAt (calls ++ [given])) := by
  have hwidth : 0 < kMisbehaviourWindow := by decide
  have hsorted := hforward.init.misbehavedAt.sublist h.kept
  rw [Window.slide_eq hwidth hsorted (h.counts given.now hforward.earlier_le), misbehavedAt_append,
    misbehavedAt_misbehaviour hmis]

/-- One call. -/
theorem record (h : Holds calls tracker) (hforward : Forward (calls ++ [given])) :
    Holds (calls ++ [given]) (tracker.record given.rejection given.now).2 := by
  cases hmis : isMisbehaviour given.rejection with
  | false =>
      rw [tracker.record_routine hmis]
      refine ⟨?_, fun now hlast => ?_⟩
      · rw [misbehavedAt_append, misbehavedAt_routine hmis, List.append_nil]
        exact h.kept
      · rw [misbehavedAt_append, misbehavedAt_routine hmis, List.append_nil]
        exact h.counts now fun earlier hmem => hlast earlier (List.mem_append_left _ hmem)
  | true =>
      rw [tracker.record_misbehaviour hmis]
      refine ⟨?_, fun now hlast => ?_⟩
      · rw [h.slide hforward hmis]
        exact Window.within_sublist ..
      · have hle : given.now ≤ now := hlast given (List.mem_append_right _ (List.mem_singleton.mpr rfl))
        rw [h.slide hforward hmis, Window.within_within _ hle]

end Holds

/-! ### Calls in turn -/

namespace MisbehaviourTracker

theorem run_append (tracker : MisbehaviourTracker) (calls later : List Rejected) :
    tracker.run (calls ++ later) =
      ((tracker.run calls).1 ++ ((tracker.run calls).2.run later).1,
        ((tracker.run calls).2.run later).2) := by
  induction calls generalizing tracker with
  | nil => rfl
  | cons given rest ih =>
      simp only [List.cons_append, run, ih]

end MisbehaviourTracker

theorem holds_run (calls : List Rejected) (hforward : Forward calls) :
    Holds calls (({} : MisbehaviourTracker).run calls).2 := by
  induction calls using List.reverseRecOn with
  | nil => exact holds_empty
  | append_singleton earlier given ih =>
      rw [MisbehaviourTracker.run_append]
      exact (ih hforward.init).record hforward

/-- Until a disconnect is answered, fewer are kept than disconnect. -/
theorem length_lt_of_kept (calls : List Rejected) :
    Verdict.disconnect ∉ (({} : MisbehaviourTracker).run calls).1 →
      (({} : MisbehaviourTracker).run calls).2.recent.length < kMisbehaviourThreshold := by
  induction calls using List.reverseRecOn with
  | nil => exact fun _ => by decide
  | append_singleton earlier given ih =>
      rw [MisbehaviourTracker.run_append]
      intro hnone
      obtain ⟨hearlier, hlast⟩ := not_or.mp (mt List.mem_append.mpr hnone)
      simp only [MisbehaviourTracker.run, List.mem_singleton] at hlast ⊢
      generalize (({} : MisbehaviourTracker).run earlier).2 = tracker at ih hlast ⊢
      cases hmis : isMisbehaviour given.rejection with
      | false =>
          rw [tracker.record_routine hmis]
          exact ih hearlier
      | true =>
          rw [tracker.record_misbehaviour hmis] at hlast ⊢
          by_contra hfull
          exact hlast (if_pos (not_lt.mp hfull)).symm

/-- CORRECT: `Record` answers as the window of all the misbehaviours so far does, and up to the
    first disconnect it keeps no more of them than disconnect. -/
theorem misbehaviour_law (earlier : List Rejected) (given : Rejected)
    (hforward : Forward (earlier ++ [given])) :
    let (verdicts, tracker) := ({} : MisbehaviourTracker).run earlier
    let (verdict, next) := tracker.record given.rejection given.now
    (verdict = .disconnect ↔ isMisbehaviour given.rejection ∧
      kMisbehaviourThreshold ≤ (recentAt given.now (earlier ++ [given])).length) ∧
    (isMisbehaviour given.rejection → next.recent =
      (recentAt given.now (earlier ++ [given])).map (·.now)) ∧
    (Verdict.disconnect ∉ verdicts → next.recent.length ≤ kMisbehaviourThreshold) := by
  have hholds := holds_run earlier hforward.init
  have hfew := length_lt_of_kept earlier
  generalize ({} : MisbehaviourTracker).run earlier = ran at hholds hfew
  obtain ⟨verdicts, tracker⟩ := ran
  cases hmis : isMisbehaviour given.rejection with
  | false =>
      simp only [tracker.record_routine hmis]
      exact ⟨by simp, by simp, fun hnone => (hfew hnone).le⟩
  | true =>
      have hslide := hholds.slide hforward hmis
      rw [within_misbehavedAt] at hslide
      simp only [tracker.record_misbehaviour hmis, hslide, List.length_map]
      refine ⟨?_, fun _ => trivial, fun hnone => ?_⟩
      · by_cases hfull : kMisbehaviourThreshold ≤ (recentAt given.now (earlier ++ [given])).length
        · simp [hfull]
        · simp [hfull]
      · -- what is kept from before is short of the threshold, and one more joins it
        have hlength := congrArg List.length hslide
        rw [Window.slide, List.length_append, List.length_map, List.length_singleton] at hlength
        have hdrop := (List.dropWhile_sublist (l := tracker.recent)
          fun front => decide (kMisbehaviourWindow ≤ given.now - front)).length_le
        have hkept : tracker.recent.length < kMisbehaviourThreshold := hfew hnone
        simp only [Window.dropOld] at hlength
        omega

theorem misbehaviour_law_burst :
    let burst := List.replicate 15 ⟨.undecodable, 0⟩ ++ [⟨.staleCommand, 1⟩]
    let given : Rejected := ⟨.nonFiniteCommand, 4999999999⟩
    let (verdicts, tracker) := ({} : MisbehaviourTracker).run burst
    let (verdict, next) := tracker.record given.rejection given.now
    (verdict = .disconnect ↔ isMisbehaviour given.rejection ∧
      kMisbehaviourThreshold ≤ (recentAt given.now (burst ++ [given])).length) ∧
    (isMisbehaviour given.rejection → next.recent =
      (recentAt given.now (burst ++ [given])).map (·.now)) ∧
    (Verdict.disconnect ∉ verdicts → next.recent.length ≤ kMisbehaviourThreshold) :=
  misbehaviour_law (List.replicate 15 ⟨.undecodable, 0⟩ ++ [⟨.staleCommand, 1⟩])
    ⟨.nonFiniteCommand, 4999999999⟩ (by decide)

end Augusta.Host
