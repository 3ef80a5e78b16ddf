import Augusta.Harness.Inbox
import Mathlib.Data.List.TakeWhile
import Mathlib.Tactic.SplitIfs

/-! `augusta::harness::Pending`: what one thread adds, another takes once.

      Add :  … │ stale │ kept, oldest first │ ◀── event
                          │
      Take : of one Match, from the front ──▶ never again        later Matches' stay  -/

namespace Augusta.Harness

/-- One call, under the lock. -/
inductive PendingCall (α : Type)
  | add (matchesStarted : UInt32) (event : α)
  | take (matchesStarted : UInt32)

namespace PendingCall
variable {α β : Type}

def map (f : α → β) : PendingCall α → PendingCall β
  | .add matchesStarted event => .add matchesStarted (f event)
  | .take matchesStarted => .take matchesStarted

def asAdded : PendingCall α → Option (UInt32 × α)
  | .add matchesStarted event => some (matchesStarted, event)
  | .take _ => none

end PendingCall

/-- Every event added, each under its Match, in order. -/
def added {α : Type} (calls : List (PendingCall α)) : List (UInt32 × α) :=
  calls.filterMap PendingCall.asAdded

/-- The calls, each event with the place of its `Add` among them. -/
def numbered {α : Type} (calls : List (PendingCall α)) : List (PendingCall (ℕ × α)) :=
  calls.mapIdx fun i call => call.map fun event => (i, event)

/-- A Pending, and what each `Take` has returned so far, oldest first. -/
structure Drawn (α : Type) where
  pending : Pending α
  taken : List (UInt32 × List α) := []

namespace Drawn
variable {α β : Type}

def step (drawn : Drawn α) : PendingCall α → Drawn α
  | .add matchesStarted event => { drawn with pending := drawn.pending.add matchesStarted event }
  | .take matchesStarted =>
      let (events, pending) := drawn.pending.take matchesStarted
      ⟨pending, drawn.taken ++ [(matchesStarted, events)]⟩

def run (limit : ℕ) (calls : List (PendingCall α)) : Drawn α :=
  calls.foldl step { pending := { limit } }

/-- Every event taken, each under the Match it was taken for, in order. -/
def events (drawn : Drawn α) : List (UInt32 × α) :=
  drawn.taken.flatMap fun (matchesStarted, events) => events.map (matchesStarted, ·)

/-- The same, of each event only what `f` says of it. -/
def map (f : α → β) (drawn : Drawn α) : Drawn β where
  pending := { limit := drawn.pending.limit
               events := drawn.pending.events.map fun (started, event) => (started, f event) }
  taken := drawn.taken.map fun (started, events) => (started, events.map f)

end Drawn

/-- After `calls`: what was taken, then what is kept, in the order it was added. -/
structure DrawnInOrder {α : Type} (limit : ℕ) (calls : List (PendingCall α)) (drawn : Drawn α) :
    Prop where
  once : (drawn.events ++ drawn.pending.events).Sublist (added calls)
  newest : drawn.pending.events <:+ added calls
  few : drawn.pending.events.length ≤ limit
  limit : drawn.pending.limit = limit

section
variable {α β : Type} {limit : ℕ} {calls : List (PendingCall α)} {drawn : Drawn α}

theorem drawnInOrder_add (h : DrawnInOrder limit calls drawn) (matchesStarted : UInt32) (event : α) :
    DrawnInOrder limit (calls ++ [.add matchesStarted event])
      (drawn.step (.add matchesStarted event)) := by
  have hadded : added (calls ++ [.add matchesStarted event]) =
      added calls ++ [(matchesStarted, event)] := by
    simp [added, PendingCall.asAdded]
  have hdropped : (drawn.pending.dropBefore matchesStarted).events <:+ drawn.pending.events :=
    List.dropWhile_suffix _
  have hfew : (drawn.pending.dropBefore matchesStarted).events.length ≤ limit :=
    Nat.le_trans hdropped.length_le h.few
  have hkept : (drawn.step (.add matchesStarted event)).pending.events <:+
      (drawn.pending.dropBefore matchesStarted).events ++ [(matchesStarted, event)] := by
    simp only [Drawn.step, Pending.add]
    split_ifs
    · exact List.tail_suffix _
    · exact List.suffix_rfl
  refine ⟨?_, ?_, ?_, h.limit⟩
  · rw [hadded]
    change (drawn.events ++ _).Sublist _
    have hall : (drawn.events ++ ((drawn.pending.dropBefore matchesStarted).events ++
        [(matchesStarted, event)])).Sublist (added calls ++ [(matchesStarted, event)]) := by
      rw [← List.append_assoc]
      exact ((hdropped.sublist.append_left _).trans h.once).append (List.Sublist.refl _)
    exact (hkept.sublist.append_left _).trans hall
  · rw [hadded]
    refine hkept.trans ?_
    obtain ⟨gone, hgone⟩ := hdropped.trans h.newest
    exact ⟨gone, by rw [← List.append_assoc, hgone]⟩
  · simp only [Drawn.step, Pending.add, h.limit]
    split_ifs with hover
    · simp only [List.length_tail, List.length_append, List.length_singleton]
      omega
    · omega

theorem drawnInOrder_take (h : DrawnInOrder limit calls drawn) (matchesStarted : UInt32) :
    DrawnInOrder limit (calls ++ [.take matchesStarted]) (drawn.step (.take matchesStarted)) := by
  have hadded : added (calls ++ [.take matchesStarted]) = added calls := by
    simp [added, PendingCall.asAdded]
  have hdropped : (drawn.pending.dropBefore matchesStarted).events <:+ drawn.pending.events :=
    List.dropWhile_suffix _
  have hkept : (drawn.step (.take matchesStarted)).pending.events <:+ drawn.pending.events :=
    (List.dropWhile_suffix _).trans hdropped
  -- What is returned is what stood at the front.
  have hevents : (drawn.step (.take matchesStarted)).events = drawn.events ++
      (drawn.pending.dropBefore matchesStarted).events.takeWhile
        fun kept => kept.1 == matchesStarted := by
    have hsame : ∀ kept ∈ (drawn.pending.dropBefore matchesStarted).events.takeWhile
        (fun kept => kept.1 == matchesStarted), (matchesStarted, kept.2) = kept := by
      intro kept hin
      have hstarted : (kept.1 == matchesStarted) = true :=
        @List.mem_takeWhile_imp _ (fun kept : UInt32 × α => kept.1 == matchesStarted) _ _ hin
      rw [← eq_of_beq hstarted]
    simp only [Drawn.events, Drawn.step, Pending.take, List.flatMap_append, List.flatMap_singleton,
      List.map_map]
    exact congrArg _ ((List.map_congr_left hsame).trans (List.map_id' _))
  refine ⟨?_, ?_, Nat.le_trans hkept.length_le h.few, h.limit⟩
  · rw [hadded, hevents, List.append_assoc]
    change (drawn.events ++ (List.takeWhile _ _ ++ List.dropWhile _ _)).Sublist _
    rw [List.takeWhile_append_dropWhile]
    exact (hdropped.sublist.append_left _).trans h.once
  · rw [hadded]
    exact hkept.trans h.newest

theorem drawnInOrder_run (limit : ℕ) (calls : List (PendingCall α)) :
    DrawnInOrder limit calls (Drawn.run limit calls) := by
  induction calls using List.reverseRecOn with
  | nil => exact ⟨List.Sublist.refl _, List.suffix_rfl, Nat.zero_le _, rfl⟩
  | append_singleton calls call ih =>
    rw [Drawn.run, List.foldl_append, List.foldl_cons, List.foldl_nil]
    cases call with
    | add matchesStarted event => exact drawnInOrder_add ih matchesStarted event
    | take matchesStarted => exact drawnInOrder_take ih matchesStarted

/-! ### What one Take does -/

/-- Where what satisfies `p` comes first, dropping it is leaving it out. -/
theorem dropWhile_eq_filter {γ : Type} {p : γ → Bool} {items : List γ}
    (hfirst : items.Pairwise fun a b => p b = true → p a = true) :
    items.dropWhile p = items.filter fun item => !p item := by
  induction items with
  | nil => rfl
  | cons item rest ih =>
    rw [List.pairwise_cons] at hfirst
    cases hitem : p item with
    | true =>
      rw [List.dropWhile_cons_of_pos hitem, ih hfirst.2, List.filter_cons_of_neg (by simp [hitem])]
    | false =>
      rw [List.dropWhile_cons_of_neg (by simp [hitem]), List.filter_cons_of_pos (by simp [hitem])]
      refine congrArg _ (List.filter_eq_self.mpr fun other hother => ?_).symm
      rw [Bool.not_eq_true', ← Bool.not_eq_true]
      exact fun hp => absurd (hfirst.1 other hother hp) (by simp [hitem])

/-- And taking it is keeping it alone. -/
theorem takeWhile_eq_filter {γ : Type} {p : γ → Bool} {items : List γ}
    (hfirst : items.Pairwise fun a b => p b = true → p a = true) :
    items.takeWhile p = items.filter p := by
  induction items with
  | nil => rfl
  | cons item rest ih =>
    rw [List.pairwise_cons] at hfirst
    cases hitem : p item with
    | true => rw [List.takeWhile_cons_of_pos hitem, ih hfirst.2, List.filter_cons_of_pos hitem]
    | false =>
      rw [List.takeWhile_cons_of_neg (by simp [hitem]), List.filter_cons_of_neg (by simp [hitem])]
      refine (List.filter_eq_nil_iff.mpr fun other hother hp => ?_).symm
      exact absurd (hfirst.1 other hother hp) (by simp [hitem])

/-- Of events in the order of their Matches, a `Take` returns its own Match's, and keeps the later
    ones'. -/
theorem take_exact {pending : Pending α}
    (hsorted : pending.events.Pairwise fun a b => a.1 ≤ b.1) (matchesStarted : UInt32) :
    (pending.take matchesStarted).1 =
        (pending.events.filter fun kept => kept.1 = matchesStarted).map (·.2) ∧
      (pending.take matchesStarted).2.events =
        pending.events.filter fun kept => matchesStarted < kept.1 := by
  have hdropped : (pending.dropBefore matchesStarted).events =
      pending.events.filter fun kept => !decide (kept.1 < matchesStarted) :=
    dropWhile_eq_filter (hsorted.imp fun {a b} hle hb => by
      simp only [decide_eq_true_eq, UInt32.lt_iff_toNat_lt, UInt32.le_iff_toNat_le] at hle hb ⊢
      omega)
  have hfirst : (pending.events.filter fun kept => !decide (kept.1 < matchesStarted)).Pairwise
      fun a b => (b.1 == matchesStarted) = true → (a.1 == matchesStarted) = true := by
    rw [List.pairwise_filter]
    refine hsorted.imp fun {a b} hle ha hb hsame => ?_
    simp only [Bool.not_eq_true', decide_eq_false_iff_not, beq_iff_eq, UInt32.lt_iff_toNat_lt,
      UInt32.le_iff_toNat_le, ← UInt32.toNat_inj] at *
    omega
  constructor
  · change ((pending.dropBefore matchesStarted).events.takeWhile _).map _ = _
    rw [hdropped, takeWhile_eq_filter hfirst, List.filter_filter]
    congr 2
    funext kept
    rw [← Bool.coe_iff_coe]
    simp only [Bool.and_eq_true, Bool.not_eq_true', decide_eq_false_iff_not, beq_iff_eq,
      decide_eq_true_eq, UInt32.lt_iff_toNat_lt, ← UInt32.toNat_inj]
    omega
  · change (pending.dropBefore matchesStarted).events.dropWhile _ = _
    rw [hdropped, dropWhile_eq_filter hfirst, List.filter_filter]
    congr 1
    funext kept
    rw [← Bool.coe_iff_coe]
    simp only [Bool.and_eq_true, Bool.not_eq_true', decide_eq_false_iff_not, beq_eq_false_iff_ne,
      ne_eq, decide_eq_true_eq, UInt32.lt_iff_toNat_lt, ← UInt32.toNat_inj]
    omega

/-! ### Each event by its number -/

theorem step_map (f : α → β) (drawn : Drawn α) (call : PendingCall α) :
    (drawn.map f).step (call.map f) = (drawn.step call).map f := by
  cases call with
  | add matchesStarted event =>
    have hdropped : ((drawn.map f).pending.dropBefore matchesStarted).events =
        (drawn.pending.dropBefore matchesStarted).events.map
          fun (started, event) => (started, f event) := by
      simp [Drawn.map, Pending.dropBefore, List.dropWhile_map, Function.comp_def]
    have hover : (drawn.map f).pending.limit = drawn.pending.limit := rfl
    simp only [Drawn.step, PendingCall.map, Pending.add, hdropped, hover, List.length_append,
      List.length_map, List.length_singleton]
    simp only [Drawn.map]
    split_ifs
    · simp [Pending.dropBefore]
    · simp [Pending.dropBefore]
  | take matchesStarted =>
    simp [Drawn.step, Drawn.map, PendingCall.map, Pending.take, Pending.dropBefore,
      List.dropWhile_map, List.takeWhile_map, Function.comp_def]

/-- What is done with an event does not depend on what it is. -/
theorem run_map (f : α → β) (limit : ℕ) (calls : List (PendingCall α)) :
    Drawn.run limit (calls.map (·.map f)) = (Drawn.run limit calls).map f := by
  have hfold (drawn : Drawn α) : (calls.map (·.map f)).foldl Drawn.step (drawn.map f) =
      (calls.foldl Drawn.step drawn).map f := by
    induction calls generalizing drawn with
    | nil => rfl
    | cons call rest ih => rw [List.map_cons, List.foldl_cons, step_map, ih, List.foldl_cons]
  exact hfold { pending := { limit } }

theorem added_map (f : α → β) (calls : List (PendingCall α)) :
    added (calls.map (·.map f)) = (added calls).map fun (started, event) => (started, f event) := by
  rw [added, added, List.filterMap_map, List.map_filterMap]
  congr 1
  funext call
  cases call <;> rfl

theorem map_numbered (calls : List (PendingCall α)) :
    (numbered calls).map (·.map Prod.snd) = calls := by
  refine List.ext_getElem (by simp [numbered]) fun i _ _ => ?_
  simp only [numbered, List.getElem_map, List.getElem_mapIdx]
  cases calls[i] <;> rfl

theorem mem_added_numbered {calls : List (PendingCall α)} {entry : UInt32 × ℕ × α}
    (h : entry ∈ added (numbered calls)) : calls[entry.2.1]? = some (.add entry.1 entry.2.2) := by
  obtain ⟨call, hcall, hentry⟩ := List.mem_filterMap.mp h
  obtain ⟨i, hi, rfl⟩ := List.mem_mapIdx.mp hcall
  cases hat : calls[i] with
  | add matchesStarted event =>
    rw [hat] at hentry
    obtain rfl := Option.some.inj hentry
    exact (List.getElem?_eq_getElem hi).trans (congrArg some hat)
  | take matchesStarted =>
    rw [hat] at hentry
    cases hentry

theorem pairwise_added_numbered (calls : List (PendingCall α)) :
    (added (numbered calls)).Pairwise fun a b => a.2.1 < b.2.1 := by
  rw [added, List.pairwise_filterMap, List.pairwise_iff_getElem]
  intro i j hi hj hlt a ha b hb
  have hnumber : ∀ (k : ℕ) (hk : k < (numbered calls).length) (entry : UInt32 × ℕ × α),
      (numbered calls)[k].asAdded = some entry → entry.2.1 = k := by
    intro k hk entry hentry
    simp only [numbered, List.getElem_mapIdx] at hentry
    have hcalls : k < calls.length := by simpa [numbered] using hk
    cases hat : calls[k] with
    | add matchesStarted event =>
      rw [hat] at hentry
      obtain rfl := Option.some.inj hentry
      rfl
    | take matchesStarted =>
      rw [hat] at hentry
      cases hentry
  rw [hnumber i hi a ha, hnumber j hj b hb]
  exact hlt

/-- CORRECT: whichever way adds and takes interleave, each event is taken at most once, for the
    Match it was added for, in the order added; the newest few are kept; and a take returns what is
    kept of its Match and leaves the later ones'. -/
theorem pending_taken_once (limit : ℕ) (calls : List (PendingCall α))
    (hsorted : (added calls).Pairwise fun a b => a.1 ≤ b.1) :
    let drawn := Drawn.run limit (numbered calls)
    drawn.map Prod.snd = Drawn.run limit calls ∧
    (∀ entry ∈ drawn.events ++ drawn.pending.events,
      calls[entry.2.1]? = some (.add entry.1 entry.2.2)) ∧
    ((drawn.events ++ drawn.pending.events).Pairwise fun a b => a.2.1 < b.2.1) ∧
    drawn.pending.events <:+ added (numbered calls) ∧ drawn.pending.events.length ≤ limit ∧
    ∀ matchesStarted,
      (drawn.pending.take matchesStarted).1 =
          (drawn.pending.events.filter fun kept => kept.1 = matchesStarted).map (·.2) ∧
        (drawn.pending.take matchesStarted).2.events =
          drawn.pending.events.filter fun kept => matchesStarted < kept.1 := by
  intro drawn
  have hdrawn : DrawnInOrder limit (numbered calls) drawn := drawnInOrder_run limit (numbered calls)
  have hmatches : (added (numbered calls)).map (fun entry => (entry.1, entry.2.2)) = added calls := by
    conv_rhs => rw [← map_numbered calls, added_map]
  refine ⟨?_, fun entry hentry => mem_added_numbered (hdrawn.once.subset hentry),
    (pairwise_added_numbered calls).sublist hdrawn.once, hdrawn.newest, hdrawn.few, ?_⟩
  · change (Drawn.run limit (numbered calls)).map Prod.snd = _
    rw [← run_map, map_numbered]
  · refine take_exact ?_
    refine List.Pairwise.sublist hdrawn.newest.sublist ?_
    rw [← hmatches, List.pairwise_map] at hsorted
    exact hsorted

end

/-- A reader that has not seen the second Match start yet, and one event too many. -/
def lateReader : List (PendingCall ℕ) :=
  [.add 1 10, .take 1, .add 1 11, .add 2 12, .take 1, .add 2 13, .add 2 14, .take 2]

theorem pending_taken_once_lateReader :
    (Drawn.run 2 lateReader).taken = [(1, [10]), (1, []), (2, [13, 14])] ∧
      ((Drawn.run 2 (numbered lateReader)).events ++
        (Drawn.run 2 (numbered lateReader)).pending.events).Pairwise fun a b => a.2.1 < b.2.1 :=
  ⟨by decide, (pending_taken_once 2 lateReader (by decide)).2.2.1⟩

end Augusta.Harness
