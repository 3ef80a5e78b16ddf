import Augusta.Host.CaptureWriter
import Augusta.Lib.Log

/-! What the writer's queue and its files hold of a Match, whatever its thread has done.

      pushed m  =  written m  ++  in hand and queued of m          no item of m has failed
      files m   =  written m, flattened                            no write of m has failed

    An item of m that failed ends its file, and a write that did may leave bytes of its item there. The queue is in order: a file is opened with none open, and has its
    records before its close. -/

namespace Augusta.Host
open Lib (Table entriesOf)
open Capture

namespace Item

/-- What is written for the item, if it is of the Match. -/
def frameOf (m : MatchId) : Item → Option Encoded
  | .kOpen n e | .kRecord n e => if n = m then some e else none
  | .kClose _ => none

@[simp] theorem frameOf_kOpen (m : MatchId) (e : Encoded) : (kOpen m e).frameOf m = some e :=
  if_pos rfl

@[simp] theorem frameOf_kRecord (m : MatchId) (e : Encoded) :
    (kRecord m e).frameOf m = some e := if_pos rfl

/-- The Match whose file the item opens. -/
def opening : Item → Option MatchId
  | .kOpen m _ => some m
  | _ => none

/-- The Match of the file open after the item. -/
def advance (current : Option MatchId) : Item → Option MatchId
  | .kOpen m _ => some m
  | .kRecord .. => current
  | .kClose _ => none

def Allowed (current : Option MatchId) : Item → Prop
  | .kOpen .. => current = none
  | .kRecord m _ => current = some m
  | .kClose m => current = none ∨ current = some m

theorem frameOf_eq_some {m : MatchId} {e : Encoded} {item : Item}
    (h : item.frameOf m = some e) : item = .kOpen m e ∨ item = .kRecord m e := by
  cases item with
  | kOpen n e' =>
      simp only [frameOf, Option.ite_none_right_eq_some, Option.some.injEq] at h
      exact .inl (by rw [h.1, h.2])
  | kRecord n e' =>
      simp only [frameOf, Option.ite_none_right_eq_some, Option.some.injEq] at h
      exact .inr (by rw [h.1, h.2])
  | kClose n => cases h

/-- A piece of a Match is handled with its file open, or with none. -/
theorem allowed_frame {m : MatchId} {e : Encoded} {item : Item} {current : Option MatchId}
    (h : item.frameOf m = some e) (hallowed : item.Allowed current) :
    (current = none ∨ current = some m) ∧ item.advance current = some m := by
  rcases frameOf_eq_some h with rfl | rfl
  · exact ⟨.inl hallowed, rfl⟩
  · exact ⟨.inr hallowed, hallowed⟩

/-- A piece of one Match is none of another's. -/
theorem frameOf_other {m n : MatchId} {e : Encoded} {item : Item} (h : item.frameOf m = some e)
    (hne : n ≠ m) : item.frameOf n = none := by
  rcases frameOf_eq_some h with rfl | rfl <;> simp [frameOf, Ne.symm hne]

end Item

/-- Items in an order they can be handled in. -/
def Ordered : Option MatchId → List Item → Prop
  | _, [] => True
  | current, item :: rest => item.Allowed current ∧ Ordered (item.advance current) rest

/-- The Match of the file open once the items are handled. -/
def openAfter (current : Option MatchId) (items : List Item) : Option MatchId :=
  items.foldl Item.advance current

theorem ordered_concat {items : List Item} {item : Item} : ∀ {current : Option MatchId},
    Ordered current (items ++ [item]) ↔
      Ordered current items ∧ item.Allowed (openAfter current items) := by
  induction items with
  | nil => intro current; simp [Ordered, openAfter]
  | cons first rest ih =>
    intro current
    rw [List.cons_append]
    simp only [Ordered, openAfter, List.foldl_cons, and_assoc]
    rw [ih]
    rfl

@[simp] theorem openAfter_concat (current : Option MatchId) (items : List Item) (item : Item) :
    openAfter current (items ++ [item]) = item.advance (openAfter current items) := by
  simp [openAfter]

/-- Records dropped, the rest is in order. -/
theorem ordered_filter {m : MatchId} {items : List Item} : ∀ {current : Option MatchId},
    Ordered current items → Ordered current (items.filter fun item => ¬ item.isRecordOf m) := by
  induction items with
  | nil => intro current h; exact h
  | cons first rest ih =>
    intro current h
    rw [List.filter_cons]
    split
    · exact ⟨h.1, ih h.2⟩
    · next hrecord =>
      cases first with
      | kRecord n e => exact ih h.2
      | kOpen n e => simp [Item.isRecordOf] at hrecord
      | kClose n => simp [Item.isRecordOf] at hrecord

/-- The records of the Match dropped, what is left is in order with no file open. -/
theorem ordered_filter_none {m : MatchId} {items : List Item} (h : Ordered (some m) items) :
    Ordered none (items.filter fun item => ¬ item.isRecordOf m) := by
  induction items with
  | nil => exact h
  | cons first rest ih =>
    cases first with
    | kOpen n e => cases h.1
    | kRecord n e =>
      have hn : some m = some n := h.1
      cases hn
      rw [List.filter_cons_of_neg (by simp [Item.isRecordOf])]
      exact ih h.2
    | kClose n =>
      rw [List.filter_cons_of_pos (by simp [Item.isRecordOf])]
      exact ⟨.inl rfl, ordered_filter h.2⟩

/-- Records open and close nothing. -/
theorem openAfter_filter {m : MatchId} {items : List Item} : ∀ (current : Option MatchId),
    openAfter current (items.filter fun item => ¬ item.isRecordOf m) =
      openAfter current items := by
  induction items with
  | nil => intro current; rfl
  | cons first rest ih =>
    intro current
    rw [List.filter_cons]
    split
    · exact ih _
    · next hrecord =>
      cases first with
      | kRecord n e => exact ih _
      | kOpen n e => simp [Item.isRecordOf] at hrecord
      | kClose n => simp [Item.isRecordOf] at hrecord

/-- Either the items open or close a file, or the one open stays. -/
theorem openAfter_cases (items : List Item) :
    (∀ current, openAfter current items = current) ∨
      ∀ current other, openAfter current items = openAfter other items := by
  induction items with
  | nil => exact .inl fun _ => rfl
  | cons first rest ih =>
    cases first with
    | kOpen n e => exact .inr fun _ _ => rfl
    | kRecord n e => exact ih
    | kClose n => exact .inr fun _ _ => rfl

namespace Writer

/-- What is in hand and queued. -/
def items (w : Writer) : List Item :=
  match w.hand with
  | .holding item => item :: w.queue
  | _ => w.queue

/-- The Match of the file open; of the item that failed, until that is noted. -/
def current (w : Writer) : Option MatchId :=
  match w.hand with
  | .failed m _ => some m
  | _ => w.fileMatch

def pending (w : Writer) (m : MatchId) : List Encoded := w.items.filterMap (·.frameOf m)

def written (w : Writer) (m : MatchId) : List Encoded := entriesOf m w.wrote

def opens (w : Writer) : List MatchId := w.items.filterMap Item.opening

/-- What the stream holds of the Match's last item. -/
def heldOf (w : Writer) (m : MatchId) : Encoded := if w.fileMatch = some m then w.held else []

structure Pipeline (w : Writer) : Prop where
  ordered : Ordered w.current w.items
  opensNodup : w.opens.Nodup
  unopened : ∀ m ∈ w.opens, w.written m = [] ∧ w.files.lookup m = none ∧ m ∉ w.failed
  flow : ∀ m ∉ w.failed, w.written m ++ w.pending m = entriesOf m w.pushed
  flowFailed : ∀ m, w.written m <+: entriesOf m w.pushed
  intact : ∀ m ∉ w.broken, ∀ bytes, w.files.lookup m = some bytes →
    bytes = (w.written m).flatten ∧ w.written m ≠ []
  torn : ∀ m ∈ w.broken, ∀ bytes, w.files.lookup m = some bytes →
    ∃ next torn, bytes = (w.written m).flatten ++ torn ∧ torn ++ w.heldOf m <+: next ∧
      w.written m ++ [next] <+: entriesOf m w.pushed
  heldNone : ∀ m ∉ w.broken, w.fileMatch = some m → w.held = []
  brokenFailed : ∀ m ∈ w.broken, m ∈ w.failed
  present : ∀ m, w.fileMatch = some m → ∃ bytes, w.files.lookup m = some bytes
  kept : ∀ m, w.written m ≠ [] → m ∈ w.deleted ∨ ∃ bytes, w.files.lookup m = some bytes
  handFailed : ∀ m step, w.hand = .failed m step →
    m ∈ w.failed ∧ (w.fileMatch = none ∨ w.fileMatch = some m)
  failedGone : ∀ m ∈ w.failed, (∃ step, w.hand = .failed m step) ∨ w.pending m = [] ∧ m ∈ w.lost
  failedPushed : ∀ m ∈ w.failed, entriesOf m w.pushed ≠ []
  stoppedLost : ∀ m ∈ w.stopped, m ∈ w.lost

theorem pipeline_start (mode : CaptureMode) (capacity : ℕ) :
    Pipeline { mode, capacity } where
  ordered := trivial
  opensNodup := List.nodup_nil
  unopened _ h := nomatch h
  flow _ _ := rfl
  flowFailed _ := List.prefix_rfl
  intact _ _ _ h := nomatch h
  torn _ h := nomatch h
  heldNone _ _ h := nomatch h
  brokenFailed _ h := nomatch h
  present _ h := nomatch h
  kept _ h := absurd rfl h
  handFailed _ _ h := nomatch h
  failedGone _ h := nomatch h
  failedPushed _ h := nomatch h
  stoppedLost _ h := nomatch h

/-! ### Stops and refusals -/

/-- A stop touches nothing of the queue or the files. -/
theorem stopLocked_eq (w : Writer) (m : MatchId) (step : CaptureStep) :
    ∃ stopped lost loss health, w.stopLocked m step = { w with stopped, lost, loss, health } ∧
      (∀ n, n ∈ stopped ↔ n ∈ w.stopped ∨ n = m) ∧ (∀ n ∈ w.lost, n ∈ lost) ∧
      (∀ n ∈ lost, n ∈ w.lost ∨ n = m) ∧ (m ∉ w.stopped → m ∈ lost) := by
  unfold stopLocked loseLocked
  split_ifs with hstopped hhealth
  · refine ⟨w.stopped, w.lost, w.loss, w.health, rfl, ?_, fun _ h => h, fun _ h => .inl h,
      fun h => absurd hstopped h⟩
    rintro n
    exact ⟨.inl, fun h => h.elim id fun h => h ▸ hstopped⟩
  all_goals
    refine ⟨_, _, _, _, rfl, ?_, ?_, ?_, ?_⟩
    · intro n; simp [or_comm]
    · intro n h; simp [h]
    · intro n h; simpa using h
    · intro _; simp

theorem mem_stopLocked (w : Writer) (m : MatchId) (step : CaptureStep) :
    m ∈ (w.stopLocked m step).stopped := by
  obtain ⟨stopped, lost, loss, health, heq, hmem, -⟩ := w.stopLocked_eq m step
  rw [heq]
  exact (hmem m).mpr (.inr rfl)

theorem Pipeline.stopLocked {w : Writer} (h : w.Pipeline) (m : MatchId) (step : CaptureStep) :
    (w.stopLocked m step).Pipeline := by
  obtain ⟨stopped, lost, loss, health, heq, hmem, hgrow, -, hnew⟩ := w.stopLocked_eq m step
  rw [heq]
  refine { h with failedGone := ?_, stoppedLost := ?_ }
  · intro n hn
    exact (h.failedGone n hn).imp_right fun hgone => ⟨hgone.1, hgrow n hgone.2⟩
  · intro n hn
    by_cases hm : n ∈ w.stopped
    · exact hgrow n (h.stoppedLost n hm)
    · rcases (hmem n).mp hn with hold | rfl
      · exact absurd hold hm
      · exact hnew hm

theorem Pipeline.refuse {w : Writer} (h : w.Pipeline) (m : MatchId) : (w.refuse m).Pipeline :=
  { h with }

/-! ### Items queued -/

theorem items_append (w : Writer) (item : Item) :
    { w with queue := w.queue ++ [item] }.items = w.items ++ [item] := by
  unfold items
  cases w.hand <;> rfl

/-- The Match of the file open once everything queued is handled. -/
def finallyOpen (w : Writer) : Option MatchId := openAfter w.current w.items

/-- A file's Close is queued while it is the one open, or none is. -/
theorem Pipeline.close {w : Writer} {m : MatchId} (h : w.Pipeline)
    (hopen : w.finallyOpen = none ∨ w.finallyOpen = some m) : (w.close m).Pipeline := by
  have hitems : (w.close m).items = w.items ++ [.kClose m] := items_append w _
  have hopens : (w.close m).opens = w.opens := by simp [opens, hitems, Item.opening]
  have hpending : ∀ n, (w.close m).pending n = w.pending n := fun n => by
    simp [pending, hitems, Item.frameOf]
  refine { h with ordered := ?_, opensNodup := ?_, unopened := ?_, flow := ?_, failedGone := ?_ }
  · rw [hitems]; exact ordered_concat.mpr ⟨h.ordered, hopen⟩
  · rw [hopens]; exact h.opensNodup
  · rw [hopens]; exact h.unopened
  · intro n hn; rw [hpending]; exact h.flow n hn
  · intro n hn; rw [hpending]; exact h.failedGone n hn

/-- Nothing is known of a Match none of whose pieces was queued. -/
theorem Pipeline.untouched {w : Writer} {m : MatchId} (h : w.Pipeline)
    (hnone : entriesOf m w.pushed = []) :
    w.written m = [] ∧ w.pending m = [] ∧ m ∉ w.failed ∧ w.files.lookup m = none := by
  have hfailed : m ∉ w.failed := fun hm => h.failedPushed m hm hnone
  have hflow := h.flow m hfailed
  rw [hnone, List.append_eq_nil_iff] at hflow
  refine ⟨hflow.1, hflow.2, hfailed, ?_⟩
  cases hfile : w.files.lookup m with
  | none => rfl
  | some bytes =>
      exact absurd hflow.1 (h.intact m (mt (h.brokenFailed m) hfailed) bytes hfile).2

theorem mem_opens {w : Writer} {m : MatchId} : m ∈ w.opens ↔ ∃ e, Item.kOpen m e ∈ w.items := by
  rw [opens, List.mem_filterMap]
  constructor
  · rintro ⟨item, hitem, hopening⟩
    cases item with
    | kOpen n e => cases hopening; exact ⟨e, hitem⟩
    | kRecord n e => cases hopening
    | kClose n => cases hopening
  · rintro ⟨e, hitem⟩
    exact ⟨_, hitem, rfl⟩

/-- An item of the Match is pending. -/
theorem mem_pending {w : Writer} {m : MatchId} {e : Encoded} {item : Item}
    (hitem : item ∈ w.items) (hframe : item.frameOf m = some e) : e ∈ w.pending m :=
  List.mem_filterMap.mpr ⟨item, hitem, hframe⟩

/-- A piece of a Match is queued at the end of what is in order. -/
theorem Pipeline.give {w : Writer} {m : MatchId} {e : Encoded} {item : Item} (h : w.Pipeline)
    (hframe : item.frameOf m = some e) (hallowed : item.Allowed w.finallyOpen)
    (hlost : m ∉ w.lost) (hfresh : item.opening = none ∨ entriesOf m w.pushed = []) (n : ℕ) :
    { w with
      recordsQueued := n
      queue := w.queue ++ [item]
      pushed := w.pushed ++ [(m, e)] }.Pipeline := by
  have hitems : w.items ++ [item] =
      { w with
        recordsQueued := n, queue := w.queue ++ [item], pushed := w.pushed ++ [(m, e)] }.items :=
    (items_append w item).symm
  have hbefore : ∀ k, entriesOf k w.pushed <+: entriesOf k (w.pushed ++ [(m, e)]) := fun k => by
    rw [Lib.entriesOf_append]; exact List.prefix_append _ _
  have hpending : ∀ k, k ≠ m → (w.items ++ [item]).filterMap (·.frameOf k) = w.pending k :=
    fun k hk => by
      rw [List.filterMap_append, List.filterMap_cons_none (Item.frameOf_other hframe hk),
        List.filterMap_nil, List.append_nil]
      rfl
  have hopens : (w.items ++ [item]).filterMap Item.opening = w.opens ∨
      (w.items ++ [item]).filterMap Item.opening = w.opens ++ [m] ∧
        entriesOf m w.pushed = [] := by
    rw [List.filterMap_append]
    rcases Item.frameOf_eq_some hframe with rfl | rfl
    · exact .inr ⟨rfl, hfresh.resolve_left (by simp [Item.opening])⟩
    · exact .inl (List.append_nil _)
  refine { h with
    ordered := ?_, opensNodup := ?_, unopened := ?_, flow := ?_, flowFailed := ?_, torn := ?_
    failedGone := ?_, failedPushed := ?_ }
  · rw [← hitems]; exact ordered_concat.mpr ⟨h.ordered, hallowed⟩
  · unfold opens
    rw [← hitems]
    rcases hopens with hopens | ⟨hopens, hnone⟩
    · rw [hopens]; exact h.opensNodup
    · rw [hopens]
      refine List.nodup_append.mpr ⟨h.opensNodup, List.nodup_singleton _, ?_⟩
      rintro a ha b hb rfl
      rw [List.mem_singleton] at hb
      subst hb
      obtain ⟨e', hopen⟩ := mem_opens.mp ha
      have hmem := mem_pending hopen (Item.frameOf_kOpen a e')
      rw [(h.untouched hnone).2.1] at hmem
      cases hmem
  · unfold opens
    rw [← hitems]
    rcases hopens with hopens | ⟨hopens, hnone⟩
    · rw [hopens]; exact h.unopened
    · rw [hopens]
      intro k hk
      rw [List.mem_append, List.mem_singleton] at hk
      rcases hk with hk | rfl
      · exact h.unopened k hk
      · obtain ⟨hwritten, -, hfailed, hfile⟩ := h.untouched hnone
        exact ⟨hwritten, hfile, hfailed⟩
  · intro k hk
    unfold pending
    rw [← hitems, Lib.entriesOf_append, ← h.flow k hk, List.append_assoc]
    congr 1
    by_cases hkm : k = m
    · subst hkm
      rw [Lib.entriesOf_same, List.filterMap_append, List.filterMap_cons_some hframe]
      rfl
    · rw [hpending k hkm, Lib.entriesOf_other (Ne.symm hkm), List.append_nil]
  · intro k
    exact (h.flowFailed k).trans (hbefore k)
  · intro k hk bytes hfile
    obtain ⟨next, torn, hbytes, hheld, hnext⟩ := h.torn k hk bytes hfile
    exact ⟨next, torn, hbytes, hheld, hnext.trans (hbefore k)⟩
  · intro k hk
    rcases h.failedGone k hk with hhand | ⟨hnone, hgone⟩
    · exact .inl hhand
    · refine .inr ⟨?_, hgone⟩
      unfold pending
      rw [← hitems, hpending k (fun heq => hlost (heq ▸ hgone)), hnone]
  · intro k hk hnone
    rw [Lib.entriesOf_append, List.append_eq_nil_iff] at hnone
    exact h.failedPushed k hk hnone.1

/-! ### Items taken in hand -/

theorem take_eq_some {w w' : Writer} (h : w.take = some w') :
    ∃ item rest n, w.hand = .idle ∧ w.queue = item :: rest ∧
      w' = { w with hand := .holding item, queue := rest, recordsQueued := n } := by
  unfold take at h
  split at h
  · next item rest hhand hqueue => cases h; exact ⟨item, rest, _, hhand, hqueue, rfl⟩
  · cases h

theorem Pipeline.take {w w' : Writer} (h : w.Pipeline) (htake : w.take = some w') :
    w'.Pipeline ∧ w'.items = w.items ∧ w'.current = w.current := by
  obtain ⟨item, rest, n, hhand, hqueue, rfl⟩ := take_eq_some htake
  have hitems : w.items = item :: rest := by simp [items, hhand, hqueue]
  have hcurrent : w.current = w.fileMatch := by simp [current, hhand]
  refine ⟨?_, hitems.symm, hcurrent.symm⟩
  refine { h with
    ordered := ?_, opensNodup := ?_, unopened := ?_, flow := ?_, handFailed := ?_
    failedGone := ?_ }
  · have := h.ordered; rwa [hitems, hcurrent] at this
  · have := h.opensNodup; rwa [opens, hitems] at this
  · have := h.unopened; rwa [opens, hitems] at this
  · have := h.flow; simp only [pending, hitems] at this; exact this
  · intro m step hfailed; cases hfailed
  · intro m hm
    rcases h.failedGone m hm with ⟨step, hfailed⟩ | hgone
    · rw [hhand] at hfailed; cases hfailed
    · rw [pending, hitems] at hgone; exact .inr hgone

/-! ### Items handled -/

theorem lookup_retain (w : Writer) (m : MatchId) (disk : Disk) (n : MatchId) :
    (w.retain m disk).files.lookup n =
      if n ∈ disk.deleted ∧ n ≠ m then none else w.files.lookup n := by
  simp only [retain, AList.lookup_filter, List.mem_filter, decide_eq_true_eq]
  split_ifs with hgone
  · cases w.files.lookup n with
    | none => rfl
    | some bytes => simp [hgone]
  · cases w.files.lookup n with
    | none => rfl
    | some bytes => simp [hgone]

/-- Retention deletes no file being written. -/
theorem Pipeline.retain {w : Writer} {m : MatchId} (h : w.Pipeline)
    (hfile : w.fileMatch = none ∨ w.fileMatch = some m) (disk : Disk) :
    (w.retain m disk).Pipeline := by
  have hold : ∀ n bytes, (w.retain m disk).files.lookup n = some bytes →
      w.files.lookup n = some bytes := by
    intro n bytes hlookup
    rw [lookup_retain] at hlookup
    split_ifs at hlookup
    exact hlookup
  refine { h with unopened := ?_, intact := ?_, torn := ?_, present := ?_, kept := ?_ }
  · intro n hn
    obtain ⟨hwritten, hnone, hfailed⟩ := h.unopened n hn
    refine ⟨hwritten, ?_, hfailed⟩
    rw [lookup_retain, hnone, ite_self]
  · intro n hn bytes hlookup; exact h.intact n hn bytes (hold n bytes hlookup)
  · intro n hn bytes hlookup; exact h.torn n hn bytes (hold n bytes hlookup)
  · intro n hn
    have hnm : n = m := by
      rcases hfile with hnone | hsome
      · exact absurd (hn.symm.trans hnone) (by simp)
      · exact Option.some.inj (hn.symm.trans hsome)
    obtain ⟨bytes, hbytes⟩ := h.present n hn
    exact ⟨bytes, by rw [lookup_retain, if_neg (fun hgone => hgone.2 hnm), hbytes]⟩
  · intro n hn
    by_cases hgone : n ∈ disk.deleted ∧ n ≠ m
    · left
      simp only [Writer.retain, List.mem_append, List.mem_filter]
      exact .inr ⟨hgone.1, by simp [hgone.2]⟩
    · rcases h.kept n hn with hdeleted | ⟨bytes, hbytes⟩
      · left
        simp only [Writer.retain, List.mem_append]
        exact .inl hdeleted
      · exact .inr ⟨bytes, by rw [lookup_retain, if_neg hgone, hbytes]⟩

/-- What is known of a Match as a piece of it is about to be handled. -/
structure Holding (w : Writer) (m : MatchId) (e : Encoded) (item : Item) : Prop where
  hand : w.hand = .holding item
  frame : item.frameOf m = some e
  file : w.fileMatch = none ∨ w.fileMatch = some m
  rest : Ordered (some m) w.queue
  opens : m ∉ w.queue.filterMap Item.opening
  sound : m ∉ w.failed
  unbroken : m ∉ w.broken
  next : w.written m ++ e :: w.queue.filterMap (·.frameOf m) = entriesOf m w.pushed

theorem Pipeline.holding {w : Writer} {m : MatchId} {e : Encoded} {item : Item} (h : w.Pipeline)
    (hhand : w.hand = .holding item) (hframe : item.frameOf m = some e) :
    w.Holding m e item := by
  have hitems : w.items = item :: w.queue := by simp [items, hhand]
  have hcurrent : w.current = w.fileMatch := by simp [current, hhand]
  have hordered := h.ordered
  rw [hitems, hcurrent] at hordered
  obtain ⟨hfile, hadvance⟩ := Item.allowed_frame hframe hordered.1
  have hpending : w.pending m = e :: w.queue.filterMap (·.frameOf m) := by
    rw [pending, hitems, List.filterMap_cons_some hframe]
  have hsound : m ∉ w.failed := by
    intro hm
    rcases h.failedGone m hm with ⟨step, hfailed⟩ | ⟨hgone, -⟩
    · rw [hhand] at hfailed; cases hfailed
    · rw [hpending] at hgone; cases hgone
  refine ⟨hhand, hframe, hfile, hadvance ▸ hordered.2, ?_, hsound,
    mt (h.brokenFailed m) hsound, hpending ▸ h.flow m hsound⟩
  intro hm
  rcases Item.frameOf_eq_some hframe with rfl | rfl
  · have hnodup := h.opensNodup
    rw [Writer.opens, hitems, List.filterMap_cons_some (by rfl)] at hnodup
    exact (List.nodup_cons.mp hnodup).1 hm
  · have hmem : m ∈ w.opens := by
      rw [Writer.opens, hitems, List.filterMap_cons_none (by rfl)]
      exact hm
    obtain ⟨bytes, hbytes⟩ := h.present m hordered.1
    rw [(h.unopened m hmem).2.1] at hbytes
    cases hbytes

theorem Holding.pending_other {w : Writer} {m n : MatchId} {e : Encoded} {item : Item}
    (hold : w.Holding m e item) (hne : n ≠ m) :
    w.pending n = w.queue.filterMap (·.frameOf n) := by
  rw [pending, items, hold.hand]
  exact List.filterMap_cons_none (Item.frameOf_other hold.frame hne)

/-- A file opened by an item still queued is not that of the item in hand. -/
theorem Holding.mem_opens {w : Writer} {m n : MatchId} {e : Encoded} {item : Item}
    (hold : w.Holding m e item) (hn : n ∈ w.queue.filterMap Item.opening) :
    n ∈ w.opens ∧ n ≠ m := by
  refine ⟨?_, fun heq => hold.opens (heq ▸ hn)⟩
  rw [Writer.opens, items, hold.hand, List.mem_filterMap]
  obtain ⟨item', hitem, hopening⟩ := List.mem_filterMap.mp hn
  exact ⟨item', List.mem_cons_of_mem _ hitem, hopening⟩

theorem Holding.opens_nodup {w : Writer} {m : MatchId} {e : Encoded} {item : Item}
    (h : w.Pipeline) (hold : w.Holding m e item) :
    (w.queue.filterMap Item.opening).Nodup := by
  have hnodup := h.opensNodup
  rw [Writer.opens, items, hold.hand] at hnodup
  exact hnodup.sublist ((List.sublist_cons_self _ _).filterMap _)

/-- What failed earlier has nothing left. -/
theorem Holding.failedGone {w : Writer} {m n : MatchId} {e : Encoded} {item : Item}
    (h : w.Pipeline) (hold : w.Holding m e item) (hn : n ∈ w.failed) :
    n ≠ m ∧ w.queue.filterMap (·.frameOf n) = [] ∧ n ∈ w.lost := by
  have hne : n ≠ m := fun heq => hold.sound (heq ▸ hn)
  refine ⟨hne, ?_⟩
  rcases h.failedGone n hn with ⟨step, hfailed⟩ | hgone
  · rw [hold.hand] at hfailed; cases hfailed
  · rwa [hold.pending_other hne] at hgone

theorem Holding.pushed_ne_nil {w : Writer} {m : MatchId} {e : Encoded} {item : Item}
    (hold : w.Holding m e item) : entriesOf m w.pushed ≠ [] := by
  rw [← hold.next]; simp

/-- The file of the item in hand ends here: whole, or with some of the item where its write was
    broken. -/
theorem Pipeline.broke {w : Writer} {m : MatchId} {e : Encoded} {item : Item} (h : w.Pipeline)
    (hold : w.Holding m e item) (step : CaptureStep) {files : Table MatchId Encoded}
    {held : Encoded} {fileMatch : Option MatchId} {broken : List MatchId}
    (hfile : fileMatch = none ∨ fileMatch = some m)
    (hother : ∀ n ≠ m, files.lookup n = w.files.lookup n)
    (hbroken : ∀ n ≠ m, n ∈ broken ↔ n ∈ w.broken)
    (hlanded : m ∈ broken → ∀ bytes, files.lookup m = some bytes →
      ∃ torn, bytes = (w.written m).flatten ++ torn ∧
        torn ++ (if fileMatch = some m then held else []) <+: e)
    (hwhole : m ∉ broken → (∀ bytes, files.lookup m = some bytes →
      bytes = (w.written m).flatten ∧ w.written m ≠ []) ∧ (fileMatch = some m → held = []))
    (hpresent : w.written m ≠ [] ∨ fileMatch = some m →
      m ∈ w.deleted ∧ fileMatch = none ∨ ∃ bytes, files.lookup m = some bytes) :
    (fail { w with files, held, fileMatch, broken } m step).Pipeline where
  ordered := hold.rest
  opensNodup := by
    have hnodup := hold.opens_nodup h
    exact hnodup
  unopened n hn := by
    obtain ⟨hmem, hne⟩ := hold.mem_opens hn
    obtain ⟨hwritten, hnone, hfailed⟩ := h.unopened n hmem
    exact ⟨hwritten, (hother n hne).trans hnone, by simpa [fail, hne] using hfailed⟩
  flow n hn := by
    simp only [fail, List.mem_append, List.mem_singleton, not_or] at hn
    have hflow := h.flow n hn.1
    rw [hold.pending_other hn.2] at hflow
    exact hflow
  flowFailed := h.flowFailed
  intact n hn bytes hlookup := by
    by_cases hnm : n = m
    · subst hnm
      exact (hwhole hn).1 bytes hlookup
    · exact h.intact n (mt (hbroken n hnm).mpr hn) bytes ((hother n hnm).symm.trans hlookup)
  torn n hn bytes hlookup := by
    by_cases hnm : n = m
    · subst hnm
      obtain ⟨torn, hbytes, hbefore⟩ := hlanded hn bytes hlookup
      exact ⟨e, torn, hbytes, hbefore, List.concat_prefix_of_append_cons hold.next⟩
    · obtain ⟨next, torn, hbytes, hheld, hnext⟩ :=
        h.torn n ((hbroken n hnm).mp hn) bytes ((hother n hnm).symm.trans hlookup)
      refine ⟨next, torn, hbytes, ?_, hnext⟩
      have hclosed : fileMatch ≠ some n := by
        rcases hfile with hfile | hfile <;> rw [hfile]
        · simp
        · exact fun heq => hnm (Option.some.inj heq).symm
      have hnone : heldOf (fail { w with files, held, fileMatch, broken } m step) n = [] :=
        if_neg hclosed
      rw [hnone, List.append_nil]
      exact (List.prefix_append _ _).trans hheld
  heldNone n hn hopen := by
    simp only [fail] at hn hopen
    rcases hfile with hfile | hfile
    · rw [hfile] at hopen; cases hopen
    · obtain rfl : m = n := Option.some.inj (hfile.symm.trans hopen)
      exact (hwhole hn).2 hfile
  brokenFailed n hn := by
    by_cases hnm : n = m
    · simp [fail, hnm]
    · simp [fail, h.brokenFailed n ((hbroken n hnm).mp hn)]
  present n hopen := by
    simp only [fail] at hopen ⊢
    rcases hfile with hfile | hfile
    · rw [hfile] at hopen; cases hopen
    · obtain rfl : m = n := Option.some.inj (hfile.symm.trans hopen)
      rcases hpresent (.inr hfile) with ⟨-, hnone⟩ | hbytes
      · rw [hfile] at hnone; cases hnone
      · exact hbytes
  kept n hn := by
    by_cases hnm : n = m
    · subst hnm
      exact (hpresent (.inl hn)).imp_left And.left
    · rcases h.kept n hn with hdeleted | ⟨bytes, hbytes⟩
      · exact .inl hdeleted
      · exact .inr ⟨bytes, (hother n hnm).trans hbytes⟩
  handFailed n step' hfailed := by
    cases hfailed
    exact ⟨by simp [fail], hfile⟩
  failedGone n hn := by
    by_cases hnm : n = m
    · exact .inl ⟨step, by rw [hnm]; rfl⟩
    · obtain ⟨-, hgone⟩ := hold.failedGone h (by simpa [fail, hnm] using hn : n ∈ w.failed)
      exact .inr hgone
  failedPushed n hn := by
    by_cases hnm : n = m
    · exact hnm ▸ hold.pushed_ne_nil
    · exact h.failedPushed n (by simpa [fail, hnm] using hn)
  stoppedLost := h.stoppedLost

/-- The item in hand is written, after all of its Match written before. -/
theorem Pipeline.wrote {w : Writer} {m : MatchId} {e : Encoded} {item : Item} (h : w.Pipeline)
    (hold : w.Holding m e item) :
    { w with
      hand := .idle
      files := w.files.insert m ((w.written m).flatten ++ e)
      fileMatch := some m
      held := []
      wrote := w.wrote ++ [(m, e)] }.Pipeline := by
  have hother : ∀ n ≠ m, (w.files.insert m ((w.written m).flatten ++ e)).lookup n =
      w.files.lookup n := fun n hne => AList.lookup_insert_ne hne
  have hwritten : ∀ n ≠ m, entriesOf n (w.wrote ++ [(m, e)]) = w.written n := fun n hne => by
    rw [Lib.entriesOf_append, Lib.entriesOf_other (Ne.symm hne), List.append_nil]; rfl
  have hnew : entriesOf m (w.wrote ++ [(m, e)]) = w.written m ++ [e] := by
    rw [Lib.entriesOf_append, Lib.entriesOf_same]; rfl
  have hnodup := hold.opens_nodup h
  refine { h with
    ordered := hold.rest, opensNodup := hnodup, unopened := ?_, flow := ?_, flowFailed := ?_
    intact := ?_, torn := ?_, heldNone := ?_, present := ?_, kept := ?_, handFailed := ?_
    failedGone := ?_ }
  · intro n hn
    obtain ⟨hmem, hne⟩ := hold.mem_opens hn
    obtain ⟨hold', hnone, hfailed⟩ := h.unopened n hmem
    exact ⟨(hwritten n hne).trans hold', (hother n hne).trans hnone, hfailed⟩
  · intro n hn
    by_cases hnm : n = m
    · subst hnm
      simp only [Writer.written, hnew, ← hold.next, List.append_assoc, List.singleton_append]
      rfl
    · simp only [Writer.written, hwritten n hnm]
      rw [← h.flow n hn, hold.pending_other hnm]
      rfl
  · intro n
    by_cases hnm : n = m
    · subst hnm
      simp only [Writer.written, hnew]
      exact List.concat_prefix_of_append_cons hold.next
    · simp only [Writer.written, hwritten n hnm]
      exact h.flowFailed n
  · intro n hn bytes hlookup
    by_cases hnm : n = m
    · subst hnm
      simp only [AList.lookup_insert, Option.some.injEq] at hlookup
      simp only [Writer.written, hnew]
      exact ⟨by rw [← hlookup]; simp [Writer.written], by simp⟩
    · simp only [Writer.written, hwritten n hnm]
      exact h.intact n hn bytes ((hother n hnm).symm.trans hlookup)
  · intro n hn bytes hlookup
    have hnm : n ≠ m := fun heq => hold.unbroken (heq ▸ hn)
    obtain ⟨next, torn, hbytes, hheld, hnext⟩ :=
      h.torn n hn bytes ((hother n hnm).symm.trans hlookup)
    simp only [Writer.written, hwritten n hnm]
    refine ⟨next, torn, hbytes, ?_, hnext⟩
    have hclosed : some m ≠ some n := fun heq => hnm (Option.some.inj heq).symm
    simp only [heldOf, if_neg hclosed, List.append_nil]
    exact (List.prefix_append _ _).trans hheld
  · intro n _ _; rfl
  · intro n hopen
    cases hopen
    exact ⟨_, AList.lookup_insert _⟩
  · intro n hn
    by_cases hnm : n = m
    · subst hnm
      exact .inr ⟨_, AList.lookup_insert _⟩
    · simp only [Writer.written, hwritten n hnm] at hn
      rcases h.kept n hn with hdeleted | ⟨bytes, hbytes⟩
      · exact .inl hdeleted
      · exact .inr ⟨bytes, (hother n hnm).trans hbytes⟩
  · intro n step hfailed; cases hfailed
  · intro n hn
    obtain ⟨-, hgone⟩ := hold.failedGone h hn
    exact .inr hgone

/-! ### The writer thread's steps -/

/-- A loss is noted in the health, and a strict capture's stops the captures. -/
def HealthSound (w : Writer) : Prop :=
  (w.lost ≠ [] → w.health ≠ .enabled) ∧ (w.mode = .strict → w.health ≠ .degraded)

theorem stopLocked_health (w : Writer) (m : MatchId) (step : CaptureStep) :
    (w.HealthSound → (w.stopLocked m step).HealthSound) ∧
      (w.health = .stopped → (w.stopLocked m step).health = .stopped) ∧
      (w.mode = .optional → w.health ≠ .stopped → (w.stopLocked m step).health ≠ .stopped) := by
  unfold stopLocked loseLocked
  split_ifs with hstopped hhealth hmode
  · exact ⟨id, id, fun _ => id⟩
  · exact ⟨fun h => ⟨fun _ => hhealth, h.2⟩, id, fun _ => id⟩
  · have hoptional : w.mode = .optional := hmode
    have henabled : w.health = .enabled := not_not.mp hhealth
    refine ⟨fun _ => ⟨fun _ => nofun, fun hstrict => ?_⟩, fun hstop => ?_, fun _ _ => nofun⟩
    · exact absurd (hoptional.symm.trans hstrict) (by decide)
    · exact absurd (henabled.symm.trans hstop) (by decide)
  · exact ⟨fun _ => ⟨fun _ => nofun, fun _ => nofun⟩, fun _ => rfl, fun h => absurd h hmode⟩

/-- What a step of the writer thread leaves of what the Simulation thread goes by. -/
structure Moves (w w' : Writer) : Prop where
  mode : w'.mode = w.mode
  pushed : w'.pushed = w.pushed
  refused : w'.refused = w.refused
  items : ∀ item ∈ w'.items, item ∈ w.items
  stopped : ∀ m ∈ w.stopped, Item.kClose m ∉ w.items → m ∈ w'.stopped
  lost : ∀ m ∈ w'.lost, m ∈ w.lost ∨ m ∈ w'.stopped ∧ entriesOf m w.pushed ≠ []
  growing : ∀ m ∈ w.lost, m ∈ w'.lost
  finallyOpen : w'.finallyOpen = w.finallyOpen ∨
    w'.finallyOpen = none ∧ ∃ m ∈ w'.stopped, w.finallyOpen = some m
  sound : w.HealthSound → w'.HealthSound
  health : w.health = .stopped → w'.health = .stopped
  optional : w.mode = .optional → w.health ≠ .stopped → w'.health ≠ .stopped

theorem Moves.take {w w' : Writer} (h : w.Pipeline) (htake : w.take = some w') :
    w.Moves w' := by
  obtain ⟨-, hitems, hcurrent⟩ := h.take htake
  obtain ⟨item, rest, n, hhand, hqueue, rfl⟩ := take_eq_some htake
  exact {
    mode := rfl, pushed := rfl, refused := rfl, stopped := fun _ hm _ => hm
    items := fun i hi => hitems ▸ hi
    lost := fun _ hm => .inl hm
    growing := fun _ hm => hm
    finallyOpen := .inl (by rw [Writer.finallyOpen, Writer.finallyOpen, hitems, hcurrent])
    sound := id, health := id, optional := fun _ => id }

/-- What handling the item in hand leaves alone. -/
theorem Moves.handled {w w' : Writer} {item : Item} (hhand : w.hand = .holding item)
    (hitems : w'.items = w.queue) (hcurrent : w'.current = item.advance w.fileMatch)
    (hstopped : ∀ m ∈ w.stopped, item ≠ .kClose m → m ∈ w'.stopped)
    (hsame : w'.mode = w.mode ∧ w'.pushed = w.pushed ∧ w'.refused = w.refused ∧
      w'.lost = w.lost ∧ w'.health = w.health) : w.Moves w' := by
  obtain ⟨hmode, hpushed, hrefused, hlost, hhealth⟩ := hsame
  have hbefore : w.items = item :: w.queue := by simp [Writer.items, hhand]
  have hfile : w.current = w.fileMatch := by simp [Writer.current, hhand]
  refine ⟨hmode, hpushed, hrefused, ?_, ?_, ?_, ?_, .inl ?_, ?_, ?_, ?_⟩
  · intro i hi
    rw [hitems] at hi
    rw [hbefore]
    exact List.mem_cons_of_mem _ hi
  · intro m hm hclose
    refine hstopped m hm fun heq => hclose ?_
    rw [hbefore, heq]
    exact List.mem_cons_self
  · intro m hm; rw [hlost] at hm; exact .inl hm
  · intro m hm; rw [hlost]; exact hm
  · rw [Writer.finallyOpen, Writer.finallyOpen, hitems, hcurrent, hbefore, hfile]; rfl
  · rw [HealthSound, HealthSound, hlost, hhealth, hmode]; exact id
  · rw [hhealth]; exact id
  · rw [hhealth]; exact fun _ => id

/-- A piece in hand is written, or ends its Match's file. -/
theorem Pipeline.write {w : Writer} {m : MatchId} {e : Encoded} {item : Item} (h : w.Pipeline)
    (hold : w.Holding m e item) {files : Table MatchId Encoded}
    (hfiles : ∀ bytes, (files.insert m ((files.lookup m).getD [] ++ bytes)) =
      w.files.insert m ((w.written m).flatten ++ bytes)) (disk : Disk) :
    (Writer.write { w with files, fileMatch := some m, held := [] } m e disk).Pipeline := by
  unfold Writer.write content
  split
  · next step hfailing =>
    simp only [hfiles]
    refine h.broke hold step (.inr rfl) (fun n hne => AList.lookup_insert_ne hne)
      (fun n hne => by simp [hne]) ?_ (fun hnot => absurd (by simp) hnot) ?_
    · intro _ bytes hbytes
      simp only [AList.lookup_insert, Option.some.injEq] at hbytes
      refine ⟨_, hbytes.symm, ?_⟩
      rw [if_pos rfl]
      have hrest := (List.prefix_append_right_inj (e.take disk.landed)).mpr
        (List.take_prefix disk.kept (e.drop disk.landed))
      rwa [List.take_append_drop] at hrest
    · intro _
      exact .inr ⟨_, AList.lookup_insert _⟩
  · next hfailing =>
    simp only [hfiles]
    exact h.wrote hold

theorem insert_insert_files (files : Table MatchId Encoded) (m : MatchId) (a b : Encoded) :
    (files.insert m a).insert m b = files.insert m b := AList.insert_insert files

/-- Retention deletes nothing of the Match in hand, and takes nothing out of it. -/
theorem Holding.retain {w : Writer} {m : MatchId} {e : Encoded} {item : Item}
    (hold : w.Holding m e item) (disk : Disk) : (w.retain m disk).Holding m e item :=
  { hold with }

/-- An item refused by the disk or the retention, its file no further. -/
theorem Pipeline.fail {w : Writer} {m : MatchId} {e : Encoded} {item : Item} (h : w.Pipeline)
    (hold : w.Holding m e item) (step : CaptureStep)
    (hkept : w.written m ≠ [] → ∃ bytes, w.files.lookup m = some bytes) :
    (w.fail m step).Pipeline := by
  have hbroke := @Pipeline.broke w m e item h hold step w.files w.held _ w.broken hold.file
    (fun _ _ => rfl) (fun _ _ => Iff.rfl) (fun hbroken => absurd hbroken hold.unbroken)
    (fun _ => ⟨h.intact m hold.unbroken, h.heldNone m hold.unbroken⟩) ?_
  · exact hbroke
  · rintro (hwritten | hopen)
    · exact .inr (hkept hwritten)
    · exact .inr (h.present m hopen)

theorem Pipeline.openFile {w : Writer} {m : MatchId} {header : Encoded} (h : w.Pipeline)
    (hhand : w.hand = .holding (.kOpen m header)) (disk : Disk) :
    (w.openFile m header disk).Pipeline := by
  have hold := h.holding hhand (Item.frameOf_kOpen m header)
  have hmem : m ∈ w.opens := by
    rw [Writer.mem_opens]
    exact ⟨header, by simp [Writer.items, hhand]⟩
  have h' := h.retain hold.file disk
  have hold' := hold.retain disk
  have hnone : (w.retain m disk).written m = [] := (h.unopened m hmem).1
  unfold Writer.openFile
  split_ifs with hroom hcreated
  · refine h'.write hold' (fun bytes => ?_) disk
    rw [AList.lookup_insert, Option.getD_some, hnone, insert_insert_files]
    rfl
  · exact h'.fail hold' .create (fun hne => absurd hnone hne)
  · exact h'.fail hold' .retentionBudget (fun hne => absurd hnone hne)

theorem Pipeline.persist {w : Writer} {m : MatchId} {e : Encoded} (h : w.Pipeline)
    (hhand : w.hand = .holding (.kRecord m e)) (hopen : w.fileMatch = some m) (disk : Disk) :
    (w.persist m e disk).Pipeline := by
  have hold := (h.holding hhand (Item.frameOf_kRecord m e)).retain disk
  have h' := h.retain (.inr hopen) disk
  obtain ⟨bytes, hbytes⟩ := h'.present m hopen
  unfold Writer.persist
  split_ifs with hroom
  · have hwrite := @Pipeline.write _ m e _ h' hold (w.retain m disk).files (fun more => ?_) disk
    · have hsame : { w.retain m disk with
          files := (w.retain m disk).files, fileMatch := some m, held := [] } =
            w.retain m disk := by
        have hheld := h'.heldNone m hold.unbroken hopen
        rw [← hopen, ← hheld]
        rfl
      rwa [hsame] at hwrite
    · rw [hbytes, Option.getD_some, (h'.intact m hold.unbroken bytes hbytes).1]
  · exact h'.fail hold .retentionBudget (fun _ => ⟨bytes, hbytes⟩)

/-- What handling a piece of the Match makes of the rest. -/
structure Handled (w w' : Writer) (m : MatchId) : Prop where
  hand : w'.hand = .idle ∧ w'.fileMatch = some m ∨ ∃ step, w'.hand = .failed m step
  queue : w'.queue = w.queue
  stopped : w'.stopped = w.stopped
  same : w'.mode = w.mode ∧ w'.pushed = w.pushed ∧ w'.refused = w.refused ∧
    w'.lost = w.lost ∧ w'.health = w.health

theorem handled_write (w : Writer) (m : MatchId) (e : Encoded) (disk : Disk)
    (hfile : w.fileMatch = some m) : w.Handled (w.write m e disk) m := by
  unfold Writer.write
  split
  · exact ⟨.inr ⟨_, rfl⟩, rfl, rfl, rfl, rfl, rfl, rfl, rfl⟩
  · exact ⟨.inl ⟨rfl, hfile⟩, rfl, rfl, rfl, rfl, rfl, rfl, rfl⟩

theorem handled_openFile (w : Writer) (m : MatchId) (header : Encoded) (disk : Disk) :
    w.Handled (w.openFile m header disk) m := by
  unfold Writer.openFile
  split_ifs
  · have handled := handled_write
      { w.retain m disk with
        files := (w.retain m disk).files.insert m [], fileMatch := some m, held := [] }
      m header disk rfl
    exact ⟨handled.hand, handled.queue, handled.stopped, handled.same⟩
  · exact ⟨.inr ⟨_, rfl⟩, rfl, rfl, rfl, rfl, rfl, rfl, rfl⟩
  · exact ⟨.inr ⟨_, rfl⟩, rfl, rfl, rfl, rfl, rfl, rfl, rfl⟩

theorem handled_persist (w : Writer) (m : MatchId) (e : Encoded) (disk : Disk)
    (hfile : w.fileMatch = some m) : w.Handled (w.persist m e disk) m := by
  unfold Writer.persist
  split_ifs
  · have handled := handled_write (w.retain m disk) m e disk hfile
    exact ⟨handled.hand, handled.queue, handled.stopped, handled.same⟩
  · exact ⟨.inr ⟨_, rfl⟩, rfl, rfl, rfl, rfl, rfl, rfl, rfl⟩

theorem Handled.moves {w w' : Writer} {m : MatchId} {e : Encoded} {item : Item} (h : w.Pipeline)
    (hhand : w.hand = .holding item) (hframe : item.frameOf m = some e)
    (handled : w.Handled w' m) : w.Moves w' := by
  have hordered := h.ordered
  simp only [Writer.items, Writer.current, hhand] at hordered
  obtain ⟨-, hadvance⟩ := Item.allowed_frame hframe hordered.1
  have hframes : w'.items = w.queue ∧ w'.current = some m := by
    rcases handled.hand with ⟨hidle, hfile⟩ | ⟨step, hfailed⟩
    · simp [Writer.items, Writer.current, hidle, hfile, handled.queue]
    · simp [Writer.items, Writer.current, hfailed, handled.queue]
  refine Moves.handled hhand hframes.1 (hframes.2.trans hadvance.symm) ?_ handled.same
  intro n hn _
  rw [handled.stopped]
  exact hn

/-- The file open is closed; what the stream held of a failed item may still get there. -/
theorem Pipeline.closeFile {w : Writer} {m : MatchId} (h : w.Pipeline)
    (hhand : w.hand = .holding (.kClose m)) (disk : Disk) :
    (w.closeFile m disk).Pipeline ∧ w.Moves (w.closeFile m disk) := by
  have hitems : w.items = .kClose m :: w.queue := by simp [items, hhand]
  have hcurrent : w.current = w.fileMatch := by simp [current, hhand]
  have hordered := h.ordered
  rw [hitems, hcurrent] at hordered
  have hopens : w.queue.filterMap Item.opening = w.opens := by rw [Writer.opens, hitems]; rfl
  have hpending : ∀ n, w.queue.filterMap (·.frameOf n) = w.pending n := fun n => by
    rw [pending, hitems]; rfl
  have hgone : ∀ n ∈ w.failed, w.queue.filterMap (·.frameOf n) = [] ∧ n ∈ w.lost :=
    fun n hn => by
      rw [hpending]
      exact (h.failedGone n hn).resolve_left fun ⟨step, hfailed⟩ => by
        rw [hhand] at hfailed; cases hfailed
  have hforget : ∀ n ∈ w.stopped.filter (· ≠ m), n ∈ w.lost := fun n hn =>
    h.stoppedLost n (List.mem_of_mem_filter hn)
  have hstopped : ∀ n ∈ w.stopped, Item.kClose m ≠ .kClose n →
      n ∈ w.stopped.filter (· ≠ m) := fun n hn hne => by
    rw [List.mem_filter]
    exact ⟨hn, by simpa using fun heq : n = m => hne (by rw [heq])⟩
  unfold Writer.closeFile
  split_ifs with hfile
  · have hnone : w.fileMatch = none := hordered.1.resolve_right hfile
    refine ⟨{ h with
      ordered := ?_, opensNodup := ?_, unopened := ?_, flow := ?_, handFailed := nofun
      failedGone := ?_, stoppedLost := hforget }, ?_⟩
    · simp only [Writer.current, Writer.items, hnone]
      exact hordered.2
    · have := h.opensNodup; rw [← hopens] at this; exact this
    · have := h.unopened; rw [← hopens] at this; exact this
    · intro n hn; rw [← h.flow n hn, ← hpending n]; rfl
    · intro n hn; exact .inr (hgone n hn)
    · exact Moves.handled hhand rfl hnone hstopped ⟨rfl, rfl, rfl, rfl, rfl⟩
  · rw [not_not] at hfile
    have hother : ∀ n ≠ m, ∀ bytes, (w.files.insert m bytes).lookup n = w.files.lookup n :=
      fun n hne bytes => AList.lookup_insert_ne hne
    obtain ⟨bytes, hbytes⟩ := h.present m hfile
    have hcontent : w.content m = bytes := by rw [content, hbytes]; rfl
    refine ⟨{ h with
      ordered := hordered.2, opensNodup := ?_, unopened := ?_, flow := ?_, intact := ?_
      torn := ?_, heldNone := nofun, present := nofun, kept := ?_, handFailed := nofun
      failedGone := ?_, stoppedLost := hforget }, ?_⟩
    · have := h.opensNodup; rw [← hopens] at this; exact this
    · intro n hn
      obtain ⟨hwritten, hnone, hfailed⟩ := h.unopened n (hopens ▸ hn)
      refine ⟨hwritten, ?_, hfailed⟩
      by_cases hnm : n = m
      · rw [hnm, hbytes] at hnone; cases hnone
      · exact (hother n hnm _).trans hnone
    · intro n hn; rw [← h.flow n hn, ← hpending n]; rfl
    · intro n hn bytes' hlookup
      by_cases hnm : n = m
      · subst hnm
        simp only [AList.lookup_insert, h.heldNone n hn hfile, List.take_nil, List.append_nil,
          Option.some.injEq] at hlookup
        exact h.intact n hn bytes' (by rw [← hlookup, hcontent, hbytes])
      · exact h.intact n hn bytes' ((hother n hnm _).symm.trans hlookup)
    · intro n hn bytes' hlookup
      have hnone : ∀ held, (if (none : Option MatchId) = some n then held else ([] : Encoded)) =
          [] := fun held => if_neg nofun
      by_cases hnm : n = m
      · subst hnm
        obtain ⟨next, torn, hold, hheld, hnext⟩ := h.torn n hn bytes hbytes
        simp only [AList.lookup_insert, Option.some.injEq, hcontent] at hlookup
        refine ⟨next, torn ++ w.held.take disk.landed, ?_, ?_, hnext⟩
        · rw [← hlookup, hold, List.append_assoc]; rfl
        · rw [heldOf, hnone, List.append_nil]
          rw [heldOf, if_pos hfile] at hheld
          exact ((List.prefix_append_right_inj torn).mpr (List.take_prefix _ _)).trans hheld
      · obtain ⟨next, torn, hold, hheld, hnext⟩ :=
          h.torn n hn bytes' ((hother n hnm _).symm.trans hlookup)
        refine ⟨next, torn, hold, ?_, hnext⟩
        rw [heldOf, hnone, List.append_nil]
        exact (List.prefix_append _ _).trans hheld
    · intro n hn
      by_cases hnm : n = m
      · subst hnm
        exact .inr ⟨_, AList.lookup_insert _⟩
      · rcases h.kept n hn with hdeleted | ⟨bytes', hbytes'⟩
        · exact .inl hdeleted
        · exact .inr ⟨bytes', (hother n hnm _).trans hbytes'⟩
    · intro n hn; exact .inr (hgone n hn)
    · exact Moves.handled hhand rfl rfl hstopped ⟨rfl, rfl, rfl, rfl, rfl⟩

theorem Pipeline.handle {w w' : Writer} {disk : Disk} (h : w.Pipeline)
    (hhandle : w.handle disk = some w') : w'.Pipeline ∧ w.Moves w' := by
  unfold Writer.handle at hhandle
  split at hhandle
  · next m header hhand =>
    cases hhandle
    exact ⟨h.openFile hhand disk,
      (handled_openFile w m header disk).moves h hhand (Item.frameOf_kOpen m header)⟩
  · next m e hhand =>
    have hopen : w.fileMatch = some m := by
      have hordered := h.ordered
      simp only [Writer.items, Writer.current, hhand] at hordered
      exact hordered.1
    rw [if_pos hopen] at hhandle
    cases hhandle
    exact ⟨h.persist hhand hopen disk,
      (handled_persist w m e disk hopen).moves h hhand (Item.frameOf_kRecord m e)⟩
  · next m hhand =>
    cases hhandle
    exact h.closeFile hhand disk
  · cases hhandle

/-- The records of one Match dropped, every other Match has what it had. -/
theorem filterMap_filter_other {m n : MatchId} (hne : n ≠ m) (items : List Item) :
    (items.filter fun item => ¬ item.isRecordOf m).filterMap (·.frameOf n) =
      items.filterMap (·.frameOf n) := by
  rw [List.filterMap_filter]
  refine List.filterMap_congr fun item _ => ?_
  cases item with
  | kRecord k e =>
    by_cases hk : k = m
    · simp [Item.isRecordOf, Item.frameOf, hk, Ne.symm hne]
    · simp [Item.isRecordOf, hk]
  | kOpen k e => simp [Item.isRecordOf]
  | kClose k => simp [Item.isRecordOf]

theorem filterMap_filter_opening (m : MatchId) (items : List Item) :
    (items.filter fun item => ¬ item.isRecordOf m).filterMap Item.opening =
      items.filterMap Item.opening := by
  rw [List.filterMap_filter]
  refine List.filterMap_congr fun item _ => ?_
  cases item <;> simp [Item.isRecordOf, Item.opening]

/-- A Match whose file nothing opens has only records queued. -/
theorem filterMap_filter_same {m : MatchId} {items : List Item}
    (h : m ∉ items.filterMap Item.opening) :
    (items.filter fun item => ¬ item.isRecordOf m).filterMap (·.frameOf m) = [] := by
  rw [List.filterMap_eq_nil_iff]
  intro item hitem
  rw [List.mem_filter] at hitem
  cases item with
  | kRecord k e => simpa [Item.isRecordOf, Item.frameOf] using hitem.2
  | kOpen k e =>
    have hk : k ≠ m := fun heq => h (List.mem_filterMap.mpr ⟨_, hitem.1, by rw [heq]; rfl⟩)
    simp [Item.frameOf, hk]
  | kClose k => rfl

/-- Once a loss is noted, nothing of its Match is left. -/
theorem Pipeline.note {w w' : Writer} (h : w.Pipeline) (hnote : w.note = some w') :
    w'.Pipeline ∧ w.Moves w' := by
  unfold Writer.note at hnote
  split at hnote
  · next m step hhand =>
    cases hnote
    obtain ⟨hfailed, hfile⟩ := h.handFailed m step hhand
    have hitems : w.items = w.queue := by simp [items, hhand]
    have hcurrent : w.current = some m := by simp [current, hhand]
    have hordered := h.ordered
    rw [hitems, hcurrent] at hordered
    have hpending : ∀ n ≠ m, (w.queue.filter fun item => ¬ item.isRecordOf m).filterMap
        (·.frameOf n) = w.pending n := fun n hne => by
      rw [filterMap_filter_other hne, pending, hitems]
    have hopens : (w.queue.filter fun item => ¬ item.isRecordOf m).filterMap Item.opening =
        w.opens := by
      rw [filterMap_filter_opening, opens, hitems]
    have hclosed : m ∉ w.queue.filterMap Item.opening := fun hm =>
      (h.unopened m (by rw [opens, hitems]; exact hm)).2.2 hfailed
    generalize hw : ({ w with
      hand := .idle
      queue := w.queue.filter fun item => ¬ item.isRecordOf m
      recordsQueued := (w.queue.filter fun item => ¬ item.isRecordOf m).countP Item.isRecord } :
        Writer) = dropped
    have hhealth := dropped.stopLocked_health m step
    obtain ⟨stopped, lost, loss, health, heq, hmem, hgrow, honly, hnew⟩ :=
      dropped.stopLocked_eq m step
    rw [heq] at hhealth ⊢
    subst hw
    have hlost : m ∈ lost := by
      by_cases hm : m ∈ w.stopped
      · exact hgrow m (h.stoppedLost m hm)
      · exact hnew hm
    refine ⟨{ h with
      ordered := ?_, opensNodup := ?_, unopened := ?_, flow := ?_, handFailed := nofun
      failedGone := ?_, stoppedLost := ?_ }, ?_⟩
    · rcases hfile with hfile | hfile <;> simp only [Writer.current, Writer.items, hfile]
      · exact ordered_filter_none hordered
      · exact ordered_filter hordered
    · have := h.opensNodup; rw [← hopens] at this; exact this
    · have := h.unopened; rw [← hopens] at this; exact this
    · intro n hn
      rw [← h.flow n hn, ← hpending n (fun heq => hn (heq ▸ hfailed))]
      rfl
    · intro n hn
      right
      by_cases hnm : n = m
      · exact ⟨by rw [hnm]; exact filterMap_filter_same hclosed, hnm ▸ hlost⟩
      · rcases h.failedGone n hn with ⟨step', hfailed'⟩ | ⟨hgone, hwas⟩
        · rw [hhand] at hfailed'; cases hfailed'; exact absurd rfl hnm
        · exact ⟨(hpending n hnm).trans hgone, hgrow n hwas⟩
    · intro n hn
      rcases (hmem n).mp hn with hold | rfl
      · exact hgrow n (h.stoppedLost n hold)
      · exact hlost
    · refine ⟨rfl, rfl, rfl, ?_, ?_, ?_, hgrow, ?_, ?_, ?_, ?_⟩
      · intro item hitem
        rw [hitems]
        exact List.mem_of_mem_filter hitem
      · intro n hn _; exact (hmem n).mpr (.inl hn)
      · intro n hn
        rcases honly n hn with hold | rfl
        · exact .inl hold
        · exact .inr ⟨(hmem n).mpr (.inr rfl), h.failedPushed n hfailed⟩
      · have hafter : openAfter w.fileMatch (w.queue.filter fun item => ¬ item.isRecordOf m) =
            openAfter w.fileMatch w.queue := openAfter_filter _
        have hbefore : w.finallyOpen = openAfter (some m) w.queue := by
          rw [finallyOpen, hitems, hcurrent]
        rw [hbefore]
        rcases openAfter_cases w.queue with hstay | hmove
        · rcases hfile with hfile | hfile
          · right
            refine ⟨?_, m, (hmem m).mpr (.inr rfl), hstay _⟩
            exact hafter.trans ((hstay _).trans hfile)
          · left
            rw [← hfile]
            exact hafter
        · left
          exact hafter.trans (hmove _ _)
      · exact hhealth.1
      · exact hhealth.2.1
      · exact hhealth.2.2
  · cases hnote

/-! ### The Simulation thread's steps -/

/-- What a piece of the Match that is not queued leaves of the writer. -/
structure Refuses (w w' : Writer) (m : MatchId) : Prop where
  pipeline : w.Pipeline → w'.Pipeline
  mode : w'.mode = w.mode
  pushed : w'.pushed = w.pushed
  items : w'.items = w.items
  finallyOpen : w'.finallyOpen = w.finallyOpen
  refused : ∀ n, n ∈ w'.refused ↔ n ∈ w.refused ∨ n = m
  stopped : ∀ n ∈ w.stopped, n ∈ w'.stopped
  stops : m ∈ w'.stopped ∨ w'.health = .stopped
  losing : w.Pipeline → m ∈ w'.lost ∨ w'.health = .stopped
  lost : ∀ n ∈ w'.lost, n ∈ w.lost ∨ n = m ∧ m ∈ w'.stopped
  growing : ∀ n ∈ w.lost, n ∈ w'.lost
  sound : w.HealthSound → w'.HealthSound
  health : w.health = .stopped → w'.health = .stopped
  optional : w.mode = .optional → w.health ≠ .stopped → w'.health ≠ .stopped

/-- A piece that stops its Match's capture is not queued. -/
theorem refuses_stopLocked (w : Writer) (m : MatchId) (step : CaptureStep) :
    w.Refuses ((w.stopLocked m step).refuse m) m := by
  have hpipeline := fun h : w.Pipeline => (h.stopLocked m step).refuse m
  have hhealth := w.stopLocked_health m step
  obtain ⟨stopped, lost, loss, health, heq, hmem, hgrow, honly, hnew⟩ := w.stopLocked_eq m step
  rw [heq] at hpipeline hhealth ⊢
  refine ⟨hpipeline, rfl, rfl, rfl, rfl, ?_, ?_, .inl ((hmem m).mpr (.inr rfl)), ?_, ?_, hgrow,
    hhealth.1, hhealth.2.1, hhealth.2.2⟩
  · intro n; simp [Writer.refuse]
  · intro n hn; exact (hmem n).mpr (.inl hn)
  · intro h
    left
    by_cases hm : m ∈ w.stopped
    · exact hgrow m (h.stoppedLost m hm)
    · exact hnew hm
  · intro n hn
    exact (honly n hn).imp_right fun heq => ⟨heq, (hmem m).mpr (.inr rfl)⟩

theorem refuses_refuse {w : Writer} {m : MatchId} (h : m ∈ w.stopped ∨ w.health = .stopped) :
    w.Refuses (w.refuse m) m where
  pipeline hw := hw.refuse m
  mode := rfl
  pushed := rfl
  items := rfl
  finallyOpen := rfl
  refused n := by simp [Writer.refuse]
  stopped _ hn := hn
  stops := h
  losing hw := h.imp_left (hw.stoppedLost m)
  lost _ hn := .inl hn
  growing _ hn := hn
  sound := id
  health := id
  optional _ := id

/-- A record is queued, or it is not. -/
theorem push_cases (w : Writer) (m : MatchId) (record : Encoded) :
    w.Refuses (w.push m record) m ∨
      m ∉ w.stopped ∧ w.health ≠ .stopped ∧
        w.push m record = { w with
          recordsQueued := w.recordsQueued + 1
          queue := w.queue ++ [.kRecord m record]
          pushed := w.pushed ++ [(m, record)] } := by
  unfold Writer.push
  split_ifs with hstopped hfull
  · exact .inl (refuses_refuse hstopped)
  · exact .inl (w.refuses_stopLocked m .queueFull)
  · rw [not_or] at hstopped
    exact .inr ⟨hstopped.1, hstopped.2, rfl⟩

end Writer
end Augusta.Host
