import Augusta.Harness.CommandRun
import Augusta.Lib.Log
import Mathlib.Tactic.Set

/-! Every Command gets through, where messages arrive in the order sent and too few are lost in a row
    to lose one of all that carried it.

      message      j'                     j
      sent      ── ● ─ ✗ ─ ✗ ─ ✗ ─ ✗ ──── ● ──
      carries      …j'   j'+1 …            j - 7 … j'+1 … j

    A message carries the last `kMaxCommandsPerMessage` Commands but those acknowledged, and nothing
    past the last message to arrive is. So no Command between two that arrive is missed. -/

namespace Augusta.Harness
open Lib (Binary32)
open Link
open Protocol (kMaxCommandsPerMessage)

/-! ### The last few of an increasing list -/

theorem length_le_of_increasing {α : Type} {number : α → ℕ} {low high : ℕ} : ∀ {items : List α},
    items.Pairwise (fun a b => number a < number b) →
    (∀ item ∈ items, low < number item ∧ number item ≤ high) → items.length ≤ high - low
  | [], _, _ => Nat.zero_le _
  | first :: rest, hsorted, hbounds => by
      obtain ⟨hfirst, hrest⟩ := List.pairwise_cons.mp hsorted
      have hlow := hbounds first List.mem_cons_self
      have hlength : rest.length ≤ high - number first :=
        length_le_of_increasing hrest fun item hitem =>
          ⟨hfirst item hitem, (hbounds item (List.mem_cons_of_mem _ hitem)).2⟩
      rw [List.length_cons]
      omega

/-- Of numbers that grow up to `high`, one within `few` of it is among the last `few`. -/
theorem mem_drop_of_recent {α : Type} {number : α → ℕ} {items : List α} {item : α}
    {high few : ℕ} (hsorted : items.Pairwise fun a b => number a < number b)
    (hhigh : ∀ other ∈ items, number other ≤ high) (hmem : item ∈ items)
    (hrecent : high < number item + few) : item ∈ items.drop (items.length - few) := by
  obtain ⟨before, after, rfl⟩ := List.append_of_mem hmem
  obtain ⟨-, hsorted, -⟩ := List.pairwise_append.mp hsorted
  obtain ⟨hafter, hrest⟩ := List.pairwise_cons.mp hsorted
  have hlength := length_le_of_increasing hrest fun other hother =>
    ⟨hafter other hother, hhigh other (by simp [hother])⟩
  have hitem := hhigh item hmem
  have hcut : (before ++ item :: after).length - few ≤ before.length := by
    rw [List.length_append, List.length_cons]
    omega
  rw [List.drop_append_of_le_length hcut]
  exact List.mem_append_right _ List.mem_cons_self

/-! ### What every step lets stand -/

theorem offers_dropped (vecLength : Math.Vec3 → Binary32) (received : List SequencedCommand)
    (taken : Host.CommandQueue × ℕ) : taken.2 ≤ (received.foldl (offer vecLength) taken).2 := by
  induction received generalizing taken with
  | nil => exact Nat.le_refl _
  | cons command rest ih =>
      refine Nat.le_trans ?_ (ih _)
      rcases offer_cases vecLength taken command with ⟨hsame, -⟩ | ⟨-, ⟨-, hqueued⟩ | hdropped⟩
      · exact Nat.le_of_eq (by rw [hsame])
      · exact Nat.le_of_eq (by rw [hqueued])
      · rw [hdropped]
        exact Nat.le_succ _

/-- Nothing queued is unqueued, nothing arrived unarrived, nothing dropped put back. -/
structure Grows (p p' : Passage) : Prop where
  queued : p.queued <+: p'.queued
  arrivals : p.arrivals <+: p'.arrivals
  dropped : p.dropped ≤ p'.dropped

theorem grows_step {vecLength : Math.Vec3 → Binary32} {p p' : Passage} {event : Event}
    (hstep : p.step vecLength event = some p') : Grows p p' := by
  cases event with
  | clientTick command =>
      cases hstep
      unfold Passage.clientTick
      split
      · exact ⟨List.prefix_rfl, List.prefix_rfl, Nat.le_refl _⟩
      · exact ⟨List.prefix_append _ _, List.prefix_rfl, Nat.le_refl _⟩
  | arrive message =>
      obtain ⟨sending, -, rfl⟩ := Option.map_eq_some_iff.mp hstep
      exact ⟨List.prefix_rfl, List.prefix_append _ _, offers_dropped vecLength _ (p.commands, p.dropped)⟩
  | serverTick state =>
      rw [Passage.step] at hstep
      split_ifs at hstep
      cases hstep
      exact ⟨List.prefix_rfl, List.prefix_rfl, Nat.le_refl _⟩
  | hear message =>
      rw [Passage.step] at hstep
      split_ifs at hstep
      cases hstep
      exact ⟨List.prefix_rfl, List.prefix_rfl, Nat.le_refl _⟩

/-- How many Commands are known to have been offered: up to the newest arrival's own. -/
def arrivedUpTo (arrivals : List ℕ) : ℕ := ((arrivals.getLast?).map (· + 1)).getD 0

/-- Each arrival is of no earlier message than the one before, and skips too few messages to miss a
    Command. -/
def Paced (arrivals : List ℕ) : Prop :=
  ∀ before message after, arrivals = before ++ message :: after →
    arrivedUpTo before ≤ message + 1 ∧ message + 1 ≤ arrivedUpTo before + kMaxCommandsPerMessage

/-- A run in which nothing but the network is in a Command's way. -/
structure Calm (vecLength : Math.Vec3 → Binary32) (p : Passage) : Prop where
  few : p.queued.length + 1 < 2 ^ 64
  wellFormed : ∀ command ∈ p.queued, ∀ newest,
    Host.malformed vecLength (arrived newest command.command) = none
  roomy : p.dropped = 0
  paced : Paced p.arrivals

theorem Calm.before {vecLength : Math.Vec3 → Binary32} {p p' : Passage} (h : Calm vecLength p')
    (hgrows : Grows p p') : Calm vecLength p where
  few := Nat.lt_of_le_of_lt (Nat.succ_le_succ hgrows.queued.length_le) h.few
  wellFormed := fun command hmem => h.wellFormed command (hgrows.queued.subset hmem)
  roomy := Nat.le_zero.mp (h.roomy ▸ hgrows.dropped)
  paced := by
    obtain ⟨more, hmore⟩ := hgrows.arrivals
    intro before message after hsplit
    refine h.paced before message (after ++ more) ?_
    rw [← hmore, hsplit, List.append_assoc, List.cons_append]

/-! ### What each message carries -/

/-- A message's Commands, the newest the one queued with it: each of the last few of its Match but
    those the server has handed out. -/
structure Carries (p : Passage) (message : ℕ) (sending : Sending) : Prop where
  increasing : sending.commands.Pairwise fun a b => a.sequence.toNat < b.sequence.toNat
  newest : ∀ command ∈ sending.commands, command.sequence.toNat ≤ message + 1
  own : ∃ command ∈ sending.commands, command.sequence.toNat = message + 1
  recent : ∀ k command, p.queued[k]? = some command → sending.since ≤ k → k ≤ message →
    message + 1 ≤ k + kMaxCommandsPerMessage →
    command ∈ sending.commands ∨ command.sequence ≤ p.commands.acknowledged

structure Windowed (p : Passage) : Prop where
  next : p.stream.nextSequence.toNat = p.queued.length + 1
  numbered : ∀ k command, p.queued[k]? = some command → command.sequence.toNat = k + 1
  length : p.sent.length = p.queued.length
  since : p.since ≤ p.queued.length
  increasing : p.stream.unacknowledged.Pairwise fun a b => a.sequence.toNat < b.sequence.toNat
  recent : ∀ k command, p.queued[k]? = some command → p.since ≤ k →
    p.queued.length ≤ k + kMaxCommandsPerMessage →
    command ∈ p.stream.unacknowledged ∨ command.sequence ≤ p.commands.acknowledged
  sent : ∀ message sending, p.sent[message]? = some sending →
    Carries p message sending ∧ sending.since ≤ p.since
  sinces : ∀ (i j : ℕ) (a b : Sending), i ≤ j → p.sent[i]? = some a → p.sent[j]? = some b →
    a.since ≤ b.since

theorem windowed_start (inbox : Inbox) (tickRateHz : UInt8) :
    Windowed (Passage.start inbox tickRateHz) where
  next := rfl
  numbered := by rintro k command ⟨⟩
  length := rfl
  since := Nat.le_refl _
  increasing := .nil
  recent := by rintro k command ⟨⟩
  sent := by rintro message sending ⟨⟩
  sinces := by rintro i j a b - ⟨⟩

theorem Windowed.sequence_le {p : Passage} (h : Windowed p) {command : SequencedCommand}
    (hmem : command ∈ p.queued) : command.sequence.toNat ≤ p.queued.length := by
  obtain ⟨k, hk⟩ := List.getElem?_of_mem hmem
  have hlt := (List.getElem?_eq_some_iff.mp hk).1
  rw [h.numbered k command hk]
  omega

/-- More acknowledged, and all else the same, leaves the windows. -/
theorem Windowed.acknowledge {p p' : Passage} (h : Windowed p) (hstream : p'.stream = p.stream)
    (hqueued : p'.queued = p.queued) (hsince : p'.since = p.since) (hsent : p'.sent = p.sent)
    (hgrows : p.commands.acknowledged ≤ p'.commands.acknowledged) : Windowed p' where
  next := by rw [hstream, hqueued]; exact h.next
  numbered := by rw [hqueued]; exact h.numbered
  length := by rw [hsent, hqueued]; exact h.length
  since := by rw [hsince, hqueued]; exact h.since
  increasing := by rw [hstream]; exact h.increasing
  recent := by
    rw [hqueued, hsince, hstream]
    intro k command hk hle hrecent
    exact (h.recent k command hk hle hrecent).imp_right fun hack => UInt64.le_trans hack hgrows
  sent := by
    rw [hsent, hsince]
    intro message sending hmessage
    obtain ⟨hcarries, hle⟩ := h.sent message sending hmessage
    refine ⟨{ hcarries with recent := ?_ }, hle⟩
    rw [hqueued]
    intro k command hk hmine hup hrecent
    exact (hcarries.recent k command hk hmine hup hrecent).imp_right
      fun hack => UInt64.le_trans hack hgrows
  sinces := by rw [hsent]; exact h.sinces

/-- What the client's view acknowledges, the server has handed out. -/
theorem Sound.acknowledged_le {p : Passage} (h : Sound p) {state : AuthoritativeState}
    (hheld : p.inbox.view.authoritative = some state) :
    state.acknowledgedSequence ≤ p.commands.acknowledged :=
  (h.behind state (h.held state hheld).1).1

/-- The Commands a tick keeps before it queues its own: all it had, but those acknowledged and those
    of an earlier Match. -/
def CommandStream.waiting (stream : CommandStream) (view : ServerView) : List SequencedCommand :=
  match view.authoritative with
  | some state => (stream.startOver view).unacknowledged.filter
      fun sent => state.acknowledgedSequence < sent.sequence
  | none => (stream.startOver view).unacknowledged

theorem CommandStream.tick_eq {stream : CommandStream} {view : ServerView} (command : Command)
    (h : view.inMatch = true) :
    (stream.tick view command).1 =
      carried (stream.waiting view ++ [⟨stream.nextSequence, queuedCommand view command⟩]) := by
  rw [tick_inMatch command h]
  cases hstate : view.authoritative <;> simp [queue, waiting, hstate]

theorem CommandStream.waiting_sublist (stream : CommandStream) (view : ServerView) :
    (stream.waiting view).Sublist stream.unacknowledged := by
  have hstart : (stream.startOver view).unacknowledged.Sublist stream.unacknowledged := by
    unfold startOver
    split_ifs
    · exact List.nil_sublist _
    · exact List.Sublist.refl _
  unfold waiting
  split
  · exact (List.filter_sublist).trans hstart
  · exact hstart

/-- A recent Command of the Match is still waiting, or the server has handed it out. -/
theorem waiting_of_recent {p : Passage} (hs : Sound p) (h : Windowed p)
    (hsame : p.stream.startedMatch = p.inbox.view.matchesStarted) {k : ℕ}
    {command : SequencedCommand} (hk : p.queued[k]? = some command) (hmine : p.since ≤ k)
    (hrecent : p.queued.length ≤ k + kMaxCommandsPerMessage) :
    command ∈ p.stream.waiting p.inbox.view ∨ command.sequence ≤ p.commands.acknowledged := by
  rcases h.recent k command hk hmine hrecent with hwaiting | hack
  · have hstart : p.stream.startOver p.inbox.view = p.stream := by
      rw [CommandStream.startOver, if_neg (not_not_intro hsame)]
    rw [CommandStream.waiting, hstart]
    cases hheld : p.inbox.view.authoritative with
    | none => exact .inl hwaiting
    | some state =>
        by_cases hnewer : state.acknowledgedSequence < command.sequence
        · exact .inl (List.mem_filter.mpr ⟨hwaiting, decide_eq_true hnewer⟩)
        · exact .inr (UInt64.le_trans (UInt64.not_lt.mp hnewer) (hs.acknowledged_le hheld))
  · exact .inr hack

theorem windowed_clientTick {p : Passage} (hs : Sound p) (h : Windowed p) (command : Command)
    (hfew : (p.clientTick command).queued.length + 1 < 2 ^ 64) :
    Windowed (p.clientTick command) := by
  by_cases hin : p.inbox.view.inMatch = true
  swap
  · rw [Passage.clientTick, if_pos hin]
    exact h
  set new : SequencedCommand :=
    ⟨p.stream.nextSequence, CommandStream.queuedCommand p.inbox.view command⟩ with hnew
  set since := if p.stream.startedMatch ≠ p.inbox.view.matchesStarted then p.queued.length
    else p.since with hsince
  set listed := p.stream.waiting p.inbox.view ++ [new] with hlisted
  have htick : p.clientTick command =
      { p with
        stream := (p.stream.tick p.inbox.view command).2
        since
        queued := p.queued ++ [new]
        sent := p.sent ++ [⟨since, carried listed⟩] } := by
    rw [Passage.clientTick, if_neg (not_not_intro hin), hlisted, hnew,
      ← CommandStream.tick_eq command hin]
  rw [htick] at hfew ⊢
  have hnumber : new.sequence.toNat = p.queued.length + 1 := h.next
  have hlength : (p.queued ++ [new]).length = p.queued.length + 1 := List.length_append
  simp only [hlength] at hfew
  have hkept : ∀ kept ∈ listed, kept.sequence.toNat ≤ p.queued.length + 1 := by
    intro kept hmem
    rcases List.mem_append.mp hmem with hold | hlast
    · have := h.sequence_le (hs.unacknowledged kept
        ((p.stream.waiting_sublist p.inbox.view).subset hold))
      omega
    · rw [List.mem_singleton.mp hlast]
      omega
  have hincreasing : listed.Pairwise fun a b => a.sequence.toNat < b.sequence.toNat := by
    refine List.pairwise_append.mpr
      ⟨h.increasing.sublist (p.stream.waiting_sublist _), List.pairwise_singleton _ _, ?_⟩
    intro kept hold last hlast
    have := h.sequence_le (hs.unacknowledged kept
      ((p.stream.waiting_sublist p.inbox.view).subset hold))
    rw [List.mem_singleton.mp hlast]
    omega
  have hstream : (p.stream.tick p.inbox.view command).2.unacknowledged = carried listed := by
    rw [hlisted, hnew, ← CommandStream.tick_eq command hin, CommandStream.tick_inMatch command hin]
    rfl
  have hnext : (p.stream.tick p.inbox.view command).2.nextSequence = p.stream.nextSequence + 1 := by
    rw [CommandStream.tick_inMatch command hin]
    rfl
  have hcarried : (carried listed).Pairwise fun a b => a.sequence.toNat < b.sequence.toNat :=
    hincreasing.sublist (List.drop_sublist _ _)
  have hmemCarried : ∀ kept ∈ listed, p.queued.length + 1 < kept.sequence.toNat + 8 →
      kept ∈ carried listed := fun kept hmem hrecent =>
    mem_drop_of_recent hincreasing hkept hmem hrecent
  -- the window of the message just sent, and of the stream after it
  have hwindow : ∀ k kept, (p.queued ++ [new])[k]? = some kept → since ≤ k →
      p.queued.length + 1 ≤ k + kMaxCommandsPerMessage →
      kept ∈ carried listed ∨ kept.sequence ≤ p.commands.acknowledged := by
    intro k kept hk hmine hrecent
    rw [kMaxCommandsPerMessage] at hrecent
    rcases List.getElem?_concat_cases hk with ⟨hold, hk⟩ | ⟨-, rfl⟩
    · have hsame : p.stream.startedMatch = p.inbox.view.matchesStarted := by
        by_contra hdiffer
        rw [hsince, if_pos hdiffer] at hmine
        omega
      rw [hsince, if_neg (not_not_intro hsame)] at hmine
      have hnumbered := h.numbered k kept hk
      rcases waiting_of_recent hs h hsame hk hmine (by rw [kMaxCommandsPerMessage]; omega)
        with hwaiting | hack
      · exact .inl (hmemCarried kept (List.mem_append_left _ hwaiting) (by omega))
      · exact .inr hack
    · exact .inl (hmemCarried new (List.mem_append_right _ List.mem_cons_self) (by omega))
  have hsinceLe : p.since ≤ since ∧ since ≤ p.queued.length := by
    have := h.since
    rw [hsince]
    split_ifs <;> omega
  exact
    { next := by
        rw [hnext, hlength, UInt64.toNat_add, h.next]
        simp only [UInt64.toNat_one]
        omega
      numbered := by
        intro k kept hk
        rcases List.getElem?_concat_cases hk with ⟨-, hk⟩ | ⟨rfl, rfl⟩
        · exact h.numbered k kept hk
        · exact hnumber
      length := by rw [List.length_append, List.length_append, h.length]; rfl
      since := Nat.le_trans hsinceLe.2 (by rw [hlength]; exact Nat.le_succ _)
      increasing := by rw [hstream]; exact hcarried
      recent := by
        rw [hstream, hlength]
        exact hwindow
      sent := by
        intro message sending hmessage
        rcases List.getElem?_concat_cases hmessage with ⟨hold, hmessage⟩ | ⟨rfl, rfl⟩
        · obtain ⟨hcarries, hle⟩ := h.sent message sending hmessage
          refine ⟨{ hcarries with recent := ?_ }, Nat.le_trans hle hsinceLe.1⟩
          intro k kept hk hmine hup hrecent
          rw [List.getElem?_append_left (by rw [← h.length]; omega)] at hk
          exact hcarries.recent k kept hk hmine hup hrecent
        · rw [h.length]
          refine ⟨⟨hcarried, fun kept hmem => hkept kept (List.mem_of_mem_drop hmem),
            ⟨new, hmemCarried new (List.mem_append_right _ List.mem_cons_self) (by omega), hnumber⟩,
            fun k kept hk hmine _ hrecent => hwindow k kept hk hmine hrecent⟩, Nat.le_refl _⟩
      sinces := by
        intro i j a b hij ha hb
        rcases List.getElem?_concat_cases ha with ⟨-, ha⟩ | ⟨rfl, rfl⟩
        · rcases List.getElem?_concat_cases hb with ⟨-, hb⟩ | ⟨-, rfl⟩
          · exact h.sinces i j a b hij ha hb
          · exact Nat.le_trans (h.sent i a ha).2 hsinceLe.1
        · rcases List.getElem?_concat_cases hb with ⟨hold, -⟩ | ⟨-, rfl⟩
          · omega
          · exact Nat.le_refl _ }

theorem windowed_step {vecLength : Math.Vec3 → Binary32} {p p' : Passage} {event : Event}
    (hs : Sound p) (h : Windowed p) (hstep : p.step vecLength event = some p')
    (hfew : p'.queued.length + 1 < 2 ^ 64) : Windowed p' := by
  cases event with
  | clientTick command =>
      cases hstep
      exact windowed_clientTick hs h command hfew
  | arrive message =>
      obtain ⟨sending, -, rfl⟩ := Option.map_eq_some_iff.mp hstep
      exact h.acknowledge rfl rfl rfl rfl
        (UInt64.le_of_eq (offers_acknowledged _ (p.commands, p.dropped)).symm)
  | serverTick state =>
      rw [Passage.step] at hstep
      split_ifs at hstep
      cases hstep
      exact h.acknowledge rfl rfl rfl rfl hs.inStep.next.2.2.2
  | hear message =>
      rw [Passage.step] at hstep
      split_ifs at hstep
      cases hstep
      exact h.acknowledge rfl rfl rfl rfl (UInt64.le_refl _)

/-! ### What gets through -/

/-- What offering `received` makes of a queue when it drops none. -/
structure Took (received : List SequencedCommand) (before after : Host.CommandQueue) : Prop where
  keeps : before.queued ⊆ after.queued
  takes : ∀ command ∈ received, command.sequence ≤ before.lastOffered ∨ command ∈ after.queued
  newest : ∀ command ∈ received, command.sequence ≤ after.lastOffered
  grows : before.lastOffered ≤ after.lastOffered
  last : after.lastOffered = before.lastOffered ∨
    ∃ command ∈ received, after.lastOffered = command.sequence
  room : before.queued.length ≤ Host.kMaxQueuedCommands →
    after.queued.length ≤ Host.kMaxQueuedCommands

theorem took_offers {vecLength : Math.Vec3 → Binary32} : ∀ {received : List SequencedCommand},
    (∀ command ∈ received, Host.malformed vecLength command.command = none) →
    received.Pairwise (fun a b => a.sequence < b.sequence) →
    ∀ {taken : Host.CommandQueue × ℕ},
      (received.foldl (offer vecLength) taken).2 = taken.2 →
      Took received taken.1 (received.foldl (offer vecLength) taken).1
  | [], _, _, taken, _ =>
      { keeps := List.Subset.refl _
        takes := by rintro command ⟨⟩
        newest := by rintro command ⟨⟩
        grows := UInt64.le_refl _
        last := .inl rfl
        room := id }
  | first :: rest, hform, hincreasing, taken, hroomy => by
      obtain ⟨hfirst, hrest⟩ := List.pairwise_cons.mp hincreasing
      rw [List.foldl_cons] at hroomy ⊢
      have hdropped := offers_dropped vecLength rest (offer vecLength taken first)
      have ih := @took_offers vecLength rest
        (fun command hmem => hform command (List.mem_cons_of_mem _ hmem)) hrest
        (offer vecLength taken first)
      rcases offer_cases vecLength taken first with ⟨hsame, hold⟩ | ⟨hnewer, ⟨hroom, hqueued⟩ | hfull⟩
      · rw [hsame] at hroomy ih ⊢
        have hold := hold.resolve_right fun h => h (hform first List.mem_cons_self)
        obtain ⟨hkeeps, htakes, hnewest, hgrows, hlast, hroom⟩ := ih hroomy
        refine ⟨hkeeps, ?_, ?_, hgrows, ?_, hroom⟩
        · intro command hmem
          rcases List.mem_cons.mp hmem with rfl | hmem
          · exact .inl hold
          · exact htakes command hmem
        · intro command hmem
          rcases List.mem_cons.mp hmem with rfl | hmem
          · exact UInt64.le_trans hold hgrows
          · exact hnewest command hmem
        · exact hlast.imp_right fun ⟨command, hmem, heq⟩ =>
            ⟨command, List.mem_cons_of_mem _ hmem, heq⟩
      · rw [hqueued] at hroomy ih ⊢
        obtain ⟨hkeeps, htakes, hnewest, hgrows, hlast, hroomAfter⟩ := ih hroomy
        refine ⟨fun command hmem => hkeeps (List.mem_append_left _ hmem), ?_, ?_,
          UInt64.le_trans (UInt64.le_of_lt hnewer) hgrows, ?_, fun _ => hroomAfter ?_⟩
        · intro command hmem
          rcases List.mem_cons.mp hmem with rfl | hmem
          · exact .inr (hkeeps (List.mem_append_right _ List.mem_cons_self))
          · exact .inr ((htakes command hmem).resolve_left
              (UInt64.not_le.mpr (hfirst command hmem)))
        · intro command hmem
          rcases List.mem_cons.mp hmem with rfl | hmem
          · exact hgrows
          · exact hnewest command hmem
        · rcases hlast with heq | ⟨command, hmem, heq⟩
          · exact .inr ⟨first, List.mem_cons_self, heq⟩
          · exact .inr ⟨command, List.mem_cons_of_mem _ hmem, heq⟩
        · rw [List.length_append, List.length_singleton]
          exact hroom
      · rw [hfull] at hroomy hdropped
        simp only at hroomy hdropped
        omega

/-- Up to the newest arrival, each Command of an arrived message's Match was taken in. -/
structure Delivered (p : Passage) : Prop where
  offered : p.commands.lastOffered.toNat = arrivedUpTo p.arrivals
  through : ∀ message ∈ p.arrivals, ∀ sending, p.sent[message]? = some sending →
    ∀ k command, p.queued[k]? = some command → sending.since ≤ k → k ≤ message →
      ∃ taken ∈ p.handed ++ p.commands.queued, taken.sequence = command.sequence
  room : p.commands.queued.length ≤ Host.kMaxQueuedCommands

theorem delivered_start (inbox : Inbox) (tickRateHz : UInt8) :
    Delivered (Passage.start inbox tickRateHz) where
  offered := rfl
  through := by rintro message ⟨⟩
  room := Nat.zero_le _

theorem delivered_clientTick {p : Passage} (hs : Sound p) (hw : Windowed p) (h : Delivered p) (command : Command) :
    Delivered (p.clientTick command) := by
  by_cases hin : p.inbox.view.inMatch = true
  swap
  · rw [Passage.clientTick, if_pos hin]
    exact h
  rw [Passage.clientTick, if_neg (not_not_intro hin)]
  refine ⟨h.offered, ?_, h.room⟩
  intro message hmem sending hsending k taken hk hmine hup
  have hknown := hs.known message hmem
  rw [List.getElem?_append_left hknown] at hsending
  rw [List.getElem?_append_left (by rw [← hw.length]; omega)] at hk
  exact h.through message hmem sending hsending k taken hk hmine hup

theorem delivered_serverTick {p : Passage} (hs : Sound p) (h : Delivered p)
    (state : AuthoritativeState) : Delivered (p.serverTick state) := by
  obtain ⟨-, hsame, -, -⟩ := hs.inStep.next
  have hoffered : p.commands.next.2.lastOffered = p.commands.lastOffered ∧
      p.commands.next.2.queued.length ≤ p.commands.queued.length := by
    cases hqueued : p.commands.queued with
    | nil =>
        obtain ⟨-, -, hempty, hoffered, -⟩ := Host.CommandQueue.next_nil hqueued
        exact ⟨hoffered, Nat.le_of_eq (congrArg List.length hempty)⟩
    | cons first rest =>
        rw [Host.CommandQueue.next_cons hqueued]
        exact ⟨rfl, Nat.le_succ _⟩
  refine ⟨hoffered.1 ▸ h.offered, ?_, Nat.le_trans hoffered.2 h.room⟩
  intro message hmem sending hsending k command hk hmine hup
  obtain ⟨taken, htaken, heq⟩ := h.through message hmem sending hsending k command hk hmine hup
  exact ⟨taken, hsame ▸ htaken, heq⟩

theorem arrivedUpTo_concat (arrivals : List ℕ) (message : ℕ) :
    arrivedUpTo (arrivals ++ [message]) = message + 1 := by
  rw [arrivedUpTo, List.getLast?_concat]
  rfl

/-- What is acknowledged was offered. -/
theorem Sound.acknowledged_le_offered {p : Passage} (h : Sound p) :
    p.commands.acknowledged ≤ p.commands.lastOffered := by
  rw [h.inStep.acknowledged]
  cases hlast : p.handed.getLast? with
  | none => exact UInt64.le_iff_toNat_le.mpr (Nat.zero_le _)
  | some last => exact h.inStep.offered last (List.mem_append_left _ (List.mem_of_getLast? hlast))

theorem delivered_arrive {vecLength : Math.Vec3 → Binary32} {p : Passage} {message : ℕ}
    {sending : Sending} (hs : Sound p) (hw : Windowed p) (h : Delivered p)
    (hsent : p.sent[message]? = some sending)
    (hcalm : Calm vecLength (p.arrive vecLength message sending)) (hroomy : p.dropped = 0) :
    Delivered (p.arrive vecLength message sending) := by
  have hmem := List.mem_of_getElem? hsent
  obtain ⟨hcarries, hsince⟩ := hw.sent message sending hsent
  obtain ⟨hpace, hskip⟩ := hcalm.paced p.arrivals message [] rfl
  have hreceived := received_eq (hs.sent sending hmem).1
  have hform : ∀ command ∈ arrivedAll sending.commands,
      Host.malformed vecLength command.command = none := by
    intro command hcommand
    obtain ⟨source, hsource, rfl⟩ := List.mem_map.mp hcommand
    exact hcalm.wellFormed source ((hs.sent sending hmem).2 source hsource) _
  have hincreasing : (arrivedAll sending.commands).Pairwise fun a b => a.sequence < b.sequence :=
    List.pairwise_map.mpr (hcarries.increasing.imp UInt64.lt_iff_toNat_lt.mpr)
  have hdrops : ((arrivedAll sending.commands).foldl (offer vecLength) (p.commands, p.dropped)).2 =
      p.dropped := by
    have := hcalm.roomy
    rw [Passage.arrive, hreceived] at this
    rw [hroomy] at this ⊢
    exact this
  obtain ⟨hkeeps, htakes, hnewest, hgrows, hlast, hroom⟩ := took_offers hform hincreasing hdrops
  have hold : ∀ taken ∈ p.handed ++ p.commands.queued, taken ∈ p.handed ++
      ((arrivedAll sending.commands).foldl (offer vecLength) (p.commands, p.dropped)).1.queued := by
    intro taken htaken
    rcases List.mem_append.mp htaken with hhanded | hqueued
    · exact List.mem_append_left _ hhanded
    · exact List.mem_append_right _ (hkeeps hqueued)
  rw [Passage.arrive, hreceived]
  refine ⟨?_, ?_, hroom h.room⟩
  · rw [arrivedUpTo_concat]
    obtain ⟨own, hown, hnumber⟩ := hcarries.own
    have hle := UInt64.le_iff_toNat_le.mp (hnewest ⟨own.sequence, _⟩
      (List.mem_map.mpr ⟨own, hown, rfl⟩))
    rcases hlast with heq | ⟨command, hcommand, heq⟩
    · simp only [heq] at hle ⊢
      rw [h.offered] at hle ⊢
      omega
    · obtain ⟨source, hsource, rfl⟩ := List.mem_map.mp hcommand
      have := hcarries.newest source hsource
      simp only [heq] at hle ⊢
      omega
  · intro other hother late hlate k command hk hmine hup
    rcases List.mem_append.mp hother with hother | hother
    · obtain ⟨taken, htaken, heq⟩ := h.through other hother late hlate k command hk hmine hup
      exact ⟨taken, hold taken htaken, heq⟩
    · rw [List.mem_singleton.mp hother] at hlate hup
      cases hsent.symm.trans hlate
      have hnumber := hw.numbered k command hk
      rcases Nat.lt_or_ge k (arrivedUpTo p.arrivals) with hbefore | hafter
      · -- the last arrival before had brought it
        cases hlastArrival : p.arrivals.getLast? with
        | none =>
            rw [arrivedUpTo, hlastArrival] at hbefore
            exact absurd hbefore (Nat.not_lt_zero k)
        | some last =>
            have hupTo : arrivedUpTo p.arrivals = last + 1 := by rw [arrivedUpTo, hlastArrival]; rfl
            have hlastMem := List.mem_of_getLast? hlastArrival
            have hearlier := List.getElem?_eq_getElem (hs.known last hlastMem)
            obtain ⟨taken, htaken, heq⟩ := h.through last hlastMem _ hearlier k command hk
              (Nat.le_trans (hw.sinces last message _ sending (by omega) hearlier hsent) hmine)
              (by omega)
            exact ⟨taken, hold taken htaken, heq⟩
      · -- this message carries it, unless the server has handed it out, which it cannot have
        have hcarried : command ∈ sending.commands := by
          refine (hcarries.recent k command hk hmine hup (by omega)).resolve_right fun hack => ?_
          have := UInt64.le_iff_toNat_le.mp (UInt64.le_trans hack hs.acknowledged_le_offered)
          rw [hnumber, h.offered] at this
          omega
        refine ⟨⟨command.sequence, arrived (newestSeen sending.commands) command.command⟩, ?_, rfl⟩
        refine List.mem_append_right _ ((htakes _ (List.mem_map.mpr ⟨command, hcarried, rfl⟩)).resolve_left
          fun hle => ?_)
        have := UInt64.le_iff_toNat_le.mp hle
        rw [h.offered] at this
        simp only [hnumber] at this
        omega

theorem delivered_step {vecLength : Math.Vec3 → Binary32} {p p' : Passage} {event : Event}
    (hs : Sound p) (hw : Windowed p) (h : Delivered p) (hstep : p.step vecLength event = some p')
    (hcalm : Calm vecLength p') : Delivered p' := by
  have hroomy := (hcalm.before (grows_step hstep)).roomy
  cases event with
  | clientTick command =>
      cases hstep
      exact delivered_clientTick hs hw h command
  | arrive message =>
      obtain ⟨sending, hsent, rfl⟩ := Option.map_eq_some_iff.mp hstep
      exact delivered_arrive hs hw h hsent hcalm hroomy
  | serverTick state =>
      rw [Passage.step] at hstep
      split_ifs at hstep
      cases hstep
      exact delivered_serverTick hs h state
  | hear message =>
      rw [Passage.step] at hstep
      split_ifs at hstep
      cases hstep
      exact ⟨h.offered, h.through, h.room⟩

/-- Calm to its end, a run was calm all along. -/
theorem delivered_run {vecLength : Math.Vec3 → Binary32} {inbox : Inbox} {tickRateHz : UInt8}
    {events : List Event} {p : Passage}
    (hrun : (Passage.start inbox tickRateHz).run vecLength events = some p) :
    Calm vecLength p → Windowed p ∧ Delivered p := by
  have hgood : Sound p ∧ (Calm vecLength p → Windowed p ∧ Delivered p) := by
    refine Lib.run.invariant (I := fun p => Sound p ∧ (Calm vecLength p → Windowed p ∧ Delivered p))
      (fun {p event p'} h hstep => ?_)
      ⟨sound_start inbox tickRateHz, fun _ =>
        ⟨windowed_start inbox tickRateHz, delivered_start inbox tickRateHz⟩⟩ hrun
    refine ⟨sound_step h.1 hstep, fun hcalm => ?_⟩
    obtain ⟨hw, hd⟩ := h.2 (hcalm.before (grows_step hstep))
    exact ⟨windowed_step h.1 hw hstep hcalm.few, delivered_step h.1 hw hd hstep hcalm⟩
  exact hgood.2

/-! ### The law -/

/-- The messages that arrive do so in the order they were sent, and of any `kMaxCommandsPerMessage`
    consecutive ones one does. -/
structure Orderly (p : Passage) : Prop where
  inOrder : p.arrivals.Pairwise (· ≤ ·)
  fewLost : ∀ i, i + kMaxCommandsPerMessage ≤ p.sent.length →
    ∃ message ∈ p.arrivals, i ≤ message ∧ message < i + kMaxCommandsPerMessage

theorem le_getLast_of_pairwise {arrivals : List ℕ} (h : arrivals.Pairwise (· ≤ ·)) {message : ℕ}
    (hmem : message ∈ arrivals) : message + 1 ≤ arrivedUpTo arrivals := by
  induction arrivals using List.reverseRecOn with
  | nil => cases hmem
  | append_singleton before last _ =>
      rw [arrivedUpTo_concat]
      rcases List.mem_append.mp hmem with hbefore | hlast
      · exact Nat.succ_le_succ
          ((List.pairwise_append.mp h).2.2 message hbefore last List.mem_cons_self)
      · exact Nat.le_of_eq (congrArg (· + 1) (List.mem_singleton.mp hlast))

/-- An arrival that skipped more messages than that would leave as many in a row lost. -/
theorem Orderly.paced {p : Passage} (h : Orderly p)
    (hknown : ∀ message ∈ p.arrivals, message < p.sent.length) : Paced p.arrivals := by
  intro before message after hsplit
  have hinOrder := h.inOrder
  rw [hsplit] at hinOrder
  obtain ⟨hbefore, hafter, hacross⟩ := List.pairwise_append.mp hinOrder
  have hfrom : arrivedUpTo before ≤ message + 1 := by
    cases hlast : before.getLast? with
    | none => rw [arrivedUpTo, hlast]; exact Nat.zero_le _
    | some last =>
        rw [arrivedUpTo, hlast]
        exact Nat.succ_le_succ (hacross last (List.mem_of_getLast? hlast) message List.mem_cons_self)
  refine ⟨hfrom, ?_⟩
  by_contra hskips
  have hmessage := hknown message (by rw [hsplit]; simp)
  obtain ⟨between, hmem, hlow, hhigh⟩ := h.fewLost (arrivedUpTo before) (by omega)
  rw [hsplit] at hmem
  rcases List.mem_append.mp hmem with hearly | hlate
  · have := le_getLast_of_pairwise hbefore hearly
    omega
  · rcases List.mem_cons.mp hlate with rfl | hlater
    · omega
    · have := (List.pairwise_cons.mp hafter).1 between hlater
      omega

/-- A message of the `k`-th Command's Match, from its own on, has arrived, or is at least the last
    that could carry it. -/
def Due (p : Passage) (k : ℕ) : Prop :=
  ∃ message sending, k ≤ message ∧ p.sent[message]? = some sending ∧ sending.since ≤ k ∧
    (message ∈ p.arrivals ∨ k + kMaxCommandsPerMessage ≤ message + 1)

theorem due_delivered {p : Passage} (hw : Windowed p) (h : Delivered p) (hlost : Orderly p) {k : ℕ}
    {command : SequencedCommand} (hk : p.queued[k]? = some command) (hdue : Due p k) :
    ∃ taken ∈ p.handed ++ p.commands.queued, taken.sequence = command.sequence := by
  obtain ⟨message, sending, hup, hsending, hmine, hreached⟩ := hdue
  have hsent := (List.getElem?_eq_some_iff.mp hsending).1
  rcases hreached with harrived | hlast
  · exact h.through message harrived sending hsending k command hk hmine hup
  · obtain ⟨between, hmem, hlow, hhigh⟩ := hlost.fewLost k (by omega)
    have hbetween := List.getElem?_eq_getElem (show between < p.sent.length by omega)
    exact h.through between hmem _ hbetween k command hk
      (Nat.le_trans (hw.sinces between message _ sending (by omega) hbetween hsending) hmine) hlow

/-- Server ticks alone hand out what is queued, one a tick. -/
theorem serverTicks_hand {vecLength : Math.Vec3 → Binary32} : ∀ {ticks : List AuthoritativeState}
    {p p' : Passage}, Sound p → p.run vecLength (ticks.map .serverTick) = some p' → Sound p' ∧
      p'.handed ++ p'.commands.queued = p.handed ++ p.commands.queued ∧
      p'.commands.queued.length = p.commands.queued.length - ticks.length
  | [], p, p', hs, hrun => by
      cases hrun
      exact ⟨hs, rfl, rfl⟩
  | state :: ticks, p, p', hs, hrun => by
      rw [Passage.run, List.map_cons, Lib.run.cons, Option.bind_eq_some_iff] at hrun
      obtain ⟨mid, hstep, hrun⟩ := hrun
      have hmid := sound_step hs hstep
      rw [Passage.step] at hstep
      split_ifs at hstep
      cases hstep
      obtain ⟨hs', hsame, hlength⟩ := serverTicks_hand hmid hrun
      refine ⟨hs', hsame.trans hs.inStep.next.2.1, hlength.trans ?_⟩
      rw [List.length_cons]
      cases hqueued : p.commands.queued with
      | nil =>
          obtain ⟨-, -, hempty, -, -⟩ := Host.CommandQueue.next_nil hqueued
          simp only [Passage.serverTick, hempty]
          simp
      | cons first rest =>
          simp only [Passage.serverTick, Host.CommandQueue.next_cons hqueued, List.length_cons]
          omega

/-- A sequence in a list of growing ones is there once. -/
theorem count_of_increasing {commands : List SequencedCommand} {command : SequencedCommand}
    (h : commands.Pairwise fun a b => a.sequence < b.sequence) (hmem : command ∈ commands) :
    commands.countP (fun other => other.sequence == command.sequence) = 1 := by
  obtain ⟨before, after, rfl⟩ := List.append_of_mem hmem
  obtain ⟨-, hafter, hacross⟩ := List.pairwise_append.mp h
  have hbefore : before.countP (fun other => other.sequence == command.sequence) = 0 := by
    rw [List.countP_eq_zero]
    intro other hother heq
    have := hacross other hother command List.mem_cons_self
    rw [eq_of_beq heq] at this
    exact UInt64.lt_irrefl _ this
  have hrest : after.countP (fun other => other.sequence == command.sequence) = 0 := by
    rw [List.countP_eq_zero]
    intro other hother heq
    have := (List.pairwise_cons.mp hafter).1 other hother
    rw [eq_of_beq heq] at this
    exact UInt64.lt_irrefl _ this
  rw [List.countP_append, List.countP_cons, hbefore, hrest, beq_self_eq_true]
  rfl

/-- CORRECT: whatever the network does, each Command handed to the World as sent is one the client
    queued, as it arrives in a message of the client's, and their sequences grow; what the client
    hears acknowledged was a sequence of its own, and never goes back while it holds a state of the
    Match. Where messages arrive in order and fewer than `kMaxCommandsPerMessage` in a row are lost,
    every Command is well formed, none is dropped and the sequences do not run out, each Command
    due is handed out exactly once, given a queue's length of server ticks. -/
theorem passage_law {vecLength : Math.Vec3 → Binary32} {inbox : Inbox} {tickRateHz : UInt8}
    {events : List Event} {p : Passage}
    (hrun : (Passage.start inbox tickRateHz).run vecLength events = some p) :
    (∀ command ∈ p.handed, ∃ sending ∈ p.sent, ∃ source ∈ sending.commands, source ∈ p.queued ∧
      command = ⟨source.sequence, arrived (newestSeen sending.commands) source.command⟩) ∧
    (p.handed.Pairwise fun a b => a.sequence < b.sequence) ∧
    p.heard.Pairwise (· ≤ ·) ∧ (∀ sequence ∈ p.heard, Given p.queued sequence) ∧
    (p.queued.length + 1 < 2 ^ 64 →
      (∀ command ∈ p.queued, ∀ newest,
        Host.malformed vecLength (arrived newest command.command) = none) →
      p.dropped = 0 → Orderly p →
      ∀ k command, p.queued[k]? = some command → Due p k →
        ∀ (ticks : List AuthoritativeState) p', Host.kMaxQueuedCommands ≤ ticks.length →
          p.run vecLength (ticks.map .serverTick) = some p' →
            p'.handed.countP (fun taken => taken.sequence == command.sequence) = 1) := by
  have hs := sound_run hrun
  refine ⟨fun command hmem => ?_, (List.pairwise_append.mp hs.inStep.ordered).1, hs.heard, hs.given,
    fun hfew hform hroomy hlost k command hk hdue ticks p' hticks hrun' => ?_⟩
  · obtain ⟨sending, hsending, harrived⟩ :=
      hs.inStep.origin command (List.mem_append_left _ hmem)
    obtain ⟨source, hsource, rfl⟩ := List.mem_map.mp harrived
    exact ⟨sending, hsending, source, hsource, (hs.sent sending hsending).2 source hsource, rfl⟩
  · obtain ⟨hw, hd⟩ := delivered_run hrun ⟨hfew, hform, hroomy, hlost.paced hs.known⟩
    obtain ⟨taken, htaken, heq⟩ := due_delivered hw hd hlost hk hdue
    obtain ⟨hs', hsame, hlength⟩ := serverTicks_hand hs hrun'
    have hempty : p'.commands.queued = [] := by
      have := hd.room
      exact List.eq_nil_of_length_eq_zero (by omega)
    rw [hempty, List.append_nil] at hsame
    have hordered := (List.pairwise_append.mp hs'.inStep.ordered).1
    rw [← heq]
    exact count_of_increasing hordered (hsame ▸ htaken)

/-! ### Two passages -/

/-- What a Command saw does not make it malformed. -/
theorem malformed_arrived {vecLength : Math.Vec3 → Binary32} (newest other : Tick)
    (command : Command) : Host.malformed vecLength (arrived newest command) =
      Host.malformed vecLength (arrived other command) := by
  unfold Host.malformed arrived
  rfl

/-- A client in its first match. -/
def playing : Inbox where
  view :=
    { accepted := some { session := 5, tickRateHz := 60, character := "scout" }
      matchStart := some { players := [{ session := 5, entity := 1, character := "scout" }] }
      matchesStarted := 1
      inMatch := true }

/-- The length of a direction along the x axis. -/
def along (direction : Math.Vec3) : Binary32 := direction.x.abs

/-- Seven messages lost in a row, and the eighth arrives. -/
def onlyEighth : List Event :=
  List.replicate 8 (.clientTick {}) ++ [.arrive 7, .serverTick { tick := 1 }]

def laterTicks : List AuthoritativeState :=
  (List.range 16).map fun k => { tick := UInt64.ofNat (k + 2) }

def afterEighth : Passage := ((Passage.start playing 60).run along onlyEighth).get rfl

/-- The first Command is handed out once all the same. -/
theorem passage_law_onlyEighth :
    (Passage.start playing 60).run along onlyEighth = some afterEighth ∧
      ∃ p', afterEighth.run along (laterTicks.map .serverTick) = some p' ∧
        p'.handed.countP (fun taken => taken.sequence == 1) = 1 := by
  have hrun : (Passage.start playing 60).run along onlyEighth = some afterEighth := rfl
  refine ⟨hrun, _, rfl, ?_⟩
  refine (passage_law hrun).2.2.2.2 (by decide) ?_ rfl
    ⟨List.pairwise_singleton _ 7, fun i hi => ⟨7, List.mem_cons_self, ?_, ?_⟩⟩ 0 ⟨1, {}⟩ rfl
    ⟨7, ⟨0, (List.range 8).map fun k => ⟨UInt64.ofNat (k + 1), {}⟩⟩, by decide, rfl, Nat.le_refl 0,
      .inl List.mem_cons_self⟩ laterTicks _ (by decide) rfl
  · intro command hmem newest
    have hall : ∀ other ∈ (List.range 8).map
        fun k => (⟨UInt64.ofNat (k + 1), {}⟩ : SequencedCommand), other.command = {} := by
      decide
    rw [hall command hmem, malformed_arrived newest 0]
    rfl
  · change i + 8 ≤ 8 at hi
    omega
  · change 7 < i + 8
    omega

/-- The tick a client is shown jumps, and of the two messages that say so only the newer arrives. -/
def jumped : List Event :=
  [.clientTick { seenTick := 0 }, .clientTick { seenTick := 300, fire := true }, .arrive 1,
    .serverTick { tick := 1 }]

/-- The older Command is not handed out as the client queued it. -/
theorem content_kept_jumped :
    ¬ ∀ vecLength inbox tickRateHz events p,
      (Passage.start inbox tickRateHz).run vecLength events = some p →
        ∀ command ∈ p.handed, command ∈ p.queued := by
  intro h
  have hqueued := h along playing 60 jumped _ rfl ⟨1, { seenTick := 45 }⟩ List.mem_cons_self
  revert hqueued
  decide

end Augusta.Harness
