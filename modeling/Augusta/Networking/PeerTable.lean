import Augusta.Core.Command
import Mathlib.Data.List.Basic
import Mathlib.Data.List.Count
import Mathlib.Data.List.Induction
import Mathlib.Tactic.Tauto
import Mathlib.Tactic.SplitIfs

/-! `augusta::networking::PeerTable`: the server's peers as its transport events leave them.

        kConnecting          kConnected             an end
      ─────────────▶ pending ──────────▶ connected ───────▶ gone, kDisconnected queued
                        │   answer          │
                        └── forget, lose ───┴───▶ gone; `lose` queues a kDisconnected too

    The callback publishes an event; the owner drains and applies it later, and a send or a
    `Disconnect` of this side may end the connection between the two. -/

namespace Augusta.Networking

inductive TransportState
  | connecting | connected | closedByPeer | problemDetectedLocally | other
  deriving DecidableEq, Repr

def hasEnded (state : TransportState) : Bool :=
  state == .closedByPeer || state == .problemDetectedLocally

/-- One status change, as the callback publishes it. -/
structure TransportEvent where
  connection : UInt32
  state : TransportState
  deriving DecidableEq, Repr

/-- The transport call the owner makes for one event. -/
inductive TransportCall
  | none | joinPollGroup | close
  deriving DecidableEq, Repr

inductive PeerEventType
  | connectRequested | connected | disconnected
  deriving DecidableEq, Repr

inductive DisconnectReason
  | closedByPeer | connectionLost
  deriving DecidableEq, Repr

structure PeerEvent where
  peer : PeerId
  type : PeerEventType
  /-- Only meaningful for `disconnected`. -/
  reason : DisconnectReason := .closedByPeer
  deriving DecidableEq, Repr

/-- Two sets of connections and the one-shot events not yet taken, oldest first. -/
structure PeerTable where
  pending : List UInt32 := []
  connected : List UInt32 := []
  queued : List PeerEvent := []
  deriving DecidableEq, Repr

namespace PeerTable

/-- The connection was closed by this side: it is neither pending nor connected. -/
def forget (t : PeerTable) (connection : UInt32) : PeerTable :=
  { t with
    pending := t.pending.filter (· ≠ connection)
    connected := t.connected.filter (· ≠ connection) }

/-- The connection has been accepted or refused: it is no longer requested. -/
def answer (t : PeerTable) (connection : UInt32) : PeerTable :=
  { t with pending := t.pending.filter (· ≠ connection) }

def apply (t : PeerTable) (event : TransportEvent) : TransportCall × PeerTable :=
  match event.state with
  | .connecting => (.none, { t with pending := t.pending.insert event.connection })
  | .connected =>
      (.joinPollGroup,
        { pending := t.pending.filter (· ≠ event.connection)
          connected := t.connected.insert event.connection
          queued := t.queued ++ [⟨event.connection, .connected, .closedByPeer⟩] })
  | .closedByPeer =>
      (.close, { t.forget event.connection with
        queued := t.queued ++ [⟨event.connection, .disconnected, .closedByPeer⟩] })
  | .problemDetectedLocally =>
      (.close, { t.forget event.connection with
        queued := t.queued ++ [⟨event.connection, .disconnected, .connectionLost⟩] })
  | .other => (.none, t)

def isOpen (t : PeerTable) (connection : UInt32) : Bool :=
  connection ∈ t.pending ∨ connection ∈ t.connected

/-- The connection is ended by this side because the transport could not keep it: forgotten, and
    reported; nothing if it was not open. -/
def lose (t : PeerTable) (connection : UInt32) : TransportCall × PeerTable :=
  if ¬ t.isOpen connection then (.none, t)
  else
    (.close, { t.forget connection with
      queued := t.queued ++ [⟨connection, .disconnected, .connectionLost⟩] })

/-- The one-shot events queued, then a request for every peer still waiting for an answer. -/
def takeEvents (t : PeerTable) : List PeerEvent × PeerTable :=
  (t.queued ++ t.pending.map fun connection => ⟨connection, .connectRequested, .closedByPeer⟩,
    { t with queued := [] })

end PeerTable

inductive PeerOp
  | apply (event : TransportEvent)
  | answer (connection : UInt32)
  | forget (connection : UInt32)
  | lose (connection : UInt32)
  | takeEvents
  deriving DecidableEq

/-- A run of the table: what it holds, what `takeEvents` has returned, oldest first, and the
    connections this side has ended, by `forget` or by a `lose` that found them open. -/
structure PeerRun where
  table : PeerTable := {}
  taken : List PeerEvent := []
  closed : List UInt32 := []

namespace PeerRun

def step (s : PeerRun) : PeerOp → PeerRun
  | .apply event => { s with table := (s.table.apply event).2 }
  | .answer connection => { s with table := s.table.answer connection }
  | .forget connection =>
      { s with table := s.table.forget connection, closed := connection :: s.closed }
  | .lose connection =>
      { s with
        table := (s.table.lose connection).2
        closed := if s.table.isOpen connection then connection :: s.closed else s.closed }
  | .takeEvents =>
      { s with table := s.table.takeEvents.2, taken := s.taken ++ s.table.takeEvents.1 }

def run (ops : List PeerOp) : PeerRun := ops.foldl step {}

theorem run_concat (ops : List PeerOp) (op : PeerOp) : run (ops ++ [op]) = (run ops).step op := by
  simp [run]

end PeerRun

/-- The states of one connection that a run applies, oldest first, but for those nothing acts on. -/
def statesOf (connection : UInt32) (ops : List PeerOp) : List TransportState :=
  ops.filterMap fun
    | .apply event =>
        if event.connection = connection ∧ event.state ≠ .other then some event.state else none
    | _ => none

/-- One connection's life: connecting at most once, then connected, then at most one end. -/
def OneLife (connection : UInt32) (ops : List PeerOp) : Prop :=
  ∃ final, hasEnded final ∧ (statesOf connection ops).Sublist [.connecting, .connected, final]

/-- How many departures of `connection` are among `events`. -/
def departures (connection : UInt32) (events : List PeerEvent) : ℕ :=
  events.countP fun event => event.peer = connection ∧ event.type = .disconnected

/-- Each departure reported once at most, none queued after this side ended the connection, no
    request of a connection connected or gone, and no connection both pending and connected. -/
structure DepartureLaw (ops : List PeerOp) : Prop where
  once : ∀ connection, departures connection (PeerRun.run ops).taken ≤ 1
  early : ∀ before op after, ops = before ++ op :: after → ∀ new,
    ((PeerRun.run before).step op).table.queued = (PeerRun.run before).table.queued ++ new →
    ∀ event ∈ new, event.type = .disconnected → event.peer ∉ (PeerRun.run before).closed
  requests : ∀ before after, ops = before ++ .takeEvents :: after →
    ∀ event ∈ (PeerRun.run before).table.takeEvents.1, event.type = .connectRequested →
      event.peer ∉ (PeerRun.run before).table.connected ∧
      event.peer ∉ (PeerRun.run before).closed ∧
      ∀ state ∈ statesOf event.peer before, hasEnded state = false
  disjoint : ∀ before after, ops = before ++ after →
    (PeerRun.run before).table.pending.Disjoint (PeerRun.run before).table.connected

/-- No status of a connection is applied once this side has ended the connection. -/
def NoLateStatus (ops : List PeerOp) : Prop :=
  ∀ before event after, ops = before ++ .apply event :: after → event.state ≠ .other →
    event.connection ∉ (PeerRun.run before).closed

/-! ### What the table knows of one connection -/

structure Sound (ops : List PeerOp) (s : PeerRun) (c : UInt32) : Prop where
  pending : c ∈ s.table.pending → c ∉ s.closed ∧ ∀ x ∈ statesOf c ops, x = .connecting
  connected : c ∈ s.table.connected → c ∉ s.closed ∧ .connected ∈ statesOf c ops ∧
    ∀ x ∈ statesOf c ops, hasEnded x = false
  once : departures c (s.taken ++ s.table.queued) ≤ 1
  gone : 1 ≤ departures c (s.taken ++ s.table.queued) →
    c ∈ s.closed ∨ ∃ x ∈ statesOf c ops, hasEnded x = true

@[simp] theorem departures_append (c : UInt32) (xs ys : List PeerEvent) :
    departures c (xs ++ ys) = departures c xs + departures c ys := by
  simp [departures]

theorem departures_requests (c : UInt32) (pending : List UInt32) :
    departures c (pending.map fun connection => ⟨connection, .connectRequested, .closedByPeer⟩) =
      0 := by
  simp [departures]

theorem statesOf_concat (c : UInt32) (ops : List PeerOp) (op : PeerOp) :
    statesOf c (ops ++ [op]) = statesOf c ops ++ statesOf c [op] := by
  simp [statesOf]

theorem OneLife.before {c : UInt32} {ops : List PeerOp} {op : PeerOp}
    (h : OneLife c (ops ++ [op])) : OneLife c ops := by
  obtain ⟨final, hfinal, hsub⟩ := h
  rw [statesOf_concat] at hsub
  exact ⟨final, hfinal, (List.sublist_append_left _ _).trans hsub⟩

/-- What a connection has been through when its next status comes. -/
theorem OneLife.history {c : UInt32} {ops : List PeerOp} {state : TransportState}
    (h : OneLife c (ops ++ [.apply ⟨c, state⟩])) :
    (state = .connecting → statesOf c ops = []) ∧
    (state = .connected → ∀ x ∈ statesOf c ops, x = .connecting) ∧
    (hasEnded state = true → ∀ x ∈ statesOf c ops, hasEnded x = false) := by
  obtain ⟨final, hfinal, hsub⟩ := h
  by_cases hother : state = .other
  · subst hother; simp [hasEnded]
  rw [statesOf_concat, show statesOf c [.apply ⟨c, state⟩] = [state] by simp [statesOf, hother],
    List.append_sublist_iff] at hsub
  obtain ⟨first, rest, hsplit, hpast, hnow⟩ := hsub
  have hnow : state ∈ rest := List.singleton_sublist.mp hnow
  match first, hsplit with
  | [], _ =>
      rw [List.sublist_nil.mp hpast]; simp
  | [_], hsplit =>
      obtain ⟨rfl, rfl⟩ := List.cons.inj hsplit
      have hconnecting : ∀ x ∈ statesOf c ops, x = .connecting := fun x hx => by
        simpa using hpast.subset hx
      refine ⟨?_, fun _ => hconnecting, fun _ x hx => by rw [hconnecting x hx]; rfl⟩
      rintro rfl
      rcases List.mem_pair.mp hnow with h | h
      · cases h
      · rw [← h] at hfinal; cases hfinal
  | [_, _], hsplit =>
      simp only [List.cons_append, List.nil_append, List.cons.injEq] at hsplit
      obtain ⟨rfl, rfl, rfl⟩ := hsplit
      obtain rfl := List.mem_singleton.mp hnow
      refine ⟨?_, ?_, fun _ x hx => ?_⟩
      · rintro rfl; cases hfinal
      · rintro rfl; cases hfinal
      · rcases List.mem_pair.mp (hpast.subset hx) with rfl | rfl <;> rfl
  | [_, _, _], hsplit =>
      simp only [List.cons_append, List.nil_append, List.cons.injEq] at hsplit
      rw [← hsplit.2.2.2] at hnow; cases hnow
  | _ :: _ :: _ :: _ :: _, hsplit => simp at hsplit

/-- Operations on other connections, and those that say nothing of any, leave `c` as it was. -/
theorem statesOf_other {c : UInt32} {event : TransportEvent}
    (h : event.connection ≠ c ∨ event.state = .other) : statesOf c [.apply event] = [] := by
  rcases h with h | h <;> simp [statesOf, h]

theorem sound_init (c : UInt32) : Sound [] {} c where
  pending := by simp
  connected := by simp
  once := by simp [departures]
  gone := by simp [departures]

/-- An end of `c`, from either side, with its one report. -/
theorem Sound.ended {ops' : List PeerOp} {s s' : PeerRun} {c : UInt32}
    (hpending : c ∉ s'.table.pending) (hconnected : c ∉ s'.table.connected)
    (hnone : departures c (s.taken ++ s.table.queued) = 0)
    (hone : departures c (s'.taken ++ s'.table.queued) ≤
      departures c (s.taken ++ s.table.queued) + 1)
    (hgone : c ∈ s'.closed ∨ ∃ x ∈ statesOf c ops', hasEnded x = true) : Sound ops' s' c where
  pending := fun h => absurd h hpending
  connected := fun h => absurd h hconnected
  once := by omega
  gone := fun _ => hgone

/-- A connection still open has had no departure. -/
theorem Sound.open_quiet {ops : List PeerOp} {s : PeerRun} {c : UInt32} (h : Sound ops s c)
    (hopen : c ∈ s.table.pending ∨ c ∈ s.table.connected) :
    departures c (s.taken ++ s.table.queued) = 0 := by
  by_contra hne
  rcases h.gone (Nat.one_le_iff_ne_zero.mpr hne) with hclosed | ⟨x, hx, hend⟩
  · rcases hopen with hp | hp
    · exact (h.pending hp).1 hclosed
    · exact (h.connected hp).1 hclosed
  · rcases hopen with hp | hp
    · rw [(h.pending hp).2 x hx] at hend; cases hend
    · rw [(h.connected hp).2.2 x hx] at hend; cases hend

/-- What one event does to another connection: nothing. -/
theorem PeerTable.apply_frame {c : UInt32} (t : PeerTable) (event : TransportEvent)
    (h : c ≠ event.connection) :
    (c ∈ (t.apply event).2.pending ↔ c ∈ t.pending) ∧
    (c ∈ (t.apply event).2.connected ↔ c ∈ t.connected) ∧
    departures c (t.apply event).2.queued = departures c t.queued := by
  unfold PeerTable.apply
  split <;> simp [PeerTable.forget, departures, h, Ne.symm h]

theorem sound_step {ops : List PeerOp} {s : PeerRun} {c : UInt32} (op : PeerOp)
    (hlife : OneLife c (ops ++ [op]))
    (hlate : ∀ event, op = .apply event → event.state ≠ .other → event.connection ∉ s.closed)
    (h : Sound ops s c) : Sound (ops ++ [op]) (s.step op) c := by
  cases op with
  | answer connection =>
      have hstates : statesOf c [.answer connection] = [] := rfl
      refine ⟨?_, ?_, h.once, ?_⟩ <;> rw [statesOf_concat, hstates, List.append_nil]
      · exact fun hp => h.pending (List.mem_filter.mp hp).1
      · exact h.connected
      · exact h.gone
  | takeEvents =>
      have hstates : statesOf c [.takeEvents] = [] := rfl
      have hcount : departures c ((s.step .takeEvents).taken ++ (s.step .takeEvents).table.queued) =
          departures c (s.taken ++ s.table.queued) := by
        simp [PeerRun.step, PeerTable.takeEvents, departures_requests]
      refine ⟨?_, ?_, hcount ▸ h.once, ?_⟩ <;> rw [statesOf_concat, hstates, List.append_nil]
      · exact h.pending
      · exact h.connected
      · rw [hcount]; exact h.gone
  | forget connection =>
      have hstates : statesOf c [.forget connection] = [] := rfl
      refine ⟨?_, ?_, h.once, ?_⟩ <;> rw [statesOf_concat, hstates, List.append_nil]
      · intro hp
        obtain ⟨hp, hne⟩ := List.mem_filter.mp hp
        have hne : c ≠ connection := by simpa using hne
        exact ⟨by simp [PeerRun.step, hne, (h.pending hp).1], (h.pending hp).2⟩
      · intro hp
        obtain ⟨hp, hne⟩ := List.mem_filter.mp hp
        have hne : c ≠ connection := by simpa using hne
        exact ⟨by simp [PeerRun.step, hne, (h.connected hp).1], (h.connected hp).2⟩
      · exact fun hd => (h.gone hd).imp_left fun hc => List.mem_cons_of_mem _ hc
  | lose connection =>
      have hstates : statesOf c [.lose connection] = [] := rfl
      by_cases hopen : s.table.isOpen connection = true
      · by_cases hc : c = connection
        · subst hc
          have hquiet := h.open_quiet (by simpa [PeerTable.isOpen] using hopen)
          refine Sound.ended (s := s) ?_ ?_ hquiet ?_ (.inl ?_) <;>
            simp [PeerRun.step, PeerTable.lose, hopen, PeerTable.forget, departures]
          omega
        · have hcount : departures c ((s.step (.lose connection)).taken ++
              (s.step (.lose connection)).table.queued) =
                departures c (s.taken ++ s.table.queued) := by
            simp [PeerRun.step, PeerTable.lose, hopen, PeerTable.forget, departures, Ne.symm hc]
          refine ⟨?_, ?_, hcount ▸ h.once, ?_⟩ <;> rw [statesOf_concat, hstates, List.append_nil]
          · intro hp
            have hp : c ∈ s.table.pending := by
              simpa [PeerRun.step, PeerTable.lose, hopen, PeerTable.forget, hc] using hp
            exact ⟨by simp [PeerRun.step, hopen, hc, (h.pending hp).1], (h.pending hp).2⟩
          · intro hp
            have hp : c ∈ s.table.connected := by
              simpa [PeerRun.step, PeerTable.lose, hopen, PeerTable.forget, hc] using hp
            exact ⟨by simp [PeerRun.step, hopen, hc, (h.connected hp).1], (h.connected hp).2⟩
          · rw [hcount]
            exact fun hd => (h.gone hd).imp_left fun hcl => by simp [PeerRun.step, hopen, hcl]
      · have hsame : s.step (.lose connection) = s := by
          simp [PeerRun.step, PeerTable.lose, hopen]
        rw [hsame]
        refine ⟨?_, ?_, h.once, ?_⟩ <;> rw [statesOf_concat, hstates, List.append_nil]
        · exact h.pending
        · exact h.connected
        · exact h.gone
  | apply event =>
      obtain ⟨connection, state⟩ := event
      by_cases hc : c = connection
      · subst hc
        obtain ⟨hfresh, hpast, hend⟩ := hlife.history
        have hlate := hlate _ rfl
        have hnow : state ≠ .other → statesOf c [.apply ⟨c, state⟩] = [state] :=
          fun hne => by simp [statesOf, hne]
        cases state with
        | other =>
            have hstates : statesOf c [.apply ⟨c, .other⟩] = [] := statesOf_other (.inr rfl)
            refine ⟨?_, ?_, h.once, ?_⟩ <;> rw [statesOf_concat, hstates, List.append_nil]
            · exact h.pending
            · exact h.connected
            · exact h.gone
        | connecting =>
            have hclosed : c ∉ s.closed := hlate (by simp)
            refine ⟨?_, ?_, h.once, ?_⟩ <;>
              rw [statesOf_concat, hnow (by simp), hfresh rfl, List.nil_append]
            · exact fun _ => ⟨hclosed, fun x hx => List.mem_singleton.mp hx⟩
            · intro hp
              have := (h.connected hp).2.1
              rw [hfresh rfl] at this; cases this
            · intro hd
              rcases h.gone hd with hcl | ⟨x, hx, -⟩
              · exact .inl hcl
              · rw [hfresh rfl] at hx; cases hx
        | connected =>
            have hclosed : c ∉ s.closed := hlate (by simp)
            have hpast := hpast rfl
            have hcount : departures c ((s.step (.apply ⟨c, .connected⟩)).taken ++
                (s.step (.apply ⟨c, .connected⟩)).table.queued) =
                  departures c (s.taken ++ s.table.queued) := by
              simp [PeerRun.step, PeerTable.apply, departures]
            refine ⟨?_, ?_, hcount ▸ h.once, ?_⟩ <;> rw [statesOf_concat, hnow (by simp)]
            · intro hp; simp [PeerRun.step, PeerTable.apply] at hp
            · refine fun _ => ⟨hclosed, by simp, fun x hx => ?_⟩
              rcases List.mem_append.mp hx with hx | hx
              · rw [hpast x hx]; rfl
              · rw [List.mem_singleton.mp hx]; rfl
            · rw [hcount]
              refine fun hd => (h.gone hd).imp_right ?_
              rintro ⟨x, hx, hxe⟩
              exact ⟨x, List.mem_append_left _ hx, hxe⟩
        | closedByPeer | problemDetectedLocally =>
            have hclosed : c ∉ s.closed := hlate (by simp)
            have hquiet : departures c (s.taken ++ s.table.queued) = 0 := by
              by_contra hne
              rcases h.gone (Nat.one_le_iff_ne_zero.mpr hne) with hcl | ⟨x, hx, hxe⟩
              · exact hclosed hcl
              · rw [hend rfl x hx] at hxe; cases hxe
            refine Sound.ended (s := s) ?_ ?_ hquiet ?_ (.inr ?_)
            · simp [PeerRun.step, PeerTable.apply, PeerTable.forget]
            · simp [PeerRun.step, PeerTable.apply, PeerTable.forget]
            · simp [PeerRun.step, PeerTable.apply, departures]; omega
            · rw [statesOf_concat, hnow (by simp)]
              exact ⟨_, List.mem_append_right _ (List.mem_singleton_self _), rfl⟩
      · have hstates : statesOf c [.apply ⟨connection, state⟩] = [] :=
          statesOf_other (.inl (Ne.symm hc))
        obtain ⟨hp, hq, hcount⟩ := PeerTable.apply_frame s.table ⟨connection, state⟩ hc
        refine ⟨?_, ?_, ?_, ?_⟩ <;>
          simp only [statesOf_concat, hstates, List.append_nil, PeerRun.step, departures_append,
            hcount, hp, hq]
        · exact h.pending
        · exact h.connected
        · simpa using h.once
        · simpa using h.gone

theorem NoLateStatus.before {ops : List PeerOp} {op : PeerOp} (h : NoLateStatus (ops ++ [op])) :
    NoLateStatus ops := by
  rintro before event after rfl
  exact h before event (after ++ [op]) (by simp)

theorem sound_run (ops : List PeerOp) (hlife : ∀ c, OneLife c ops) (hlate : NoLateStatus ops)
    (c : UInt32) : Sound ops (PeerRun.run ops) c := by
  induction ops using List.reverseRecOn with
  | nil => exact sound_init c
  | append_singleton ops op ih =>
      rw [PeerRun.run_concat]
      refine sound_step op (hlife c) ?_ (ih (fun c => (hlife c).before) hlate.before)
      rintro event rfl
      exact hlate ops event [] rfl

/-- Only `takeEvents` tells of a request: none is queued. -/
theorem queued_no_request (ops : List PeerOp) :
    ∀ event ∈ (PeerRun.run ops).table.queued, event.type ≠ .connectRequested := by
  induction ops using List.reverseRecOn with
  | nil => intro event hevent; cases hevent
  | append_singleton ops op ih =>
      rw [PeerRun.run_concat]
      cases op with
      | apply event =>
          obtain ⟨connection, state⟩ := event
          cases state <;> simpa [PeerRun.step, PeerTable.apply, PeerTable.forget, or_imp,
            forall_and] using ih
      | answer connection => exact ih
      | forget connection => exact ih
      | lose connection =>
          by_cases hopen : (PeerRun.run ops).table.isOpen connection = true
          · simpa [PeerRun.step, PeerTable.lose, hopen, or_imp, forall_and] using ih
          · simpa [PeerRun.step, PeerTable.lose, hopen] using ih
      | takeEvents => intro event hevent; cases hevent

/-- What an operation queues of a departure, and when: an end applied, or a `lose` of an open
    connection. -/
theorem queued_departure {s : PeerRun} {op : PeerOp} {new : List PeerEvent}
    (hnew : (s.step op).table.queued = s.table.queued ++ new) {event : PeerEvent}
    (hevent : event ∈ new) (hgone : event.type = .disconnected) :
    (∃ state, state ≠ .other ∧ op = .apply ⟨event.peer, state⟩) ∨
      op = .lose event.peer ∧ s.table.isOpen event.peer = true := by
  cases op with
  | apply status =>
      obtain ⟨connection, state⟩ := status
      left
      refine ⟨state, ?_⟩
      cases state with
      | other | connecting => rw [List.self_eq_append_right.mp hnew] at hevent; cases hevent
      | connected =>
          obtain rfl := List.append_cancel_left hnew
          rw [List.mem_singleton.mp hevent] at hgone; cases hgone
      | closedByPeer | problemDetectedLocally =>
          obtain rfl := List.append_cancel_left hnew
          rw [List.mem_singleton.mp hevent]
          exact ⟨by simp, rfl⟩
  | answer connection | forget connection =>
      rw [List.self_eq_append_right.mp hnew] at hevent; cases hevent
  | lose connection =>
      by_cases hopen : s.table.isOpen connection = true
      · simp only [PeerRun.step, PeerTable.lose, hopen, not_true_eq_false, if_false] at hnew
        obtain rfl := List.append_cancel_left hnew
        rw [List.mem_singleton.mp hevent]
        exact .inr ⟨rfl, hopen⟩
      · simp only [PeerRun.step, PeerTable.lose, hopen] at hnew
        rw [List.self_eq_append_right.mp hnew] at hevent; cases hevent
  | takeEvents => rw [(List.append_eq_nil_iff.mp hnew.symm).2] at hevent; cases hevent

/-- CORRECT, where no status comes late: over any run the departures are reported as the table's
    contract says. -/
theorem departure_law (ops : List PeerOp) (hlife : ∀ c, OneLife c ops) (hlate : NoLateStatus ops) :
    DepartureLaw ops := by
  have hsound : ∀ before after, ops = before ++ after → ∀ c, Sound before (PeerRun.run before) c := by
    intro before after
    induction after using List.reverseRecOn generalizing ops with
    | nil => rintro rfl; simpa using sound_run before (by simpa using hlife) (by simpa using hlate)
    | append_singleton after op ih =>
        rintro rfl
        rw [← List.append_assoc] at hlife hlate
        exact ih (before ++ after) (fun c => (hlife c).before) hlate.before rfl
  constructor
  · intro c
    have := (hsound ops [] (by simp) c).once
    rw [departures_append] at this
    omega
  · intro before op after hops new hnew event hevent hgone
    rcases queued_departure hnew hevent hgone with ⟨state, hstate, rfl⟩ | ⟨rfl, hopen⟩
    · exact hlate before _ after hops hstate
    · have h := hsound before _ hops event.peer
      rcases (by simpa [PeerTable.isOpen] using hopen : _ ∨ _) with hp | hp
      · exact (h.pending hp).1
      · exact (h.connected hp).1
  · intro before after hops event hevent hrequest
    have h := hsound before _ hops event.peer
    rcases List.mem_append.mp hevent with hq | hp
    · exact absurd hrequest (queued_no_request before event hq)
    · obtain ⟨connection, hpending, rfl⟩ := List.mem_map.mp hp
      obtain ⟨hclosed, hconnecting⟩ := h.pending hpending
      refine ⟨fun hc => ?_, hclosed, fun state hs => by rw [hconnecting state hs]; rfl⟩
      cases hconnecting _ (h.connected hc).2.1
  · intro before after hops c hp hc
    have h := hsound before after hops c
    cases (h.pending hp).2 _ (h.connected hc).2.1

/-- Only peer 7 is in `ops`, and its states are those of one life. -/
theorem oneLife_of_seven {ops : List PeerOp} (hseven : OneLife 7 ops)
    (hothers : ∀ c, 7 ≠ c → statesOf c ops = []) (c : UInt32) : OneLife c ops := by
  by_cases hc : 7 = c
  · exact hc ▸ hseven
  · exact ⟨.closedByPeer, rfl, by rw [hothers c hc]; exact List.nil_sublist _⟩

/-- A peer that connects and is lost on a send. -/
def lost : List PeerOp := [.apply ⟨7, .connecting⟩, .apply ⟨7, .connected⟩, .lose 7, .takeEvents]

theorem departure_law_lost : DepartureLaw lost := by
  refine departure_law lost (oneLife_of_seven ⟨.closedByPeer, rfl, by decide⟩ fun c hc => ?_) ?_
  · simp [statesOf, lost, hc]
  · intro before event after h hother
    rcases List.cons_eq_append_iff.mp h with ⟨rfl, -⟩ | ⟨rest, rfl, h₁⟩
    · simp [PeerRun.run]
    rcases List.cons_eq_append_iff.mp h₁ with ⟨rfl, -⟩ | ⟨rest, rfl, h₂⟩
    · simp [PeerRun.run, PeerRun.step]
    rcases List.cons_eq_append_iff.mp h₂ with ⟨-, h₃⟩ | ⟨rest, rfl, h₃⟩
    · cases h₃
    rcases List.cons_eq_append_iff.mp h₃ with ⟨-, h₄⟩ | ⟨rest, rfl, h₄⟩
    · cases h₄
    · simp at h₄

/-- The transport's own end of the connection, published before `lose` and applied after it. -/
def lostThenClosed : List PeerOp :=
  [.apply ⟨7, .connecting⟩, .takeEvents, .answer 7, .apply ⟨7, .connected⟩, .lose 7,
    .apply ⟨7, .closedByPeer⟩, .takeEvents]

/-- The same end after a `Disconnect` of this side. -/
def forgottenThenClosed : List PeerOp :=
  [.apply ⟨7, .connecting⟩, .takeEvents, .answer 7, .apply ⟨7, .connected⟩, .forget 7,
    .apply ⟨7, .closedByPeer⟩, .takeEvents]

/-- Two departures of one connection, and one queued of a connection this side had closed. -/
theorem departure_reported_twice :
    (∀ c, OneLife c lostThenClosed) ∧ ¬ DepartureLaw lostThenClosed ∧
      departures 7 (PeerRun.run lostThenClosed).taken = 2 ∧
    (∀ c, OneLife c forgottenThenClosed) ∧ ¬ DepartureLaw forgottenThenClosed := by
  have htwo : departures 7 (PeerRun.run lostThenClosed).taken = 2 := by decide
  refine ⟨?_, fun h => ?_, htwo, ?_, fun h => ?_⟩
  · exact oneLife_of_seven ⟨.closedByPeer, rfl, by decide⟩ fun c hc => by
      simp [statesOf, lostThenClosed, hc]
  · have := h.once 7; omega
  · exact oneLife_of_seven ⟨.closedByPeer, rfl, by decide⟩ fun c hc => by
      simp [statesOf, forgottenThenClosed, hc]
  · exact h.early (forgottenThenClosed.take 5) (.apply ⟨7, .closedByPeer⟩) [.takeEvents] rfl
      [⟨7, .disconnected, .closedByPeer⟩] (by decide) _ (List.mem_singleton_self _) rfl (by decide)

end Augusta.Networking
