import Augusta.Capture.File

/-! What order of records `RecordOrder` lets by: the Joins, numbered from 1 and at offset 0, then
    events whose offsets never go back, each naming players who joined, and after a Match end
    nothing. -/

namespace Augusta.Capture
open Link

def Event.players : Event → List Player
  | .command player _ _ => [player]
  | .leave player => [player]
  | .death victim killer => [victim, killer]
  | .matchEnd winner => winner.toList

def Event.isEnd : Event → Bool
  | .matchEnd _ => true
  | _ => false

/-- Joins numbered on from `n`. -/
def Numbered : ℕ → List CapturedJoin → Prop
  | _, [] => True
  | n, join :: rest => join.offset = 0 ∧ join.player.toNat = n + 1 ∧ Numbered (n + 1) rest

/-- Events that may follow `joins` Joins. -/
structure WellOrdered (joins : ℕ) (events : List EventAt) : Prop where
  offsets : events.Pairwise fun a b => a.offset ≤ b.offset
  named : ∀ e ∈ events, ∀ player ∈ e.event.players, 1 ≤ player.toNat ∧ player.toNat ≤ joins
  last : events.Pairwise fun a _ => a.event.isEnd = false

namespace RecordOrder

/-- The order after `records`, none if one of them may not come. -/
def admitsAll (order : RecordOrder) (records : List CaptureRecord) : Option RecordOrder :=
  records.foldlM admits order

theorem known_iff {order : RecordOrder} {player : Player} :
    order.known player = true ↔ 1 ≤ player.toNat ∧ player.toNat ≤ order.joins := by
  simp [known, UInt8.le_iff_toNat_le]

theorem follows_eq_some {order order' : RecordOrder} {offset : UInt32} {players : List Player} :
    order.follows offset players = some order' ↔
      order.ended = false ∧ order.lastOffset ≤ offset ∧
        (∀ player ∈ players, 1 ≤ player.toNat ∧ player.toNat ≤ order.joins) ∧
        order' = { order with events := true, lastOffset := offset } := by
  simp only [← known_iff, follows, ← List.all_eq_true]
  by_cases hended : order.ended = true
  · simp [hended]
  · by_cases hoffset : offset < order.lastOffset
    · have hnot : ¬ order.lastOffset ≤ offset := UInt32.not_le.mpr hoffset
      simp [hoffset, hnot]
    · have hle : order.lastOffset ≤ offset := UInt32.not_lt.mp hoffset
      simp only [Bool.not_eq_true] at hended
      by_cases hknown : players.all order.known = true
      · simp [hended, hoffset, hle, hknown, eq_comm]
      · simp [hended, hoffset, hle, hknown]

/-- What letting an event by takes, and comes to. -/
theorem admits_event {order order' : RecordOrder} {e : EventAt} :
    order.admits (.event e) = some order' ↔
      order.ended = false ∧ order.lastOffset ≤ e.offset ∧
        (∀ player ∈ e.event.players, 1 ≤ player.toNat ∧ player.toNat ≤ order.joins) ∧
        order' = { order with events := true, lastOffset := e.offset, ended := e.event.isEnd } := by
  obtain ⟨offset, event⟩ := e
  cases event with
  | matchEnd winner =>
      simp only [admits, Event.players, Event.isEnd]
      cases winner with
      | none =>
          simp only [Option.any_none, Bool.false_eq_true, if_false, Option.map_eq_some_iff,
            follows_eq_some, Option.toList_none]
          constructor
          · rintro ⟨_, ⟨hended, hoffset, hnamed, rfl⟩, rfl⟩
            exact ⟨hended, hoffset, hnamed, rfl⟩
          · rintro ⟨hended, hoffset, hnamed, rfl⟩
            exact ⟨_, ⟨hended, hoffset, hnamed, rfl⟩, rfl⟩
      | some winner =>
          simp only [Option.any_some, Bool.not_eq_eq_eq_not, Bool.not_true,
            Option.toList_some, List.mem_singleton, forall_eq, ← known_iff]
          cases hknown : order.known winner with
          | false => simp
          | true =>
              simp only [Bool.true_eq_false, if_false, Option.map_eq_some_iff, follows_eq_some,
                true_and]
              constructor
              · rintro ⟨_, ⟨hended, hoffset, -, rfl⟩, rfl⟩
                exact ⟨hended, hoffset, rfl⟩
              · rintro ⟨hended, hoffset, rfl⟩
                exact ⟨_, ⟨hended, hoffset, by simp, rfl⟩, rfl⟩
  | _ =>
      simp only [admits, Event.players, Event.isEnd, follows_eq_some]
      refine and_congr_right fun hended => ?_
      rw [hended]

/-- Events that may follow those an order has let by. -/
structure Admissible (order : RecordOrder) (events : List EventAt) : Prop where
  ended : order.ended = true → events = []
  offsets : ∀ e ∈ events, order.lastOffset ≤ e.offset
  ordered : WellOrdered order.joins events

theorem admissible_nil (order : RecordOrder) : order.Admissible [] where
  ended _ := rfl
  offsets := by simp
  ordered := ⟨.nil, by simp, .nil⟩

theorem admissible_cons {order : RecordOrder} {e : EventAt} {rest : List EventAt} :
    order.Admissible (e :: rest) ↔
      ∃ order', order.admits (.event e) = some order' ∧ order'.Admissible rest := by
  simp only [admits_event]
  constructor
  · rintro ⟨hended, hoffsets, hsorted, hnamed, hlast⟩
    obtain ⟨hfirst, hrest⟩ := List.pairwise_cons.mp hsorted
    obtain ⟨hnone, hlater⟩ := List.pairwise_cons.mp hlast
    refine ⟨_, ⟨by simpa using mt hended (List.cons_ne_nil e rest),
      hoffsets e List.mem_cons_self, hnamed e List.mem_cons_self, rfl⟩, ?_, hfirst, hrest,
      fun other hother => hnamed other (List.mem_cons_of_mem _ hother), hlater⟩
    intro hend
    cases rest with
    | nil => rfl
    | cons next _ => simp [hnone next List.mem_cons_self] at hend
  · rintro ⟨_, ⟨hended, hoffset, hnamed, rfl⟩, hend, hoffsets, hsorted, hothers, hlast⟩
    refine ⟨by simp [hended], ?_, ?_, ?_, ?_⟩
    · intro other hother
      rcases List.mem_cons.mp hother with rfl | hother
      · exact hoffset
      · exact UInt32.le_trans hoffset (hoffsets other hother)
    · exact List.pairwise_cons.mpr ⟨hoffsets, hsorted⟩
    · intro other hother
      rcases List.mem_cons.mp hother with rfl | hother
      · exact hnamed
      · exact hothers other hother
    · refine List.pairwise_cons.mpr ⟨fun other hother => ?_, hlast⟩
      by_contra hmatchEnd
      rw [hend (by simpa using hmatchEnd)] at hother
      cases hother

theorem admitsAll_cons {order : RecordOrder} {record : CaptureRecord} {rest : List CaptureRecord} :
    (order.admitsAll (record :: rest)).isSome ↔
      ∃ order', order.admits record = some order' ∧ (order'.admitsAll rest).isSome := by
  rw [admitsAll, List.foldlM_cons]
  cases order.admits record with
  | none => simp
  | some order' => simp [admitsAll]

/-- Once an event has come, only events may, and only those that may follow. -/
theorem admitsAll_events {records : List CaptureRecord} : ∀ {order : RecordOrder},
    order.events = true →
      ((order.admitsAll records).isSome ↔
        ∃ events : List EventAt, records = events.map .event ∧ order.Admissible events) := by
  induction records with
  | nil =>
      intro order _
      exact ⟨fun _ => ⟨[], rfl, order.admissible_nil⟩, fun _ => rfl⟩
  | cons record rest ih =>
      intro order hevents
      rw [admitsAll_cons]
      constructor
      · rintro ⟨order', hadmits, hrest⟩
        cases record with
        | header header => cases hadmits
        | join join => simp [admits, hevents] at hadmits
        | event e =>
            have hafter : order'.events = true := by
              obtain ⟨-, -, -, rfl⟩ := admits_event.mp hadmits
              rfl
            obtain ⟨events, rfl, hadmissible⟩ := (ih hafter).mp hrest
            exact ⟨e :: events, rfl, admissible_cons.mpr ⟨order', hadmits, hadmissible⟩⟩
      · rintro ⟨events, hrecords, hadmissible⟩
        cases events with
        | nil => cases hrecords
        | cons e events =>
            obtain ⟨rfl, rfl⟩ := List.cons.inj hrecords
            obtain ⟨order', hadmits, hrest⟩ := admissible_cons.mp hadmissible
            have hafter : order'.events = true := by
              obtain ⟨-, -, -, rfl⟩ := admits_event.mp hadmits
              rfl
            exact ⟨order', hadmits, (ih hafter).mpr ⟨events, rfl, hrest⟩⟩

theorem admits_join {order order' : RecordOrder} {join : CapturedJoin} :
    order.admits (.join join) = some order' ↔
      order.events = false ∧ join.offset = 0 ∧ join.player.toNat = order.joins + 1 ∧
        order' = { order with joins := order.joins + 1 } := by
  simp only [admits]
  split_ifs with h
  · constructor
    · rintro ⟨⟩
    · rintro ⟨hevents, hoffset, hplayer, -⟩
      rcases h with h | h | h
      · rw [hevents] at h; cases h
      · exact absurd hoffset h
      · exact absurd hplayer h
  · push Not at h
    simp only [h, Option.some.injEq, true_and]
    simp [eq_comm]

/-- The records that follow `n` Joins and no event. -/
def Follow (n : ℕ) (records : List CaptureRecord) : Prop :=
  ∃ (joins : List CapturedJoin) (events : List EventAt),
    records = joins.map .join ++ events.map .event ∧ Numbered n joins ∧
      WellOrdered (n + joins.length) events

theorem admissible_start {n : ℕ} {events : List EventAt} :
    ({ joins := n } : RecordOrder).Admissible events ↔ WellOrdered n events :=
  ⟨fun h => h.ordered, fun h => ⟨nofun, fun _ _ => UInt32.zero_le, h⟩⟩

/-- Before any event, Joins may come and then events. -/
theorem admitsAll_joins {records : List CaptureRecord} : ∀ {n : ℕ},
    (admitsAll { joins := n } records).isSome ↔ Follow n records := by
  induction records with
  | nil =>
      intro n
      exact ⟨fun _ => ⟨[], [], rfl, trivial, (admissible_nil { joins := n }).ordered⟩, fun _ => rfl⟩
  | cons record rest ih =>
      intro n
      rw [admitsAll_cons]
      cases record with
      | header header =>
          constructor
          · rintro ⟨_, ⟨⟩, _⟩
          · rintro ⟨joins, events, hrecords, -⟩
            cases joins <;> cases events <;> simp at hrecords
      | join join =>
          simp only [admits_join]
          constructor
          · rintro ⟨_, ⟨-, hoffset, hplayer, rfl⟩, hrest⟩
            obtain ⟨joins, events, rfl, hnumbered, hordered⟩ := ih.mp hrest
            refine ⟨join :: joins, events, rfl, ⟨hoffset, hplayer, hnumbered⟩, ?_⟩
            rwa [List.length_cons, Nat.add_comm joins.length, ← Nat.add_assoc]
          · rintro ⟨joins, events, hrecords, hnumbered, hordered⟩
            cases joins with
            | nil => cases events <;> simp at hrecords
            | cons first joins =>
                obtain ⟨hsame, rfl⟩ := List.cons.inj hrecords
                cases hsame
                obtain ⟨hoffset, hplayer, hnumbered⟩ := hnumbered
                refine ⟨_, ⟨trivial, hoffset, hplayer, rfl⟩,
                  ih.mpr ⟨joins, events, rfl, hnumbered, ?_⟩⟩
                rwa [List.length_cons, Nat.add_comm joins.length, ← Nat.add_assoc] at hordered
      | event e =>
          have hcome : (∃ order', ({ joins := n } : RecordOrder).admits (.event e) = some order' ∧
              (order'.admitsAll rest).isSome) ↔
                ∃ events : List EventAt, rest = events.map .event ∧ WellOrdered n (e :: events) := by
            simp only [← admissible_start, admissible_cons]
            constructor
            · rintro ⟨order', hadmits, hrest⟩
              have hafter : order'.events = true := by
                obtain ⟨-, -, -, rfl⟩ := admits_event.mp hadmits
                rfl
              obtain ⟨events, rfl, hadmissible⟩ := (admitsAll_events hafter).mp hrest
              exact ⟨events, rfl, order', hadmits, hadmissible⟩
            · rintro ⟨events, rfl, order', hadmits, hadmissible⟩
              have hafter : order'.events = true := by
                obtain ⟨-, -, -, rfl⟩ := admits_event.mp hadmits
                rfl
              exact ⟨order', hadmits, (admitsAll_events hafter).mpr ⟨events, rfl, hadmissible⟩⟩
          rw [hcome]
          constructor
          · rintro ⟨events, rfl, hordered⟩
            exact ⟨[], e :: events, rfl, trivial, hordered⟩
          · rintro ⟨joins, events, hrecords, hnumbered, hordered⟩
            cases joins with
            | cons first joins => cases hrecords
            | nil =>
                cases events with
                | nil => cases hrecords
                | cons first events =>
                    obtain ⟨hsame, rfl⟩ := List.cons.inj hrecords
                    cases hsame
                    exact ⟨events, rfl, hordered⟩

end RecordOrder
end Augusta.Capture
