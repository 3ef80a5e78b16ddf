import Augusta.Capture.FileLaw
import Augusta.Host.CaptureSound
import Mathlib.Tactic.Tauto

/-! What a Capturer may be told, and that what it makes of it is a capture.

      told     startMatch ─▶ command, leave, death … ─▶ endMatch        ticks that never go back
      made     header, Join 1 … Join n, event, event …, Match end       what RecordOrder lets by

    However the writer's steps come between, each Match's pieces are ones a reader accepts. -/

namespace Augusta.Host
open Capture

/-- The Match a Capturer is being told of, and the last tick it was told of. -/
structure Tape where
  start : CaptureStart
  last : Tick

namespace Tape

def entities (tape : Tape) : List EntityId := tape.start.players.map (·.entity)

/-- Whether something of these bodies may be told at `tick`. -/
def Says (tape : Tape) (tick : Tick) (named : List EntityId) : Prop :=
  tape.last ≤ tick ∧ tick.toNat < 2 ^ 63 ∧ ∀ entity ∈ named, entity ∈ tape.entities

instance (tape : Tape) (tick : Tick) (named : List EntityId) : Decidable (tape.Says tick named) :=
  inferInstanceAs (Decidable (_ ∧ _ ∧ _))

/-- Whether a Match may be told of: its bodies apart, and numbered in a byte. -/
def Starts (start : CaptureStart) : Prop :=
  (start.players.map (·.entity)).Nodup ∧ start.players.length ≤ 255 ∧ start.firstTick.toNat < 2 ^ 63

instance (start : CaptureStart) : Decidable (Starts start) :=
  inferInstanceAs (Decidable (_ ∧ _ ∧ _))

/-- What is told of after one more call, none if it may not come. -/
def hear (open_ : Option Tape) (call : CaptureEvent) : Option (Option Tape) :=
  match open_, call with
  | none, .startMatch start => if Starts start then some (some ⟨start, start.firstTick⟩) else none
  | some tape, .command tick entity _ | some tape, .leave tick entity =>
      if tape.Says tick [entity] then some (some { tape with last := tick }) else none
  | some tape, .death tick victim killer =>
      if tape.Says tick [victim, killer] then some (some { tape with last := tick }) else none
  | some tape, .endMatch tick _ => if tape.Says tick [] then some none else none
  | _, _ => none

end Tape

/-- A call of the Simulation thread's, and no step of one. -/
def CaptureEvent.isCall : CaptureEvent → Bool
  | .startMatch _ | .command .. | .leave .. | .death .. | .endMatch .. => true
  | .finish | .goOn | .take | .handle _ | .note => false

/-- What is told of after any event of the captures. -/
def Tape.listen (open_ : Option Tape) (event : CaptureEvent) : Option (Option Tape) :=
  if event.isCall then hear open_ event else some open_

/-! ### Offsets -/

/-- Ticks after the first are as far from it as they are after it. -/
theorem offset_of_le {start tick : Tick} (hle : start ≤ tick) (hlast : tick.toNat < 2 ^ 63) :
    offset start tick = ((tick.toNat - start.toNat : ℕ) : ℤ) := by
  have hnat := UInt64.le_iff_toNat_le.mp hle
  rw [offset, Int.bmod_eq_of_le (by omega) (by omega)]
  omega

/-- Later ticks are at later offsets, however long the Match lasts. -/
theorem offsetOf_mono (c : Capturer) {tick later : Tick} (hfirst : c.firstTick ≤ tick)
    (hle : tick ≤ later) (hlast : later.toNat < 2 ^ 63) : c.offsetOf tick ≤ c.offsetOf later := by
  have hnat := UInt64.le_iff_toNat_le.mp hle
  rw [Capturer.offsetOf, Capturer.offsetOf, offset_of_le hfirst (by omega),
    offset_of_le (UInt64.le_trans hfirst hle) hlast, UInt32.le_iff_toNat_le, UInt32.toNat_ofNat',
    UInt32.toNat_ofNat', kMaxUint32]
  omega

/-! ### Pieces -/

/-- A header of the Match first, and after it only records that may come. -/
def Leads (m : MatchId) (pieces : List Piece) (order : RecordOrder) : Prop :=
  ∃ header rest, pieces = .header header :: rest ∧ header.match_ = m ∧
    RecordOrder.admitsAll {} (rest.map Piece.record) = some order

theorem leads_concat {m : MatchId} {pieces : List Piece} {order order' : RecordOrder} {piece : Piece}
    (h : Leads m pieces order) (hnext : order.admits piece.record = some order') :
    Leads m (pieces ++ [piece]) order' := by
  obtain ⟨header, rest, rfl, hmatch, hrest⟩ := h
  refine ⟨header, rest ++ [piece], rfl, hmatch, ?_⟩
  rw [RecordOrder.admitsAll] at hrest ⊢
  rw [List.map_append, List.foldlM_append, hrest]
  simp only [List.map_cons, List.map_nil, List.foldlM_cons, List.foldlM_nil, Option.bind_eq_bind,
    Option.bind_some, hnext]
  rfl

namespace Captures
variable {encode : Encode} {s s' : Captures}

/-- The numbers given are those of the Joins. -/
structure Numbered (c : Capturer) : Prop where
  players : ∀ entity n, c.players.lookup entity = some n → 1 ≤ n.toNat ∧ n.toNat ≤ c.players.size
  sessions : ∀ session n, c.sessions.lookup session = some n →
    1 ≤ n.toNat ∧ n.toNat ≤ c.players.size

/-- A Match all of whose Joins are made, if its header was: events may follow. -/
structure Underway (c : Capturer) (tape : Tape) (order : RecordOrder) : Prop where
  ended : order.ended = false
  joins : order.joins = c.players.size
  numbered : Numbered c
  present : c.players.size = 0 ∨ ∀ entity ∈ tape.entities, entity ∈ c.players
  first : c.firstTick ≤ tape.last
  offset : order.lastOffset ≤ c.offsetOf tape.last

/-- What the pieces and the Capturer have of what it has been told. -/
structure Following (s : Captures) (open_ : Option Tape) : Prop where
  begun : ∀ entry ∈ s.made, entry.1 ∈ s.begun
  leads : ∀ m, s.pieces m = [] ∨ ∃ order, Leads m (s.pieces m) order
  starting : ∀ start, s.doing = .starting start → s.capturer.isOpen = false ∧
    start.match_ ∉ s.begun ∧ open_ = some ⟨start, start.firstTick⟩ ∧ Tape.Starts start
  opening : ∀ start, s.doing = .opening start → s.capturer.isOpen = true ∧
    s.pieces s.capturer.match_ = [] ∧ s.capturer.match_ = start.match_ ∧
    s.capturer.match_ ∈ s.begun ∧ open_ = some ⟨start, start.firstTick⟩ ∧ Tape.Starts start ∧
    s.capturer.firstTick = start.firstTick ∧ s.capturer.players = ∅ ∧ s.capturer.sessions = ∅
  joining : ∀ rest, s.doing = .joining rest → s.capturer.isOpen = true ∧
    s.capturer.match_ ∈ s.begun ∧ ∃ start done,
      open_ = some ⟨start, start.firstTick⟩ ∧ Tape.Starts start ∧
      s.capturer.firstTick = start.firstTick ∧ start.players = done ++ rest ∧
      Leads s.capturer.match_ (s.pieces s.capturer.match_) { joins := done.length } ∧
      Numbered s.capturer ∧ s.capturer.players.size = done.length ∧
      ∀ entity, entity ∈ s.capturer.players ↔ entity ∈ done.map (·.entity)
  ending : s.doing = .ending → open_ = none
  nothing : s.doing = .nothing → s.capturer.isOpen = true → s.capturer.match_ ∈ s.begun ∧
    ∃ tape order, open_ = some tape ∧ Leads s.capturer.match_ (s.pieces s.capturer.match_) order ∧
      Underway s.capturer tape order

theorem following_start (header : Header) (mode : CaptureMode) (capacity : ℕ) :
    Following (start header mode capacity) none where
  begun := by
    intro entry hentry
    cases hentry
  leads := fun m => .inl rfl
  starting := by
    intro start hdoing
    cases hdoing
  opening := by
    intro start hdoing
    cases hdoing
  joining := by
    intro rest hdoing
    cases hdoing
  ending := by
    intro hdoing
    cases hdoing
  nothing := by
    intro _ hopen
    cases hopen

/-! ### One piece more -/

theorem admitted_eq (s : Captures) (piece : Piece) (give : Writer → Encoded → Writer) :
    ∃ writer failure, s.admitted encode piece give = { s with
      made := s.made ++ [(s.capturer.match_, piece)]
      writer
      capturer := { s.capturer with failure } } := by
  rw [admitted]
  cases encode piece with
  | ok encoded => exact ⟨_, s.capturer.failure, rfl⟩
  | error error =>
      cases error with
      | failure => exact ⟨_, true, rfl⟩
      | recordTooLong => exact ⟨_, s.capturer.failure, rfl⟩

theorem pieces_concat (made : List (MatchId × Piece)) (m n : MatchId) (piece : Piece) :
    Lib.entriesOf n (made ++ [(m, piece)]) =
      if n = m then Lib.entriesOf n made ++ [piece] else Lib.entriesOf n made := by
  rw [Lib.entriesOf_append]
  split_ifs with hsame
  · rw [hsame, Lib.entriesOf_same]
  · rw [Lib.entriesOf_other (Ne.symm hsame), List.append_nil]

/-- The pieces of every Match still lead, one more made of the Match open. -/
theorem leads_made (h : ∀ m, s.pieces m = [] ∨ ∃ order, Leads m (s.pieces m) order)
    {order : RecordOrder} {piece : Piece}
    (hnext : Leads s.capturer.match_ (s.pieces s.capturer.match_ ++ [piece]) order) (m : MatchId) :
    Lib.entriesOf m (s.made ++ [(s.capturer.match_, piece)]) = [] ∨
      ∃ order, Leads m (Lib.entriesOf m (s.made ++ [(s.capturer.match_, piece)])) order := by
  rw [pieces_concat]
  split_ifs with hsame
  · rw [hsame]
    exact .inr ⟨order, hnext⟩
  · exact h m

/-! ### Events -/

/-- An event at a later tick, of players there are. -/
theorem leads_event {m : MatchId} {pieces : List Piece} {order : RecordOrder} {c : Capturer}
    {tape : Tape} (h : Leads m pieces order) (hunderway : Underway c tape order) {tick : Tick}
    (hlast : tape.last ≤ tick) (hbound : tick.toNat < 2 ^ 63) {record : EventAt}
    (hoffset : record.offset = c.offsetOf tick)
    (hnamed : ∀ player ∈ record.event.players, 1 ≤ player.toNat ∧ player.toNat ≤ c.players.size) :
    Leads m (pieces ++ [.event record])
      { order with events := true, lastOffset := record.offset, ended := record.event.isEnd } := by
  refine leads_concat h (RecordOrder.admits_event.mpr ⟨hunderway.ended, ?_, ?_, rfl⟩)
  · rw [hoffset]
    exact UInt32.le_trans hunderway.offset (offsetOf_mono c hunderway.first hlast hbound)
  · rw [hunderway.joins]
    exact hnamed

/-- Between calls, what is kept of the Match open. -/
theorem following_of_nothing {open_ : Option Tape} (hdoing : s.doing = .nothing)
    (begun : ∀ entry ∈ s.made, entry.1 ∈ s.begun)
    (leads : ∀ m, s.pieces m = [] ∨ ∃ order, Leads m (s.pieces m) order)
    (nothing : s.capturer.isOpen = true → s.capturer.match_ ∈ s.begun ∧ ∃ tape order,
      open_ = some tape ∧ Leads s.capturer.match_ (s.pieces s.capturer.match_) order ∧
        Underway s.capturer tape order) : Following s open_ where
  begun := begun
  leads := leads
  starting := by
    intro _ hother
    cases hdoing.symm.trans hother
  opening := by
    intro _ hother
    cases hdoing.symm.trans hother
  joining := by
    intro _ hother
    cases hdoing.symm.trans hother
  ending := by
    intro hother
    cases hdoing.symm.trans hother
  nothing := fun _ => nothing

/-- Nothing made of it, a later tick is as good as one before. -/
theorem following_later {tape : Tape} (h : Following s (some tape)) (hdoing : s.doing = .nothing)
    {tick : Tick} (hlast : tape.last ≤ tick) (hbound : tick.toNat < 2 ^ 63) :
    Following s (some { tape with last := tick }) := by
  refine following_of_nothing hdoing h.begun h.leads fun hopen => ?_
  obtain ⟨hbegun, old, order, hsame, hleads, hunderway⟩ := h.nothing hdoing hopen
  cases hsame
  refine ⟨hbegun, _, order, rfl, hleads, hunderway.ended, hunderway.joins, hunderway.numbered,
    hunderway.present, UInt64.le_trans hunderway.first hlast, ?_⟩
  exact UInt32.le_trans hunderway.offset (offsetOf_mono _ hunderway.first hlast hbound)

/-- A record made of what was told at `tick`, or none. -/
theorem following_event {tape : Tape} (h : Following s (some tape)) (hdoing : s.doing = .nothing)
    {tick : Tick} (hlast : tape.last ≤ tick) (hbound : tick.toNat < 2 ^ 63)
    {record : Option EventAt} (hrecord : ∀ made ∈ record, s.capturer.isOpen = true ∧
      made.offset = s.capturer.offsetOf tick ∧ made.event.isEnd = false ∧
      ∀ player ∈ made.event.players, 1 ≤ player.toNat ∧ player.toNat ≤ s.capturer.players.size) :
    Following (s.event encode record) (some { tape with last := tick }) := by
  have hlater := following_later h hdoing hlast hbound
  cases record with
  | none => exact hlater
  | some made =>
      obtain ⟨hopen, hoffset, hend, hnamed⟩ := hrecord made rfl
      obtain ⟨hbegun, old, order, hsame, hleads, hunderway⟩ := h.nothing hdoing hopen
      cases hsame
      have hnext := leads_event hleads hunderway hlast hbound hoffset hnamed
      obtain ⟨writer, failure, heq⟩ := @admitted_eq encode s (.event made)
        fun w encoded => w.push s.capturer.match_ encoded
      rw [event, queue, heq]
      refine following_of_nothing hdoing (fun entry hentry => ?_)
        (fun m => leads_made h.leads hnext m) fun _ => ⟨hbegun, _,
          { order with events := true, lastOffset := made.offset, ended := made.event.isEnd }, rfl,
          ?_, ?_⟩
      · rcases List.mem_append.mp hentry with hold | hnew
        · exact h.begun entry hold
        · rw [List.mem_singleton.mp hnew]
          exact hbegun
      · change Leads _ (Lib.entriesOf _ (s.made ++ _)) _
        rw [pieces_concat, if_pos rfl]
        exact hnext
      · exact ⟨hend, hunderway.joins, ⟨hunderway.numbered.players, hunderway.numbered.sessions⟩,
          hunderway.present, UInt64.le_trans hunderway.first hlast, UInt32.le_of_eq hoffset⟩

/-- A player told of has a number, if the Joins were made. -/
theorem playerOf_cases {tape : Tape} {order : RecordOrder} (h : Underway s.capturer tape order)
    {entity : EntityId} (hentity : entity ∈ tape.entities) :
    (s.capturer.playerOf entity = 0 ∧ s.capturer.players.size = 0) ∨
      1 ≤ (s.capturer.playerOf entity).toNat ∧
        (s.capturer.playerOf entity).toNat ≤ s.capturer.players.size := by
  rw [Capturer.playerOf]
  rcases h.present with hnone | hall
  · exact .inl ⟨by rw [AList.lookup_of_size_zero hnone]; rfl, hnone⟩
  · obtain ⟨n, hn⟩ := AList.mem_iff_lookup.mp (hall entity hentity)
    rw [hn]
    exact .inr (h.numbered.players entity n hn)

/-- What a Command, a leave or a death told at `tick` is made of. -/
theorem following_hears {tape : Tape} (h : Following s (some tape)) (hdoing : s.doing = .nothing)
    {tick : Tick} {named : List EntityId} (hspeaks : tape.Says tick named) {record : Option EventAt}
    (hrecord : ∀ made ∈ record, s.capturer.isOpen = true ∧
      made.offset = s.capturer.offsetOf tick ∧ made.event.isEnd = false ∧
      made.event.players = named.map s.capturer.playerOf ∧
      ∃ entity ∈ named, s.capturer.playerOf entity ≠ 0) :
    Following (s.event encode record) (some { tape with last := tick }) := by
  obtain ⟨hlast, hbound, hnamed⟩ := hspeaks
  refine following_event h hdoing hlast hbound fun made hmade => ?_
  obtain ⟨hopen, hoffset, hend, hplayers, first, hfirst, hknown⟩ := hrecord made hmade
  refine ⟨hopen, hoffset, hend, fun player hplayer => ?_⟩
  obtain ⟨-, old, order, hsame, -, hunderway⟩ := h.nothing hdoing hopen
  cases hsame
  rw [hplayers] at hplayer
  obtain ⟨entity, hentity, rfl⟩ := List.mem_map.mp hplayer
  rcases playerOf_cases hunderway (hnamed entity hentity) with ⟨-, hempty⟩ | hthere
  · rcases playerOf_cases hunderway (hnamed first hfirst) with ⟨hzero, -⟩ | ⟨hone, hmost⟩
    · exact absurd hzero hknown
    · omega
  · exact hthere

/-! ### A Match's start and its end -/

theorem following_startMatch {start : CaptureStart} {open_ : Option Tape} (h : Following s none)
    (hdoing : s.doing = .nothing) (hnew : start.match_ ∉ s.begun)
    (hhear : Tape.hear none (.startMatch start) = some open_) :
    Following (s.startMatch start) open_ := by
  have hclosed : s.capturer.isOpen = false := by
    by_contra hopen
    rw [Bool.not_eq_false] at hopen
    obtain ⟨-, tape, order, hsame, -⟩ := h.nothing hdoing hopen
    cases hsame
  have hstarts : Tape.Starts start ∧ some ⟨start, start.firstTick⟩ = open_ := by
    rw [Tape.hear] at hhear
    split_ifs at hhear with hstarts
    exact ⟨hstarts, Option.some.inj hhear⟩
  rw [startMatch, if_neg (by rw [hclosed]; exact Bool.false_ne_true)]
  refine ⟨h.begun, h.leads, fun other hother => ?_, fun other hother => ?_, fun other hother => ?_,
    fun hother => ?_, fun hother => ?_⟩
  · cases hother
    exact ⟨hclosed, hnew, hstarts.2.symm, hstarts.1⟩
  · cases hother
  · cases hother
  · cases hother
  · cases hother

theorem following_endMatch {tape : Tape} (h : Following s (some tape)) (hdoing : s.doing = .nothing)
    {tick : Tick} (hlast : tape.last ≤ tick) (hbound : tick.toNat < 2 ^ 63)
    {winner : Option SessionId} (hstep : s.step encode (.endMatch tick winner) = some s') :
    Following s' none := by
  simp only [step, hdoing, if_true] at hstep
  cases hopen : s.capturer.isOpen with
  | false =>
      have hnone : s.capturer.endMatch tick winner = none := by
        rw [Capturer.endMatch, if_pos (by rw [hopen]; exact Bool.false_ne_true)]
      rw [hnone] at hstep
      cases hstep
      refine following_of_nothing hdoing h.begun h.leads fun hother => ?_
      cases hopen.symm.trans hother
  | true =>
      obtain ⟨hbegun, old, order, hsame, hleads, hunderway⟩ := h.nothing hdoing hopen
      cases hsame
      have hmade : s.capturer.endMatch tick winner = some ⟨s.capturer.offsetOf tick,
          .matchEnd (winner.bind fun session => s.capturer.sessions.lookup session)⟩ := by
        rw [Capturer.endMatch, if_neg (by rw [hopen]; exact fun hnot => hnot rfl)]
      rw [hmade] at hstep
      cases hstep
      obtain ⟨writer, failure, heq⟩ := @admitted_eq encode s (.event ⟨s.capturer.offsetOf tick,
          .matchEnd (winner.bind fun session => s.capturer.sessions.lookup session)⟩)
        fun w encoded => w.push s.capturer.match_ encoded
      rw [queue, heq]
      have hnext := @leads_event _ _ _ _ _ hleads hunderway _ hlast hbound ⟨s.capturer.offsetOf tick,
          .matchEnd (winner.bind fun session => s.capturer.sessions.lookup session)⟩ rfl (by
        intro player hplayer
        rw [Event.players, Option.mem_toList] at hplayer
        obtain ⟨session, -, hlookup⟩ := Option.bind_eq_some_iff.mp hplayer
        exact hunderway.numbered.sessions session player hlookup)
      refine ⟨fun entry hentry => ?_, fun m => leads_made h.leads hnext m, fun _ hother => ?_,
        fun _ hother => ?_, fun _ hother => ?_, fun _ => rfl, fun hother => ?_⟩
      · rcases List.mem_append.mp hentry with hold | hnew
        · exact h.begun entry hold
        · rw [List.mem_singleton.mp hnew]
          exact hbegun
      · cases hother
      · cases hother
      · cases hother
      · cases hother

/-- The number a Join is under, and who has one after it. -/
theorem enter_spec {c : Capturer} {entrant : CaptureEntrant} (hnumbered : Numbered c)
    (hnew : entrant.entity ∉ c.players) (hfew : c.players.size < 255) :
    (c.enter entrant).1 = { c with
        players := c.players.insert entrant.entity (UInt8.ofNat (c.players.size + 1))
        sessions := c.sessions.emplace entrant.session (UInt8.ofNat (c.players.size + 1)) } ∧
      (UInt8.ofNat (c.players.size + 1)).toNat = c.players.size + 1 ∧
      Numbered (c.enter entrant).1 ∧ (c.enter entrant).1.players.size = c.players.size + 1 := by
  have hbyte : (UInt8.ofNat (c.players.size + 1)).toNat = c.players.size + 1 := by
    rw [UInt8.toNat_ofNat']
    omega
  have hemplace : c.players.emplace entrant.entity (UInt8.ofNat (c.players.size + 1)) =
      c.players.insert entrant.entity (UInt8.ofNat (c.players.size + 1)) := if_neg hnew
  have hsize := AList.size_insert hnew (UInt8.ofNat (c.players.size + 1))
  have heq : (c.enter entrant).1 = { c with
      players := c.players.insert entrant.entity (UInt8.ofNat (c.players.size + 1))
      sessions := c.sessions.emplace entrant.session (UInt8.ofNat (c.players.size + 1)) } := by
    rw [Capturer.enter, ← hemplace]
  refine ⟨heq, hbyte, ?_, ?_⟩
  · rw [heq]
    refine ⟨fun entity n hn => ?_, fun session n hn => ?_⟩
    · simp only [hsize]
      rw [AList.lookup_insert_eq] at hn
      split_ifs at hn
      · cases hn
        omega
      · have := hnumbered.players entity n hn
        omega
    · simp only [hsize]
      simp only [AList.emplace] at hn
      split_ifs at hn
      · have := hnumbered.sessions session n hn
        omega
      · rw [AList.lookup_insert_eq] at hn
        split_ifs at hn
        · cases hn
          omega
        · have := hnumbered.sessions session n hn
          omega
  · rw [heq]
    exact hsize

/-! ### The thread going on with its call -/

/-- The header of a Match just opened. -/
theorem following_opening {start : CaptureStart} (hdoing : s.doing = .opening start)
    {open_ : Option Tape} (h : Following s open_) (hgo : s.goOn encode = some s') :
    Following s' open_ := by
  obtain ⟨hopen, hpieces, hmatch, hbegun, htape, hstarts, hfirst, hplayers, hsessions⟩ :=
    h.opening start hdoing
  obtain ⟨writer, failure, heq⟩ := @admitted_eq encode s (.header (s.capturer.headerOf start))
    fun w encoded => w.enqueue s.capturer.match_ encoded
  have hleads : Leads s.capturer.match_
      (s.pieces s.capturer.match_ ++ [.header (s.capturer.headerOf start)]) {} := by
    rw [hpieces]
    exact ⟨_, [], rfl, hmatch.symm, rfl⟩
  have hmade : ∀ entry ∈ s.made ++ [(s.capturer.match_, .header (s.capturer.headerOf start))],
      entry.1 ∈ s.begun := by
    intro entry hentry
    rcases List.mem_append.mp hentry with hold | hnew
    · exact h.begun entry hold
    · rw [List.mem_singleton.mp hnew]
      exact hbegun
  have hnumbered : Numbered s.capturer := by
    refine ⟨fun entity n hn => ?_, fun session n hn => ?_⟩
    · rw [hplayers] at hn
      cases hn
    · rw [hsessions] at hn
      cases hn
  have hnone : s.capturer.players.size = 0 := by rw [hplayers, AList.size_empty]
  have hhere : Lib.entriesOf s.capturer.match_
      (s.made ++ [(s.capturer.match_, .header (s.capturer.headerOf start))]) =
        s.pieces s.capturer.match_ ++ [.header (s.capturer.headerOf start)] := by
    rw [pieces_concat, if_pos rfl]
    rfl
  simp only [goOn, hdoing] at hgo
  rw [heq] at hgo
  cases hencode : encode (.header (s.capturer.headerOf start)) with
  | ok encoded =>
      rw [hencode] at hgo
      cases hgo
      refine ⟨hmade, fun m => leads_made h.leads hleads m, fun _ hother => ?_, fun _ hother => ?_,
        fun rest hother => ?_, fun hother => ?_, fun hother => ?_⟩
      · cases hother
      · cases hother
      · cases hother
        refine ⟨hopen, hbegun, start, [], htape, hstarts, hfirst, rfl, ?_,
          ⟨hnumbered.players, hnumbered.sessions⟩, hnone, fun entity => ?_⟩
        · change Leads _ (Lib.entriesOf _ _) _
          rw [hhere]
          exact hleads
        · simp only [hplayers]
          exact iff_of_false (AList.notMem_empty entity) List.not_mem_nil
      · cases hother
      · cases hother
  | error error =>
      rw [hencode] at hgo
      cases hgo
      refine following_of_nothing rfl hmade (fun m => leads_made h.leads hleads m) fun _ => ?_
      refine ⟨hbegun, _, {}, htape, ?_, rfl, hnone.symm, ⟨hnumbered.players, hnumbered.sessions⟩,
        .inl hnone, UInt64.le_of_eq hfirst, UInt32.zero_le⟩
      change Leads _ (Lib.entriesOf _ _) _
      rw [hhere]
      exact hleads

/-- One entrant's Join. -/
theorem following_joining {entrant : CaptureEntrant} {rest : List CaptureEntrant}
    (hdoing : s.doing = .joining (entrant :: rest)) {open_ : Option Tape} (h : Following s open_)
    (hgo : s.goOn encode = some s') : Following s' open_ := by
  obtain ⟨hopen, hbegun, start, done, htape, hstarts, hfirst, hlist, hleads, hnumbered, hsize,
    hmem⟩ := h.joining _ hdoing
  have hapart := hstarts.1
  have hfew := hstarts.2.1
  rw [hlist] at hapart hfew
  rw [List.map_append, List.map_cons] at hapart
  rw [List.length_append, List.length_cons] at hfew
  have hnew : entrant.entity ∉ s.capturer.players := by
    intro hin
    exact (List.nodup_append.mp hapart).2.2 _ ((hmem _).mp hin) _ List.mem_cons_self rfl
  obtain ⟨hentered, hbyte, hnumbers, hcount⟩ := enter_spec hnumbered hnew (by omega)
  have hsame : (s.capturer.enter entrant).1.match_ = s.capturer.match_ ∧
      (s.capturer.enter entrant).1.isOpen = s.capturer.isOpen ∧
      (s.capturer.enter entrant).1.firstTick = s.capturer.firstTick := ⟨rfl, rfl, rfl⟩
  have hjoin : (s.capturer.enter entrant).2 = .join (UInt8.ofNat (s.capturer.players.size + 1))
      ⟨entrant.session, entrant.character, Math.snapPosition entrant.spawn⟩ := rfl
  have hnext : Leads s.capturer.match_
      (s.pieces s.capturer.match_ ++ [(s.capturer.enter entrant).2])
      { joins := (done ++ [entrant]).length } := by
    refine leads_concat hleads ?_
    rw [hjoin]
    refine RecordOrder.admits_join.mpr ⟨rfl, rfl, ?_, ?_⟩
    · rw [hbyte, hsize]
    · rw [List.length_append, List.length_singleton]
  have hkeys (entity : EntityId) : entity ∈ (s.capturer.enter entrant).1.players ↔
      entity ∈ (done ++ [entrant]).map (·.entity) := by
    rw [hentered, List.map_append, List.mem_append]
    exact (AList.mem_insert _).trans (by rw [hmem]; simp [or_comm])
  simp only [goOn, hdoing, Option.some.injEq] at hgo
  revert hgo hnumbers hcount hnext hkeys hsame
  generalize s.capturer.enter entrant = entered
  obtain ⟨capturer, join⟩ := entered
  intro hnumbers hcount hsame hnext hkeys hgo
  obtain ⟨hmatch, hstill, hfirst'⟩ := hsame
  obtain ⟨writer, failure, heq⟩ := @admitted_eq encode
    { s with capturer, doing := .joining (entrant :: rest) } join
    fun w encoded => w.push capturer.match_ encoded
  rw [queue, heq] at hgo
  cases hgo
  simp only at hmatch hstill hfirst' hnumbers hcount hnext hkeys
  refine ⟨fun entry hentry => ?_, fun m => ?_, fun _ hother => ?_, fun _ hother => ?_,
    fun others hother => ?_, fun hother => ?_, fun hother => ?_⟩
  · rcases List.mem_append.mp hentry with hold | hnew
    · exact h.begun entry hold
    · rw [List.mem_singleton.mp hnew]
      exact hmatch ▸ hbegun
  · change Lib.entriesOf m (s.made ++ [(capturer.match_, join)]) = [] ∨ _
    have hmade := leads_made h.leads hnext m
    rw [← hmatch] at hmade
    exact hmade
  · cases hother
  · cases hother
  · cases hother
    refine ⟨hstill.trans hopen, hmatch ▸ hbegun, start, done ++ [entrant], htape,
      hstarts, hfirst'.trans hfirst, by rw [hlist, List.append_assoc]; rfl, ?_,
      ⟨hnumbers.players, hnumbers.sessions⟩, ?_, hkeys⟩
    · change Leads _ (Lib.entriesOf capturer.match_ (s.made ++ [(capturer.match_, join)])) _
      rw [pieces_concat, if_pos rfl, hmatch]
      exact hnext
    · rw [List.length_append, List.length_singleton, ← hsize]
      exact hcount
  · cases hother
  · cases hother

theorem following_goOn {open_ : Option Tape} (h : Following s open_) (hgo : s.goOn encode = some s') :
    Following s' open_ := by
  cases hdoing : s.doing with
  | nothing =>
      rw [goOn, hdoing] at hgo
      cases hgo
  | starting start =>
      obtain ⟨hclosed, hnew, htape, hstarts⟩ := h.starting start hdoing
      simp only [goOn, hdoing] at hgo
      split_ifs at hgo
      · cases hgo
        refine following_of_nothing rfl h.begun h.leads fun hopen => ?_
        cases hclosed.symm.trans hopen
      · cases hgo
        refine ⟨fun entry hentry => List.mem_append_left _ (h.begun entry hentry), h.leads,
          fun _ hother => ?_, fun _ hother => ?_, fun _ hother => ?_, fun hother => ?_,
          fun hother => ?_⟩
        · cases hother
        · cases hother
          refine ⟨rfl, ?_, rfl, List.mem_append_right _ List.mem_cons_self, htape, hstarts, rfl, rfl,
            rfl⟩
          refine List.map_eq_nil_iff.mpr (List.filter_eq_nil_iff.mpr fun entry hentry => ?_)
          rw [decide_eq_true_eq]
          rintro (hsame : entry.1 = start.match_)
          exact hnew (hsame ▸ h.begun entry hentry)
        · cases hother
        · cases hother
        · cases hother
  | opening start => exact following_opening hdoing h hgo
  | joining entrants =>
      cases entrants with
      | cons entrant rest => exact following_joining hdoing h hgo
      | nil =>
          obtain ⟨hopen, hbegun, start, done, htape, hstarts, hfirst, hlist, hleads, hnumbered,
            hsize, hmem⟩ := h.joining _ hdoing
          rw [List.append_nil] at hlist
          simp only [goOn, hdoing] at hgo
          cases hgo
          refine following_of_nothing rfl h.begun h.leads fun _ => ⟨hbegun, _, _, htape, hleads, rfl,
            hsize.symm, hnumbered, .inr fun entity hentity => ?_, UInt64.le_of_eq hfirst,
            UInt32.zero_le⟩
          rw [Tape.entities, hlist] at hentity
          exact (hmem entity).mpr hentity
  | ending =>
      have htape := h.ending hdoing
      simp only [goOn, hdoing] at hgo
      cases hgo
      refine following_of_nothing rfl h.begun h.leads fun hopen => ?_
      cases hopen

/-! ### Every step -/

/-- The writer's side moves on its own. -/
theorem following_writer {open_ : Option Tape} (h : Following s open_) (writer : Writer) :
    Following { s with writer } open_ :=
  ⟨h.begun, h.leads, h.starting, h.opening, h.joining, h.ending, h.nothing⟩

theorem following_step {open_ next : Option Tape} (h : Following s open_) {event : CaptureEvent}
    (hstep : s.step encode event = some s') (hhear : Tape.listen open_ event = some next) :
    Following s' next := by
  have hidle {event : CaptureEvent} (hcall : event.isCall = false)
      (hhear : Tape.listen open_ event = some next) : next = open_ := by
    rw [Tape.listen, hcall] at hhear
    exact (Option.some.inj hhear).symm
  have hwriter {answer : Option Writer}
      (hstep : (answer.map fun writer => { s with writer }) = some s') : Following s' open_ := by
    obtain ⟨writer, -, rfl⟩ := Option.map_eq_some_iff.mp hstep
    exact following_writer h writer
  cases event with
  | startMatch start =>
      simp only [step] at hstep
      split_ifs at hstep with hready
      cases hstep
      cases open_ with
      | none => exact following_startMatch h hready.1 hready.2 hhear
      | some tape => cases hhear
  | command tick entity command =>
      simp only [step] at hstep
      split_ifs at hstep with hdoing
      cases hstep
      cases open_ with
      | none => cases hhear
      | some tape =>
          simp only [Tape.listen, CaptureEvent.isCall, if_true, Tape.hear] at hhear
          split_ifs at hhear with hspeaks
          cases hhear
          refine following_hears h hdoing hspeaks fun made hmade => ?_
          simp only [Capturer.command] at hmade
          split_ifs at hmade with hout
          · cases hmade
          · cases hmade
            push Not at hout
            exact ⟨hout.1, rfl, rfl, rfl, entity, List.mem_cons_self, hout.2⟩
  | leave tick entity =>
      simp only [step] at hstep
      split_ifs at hstep with hdoing
      cases hstep
      cases open_ with
      | none => cases hhear
      | some tape =>
          simp only [Tape.listen, CaptureEvent.isCall, if_true, Tape.hear] at hhear
          split_ifs at hhear with hspeaks
          cases hhear
          refine following_hears h hdoing hspeaks fun made hmade => ?_
          simp only [Capturer.leave] at hmade
          split_ifs at hmade with hout
          · cases hmade
          · cases hmade
            push Not at hout
            exact ⟨hout.1, rfl, rfl, rfl, entity, List.mem_cons_self, hout.2⟩
  | death tick victim killer =>
      simp only [step] at hstep
      split_ifs at hstep with hdoing
      cases hstep
      cases open_ with
      | none => cases hhear
      | some tape =>
          simp only [Tape.listen, CaptureEvent.isCall, if_true, Tape.hear] at hhear
          split_ifs at hhear with hspeaks
          cases hhear
          refine following_hears h hdoing hspeaks fun made hmade => ?_
          simp only [Capturer.death] at hmade
          split_ifs at hmade with hout
          · cases hmade
          · cases hmade
            push Not at hout
            exact ⟨hout.1, rfl, rfl, rfl, victim, List.mem_cons_self, hout.2⟩
  | endMatch lastTick winner =>
      cases open_ with
      | none => cases hhear
      | some tape =>
          simp only [Tape.listen, CaptureEvent.isCall, if_true, Tape.hear] at hhear
          split_ifs at hhear with hspeaks
          cases hhear
          have hdoing : s.doing = .nothing := by
            by_contra hbusy
            rw [step, if_neg hbusy] at hstep
            cases hstep
          exact following_endMatch h hdoing hspeaks.1 hspeaks.2.1 hstep
  | finish =>
      rw [hidle rfl hhear]
      simp only [step] at hstep
      split_ifs at hstep with hdoing
      obtain ⟨writer, -, rfl⟩ := Option.map_eq_some_iff.mp hstep
      refine following_of_nothing hdoing h.begun h.leads fun hopen => ?_
      cases hopen
  | goOn =>
      rw [hidle rfl hhear]
      exact following_goOn h hstep
  | take =>
      rw [hidle rfl hhear]
      exact hwriter hstep
  | handle disk =>
      rw [hidle rfl hhear]
      exact hwriter hstep
  | note =>
      rw [hidle rfl hhear]
      exact hwriter hstep

/-- What may be told makes captures that may be read. -/
theorem following_run {header : Header} {mode : CaptureMode} {capacity : ℕ}
    {events : List CaptureEvent} {open_ : Option Tape}
    (hrun : (start header mode capacity).run encode events = some s)
    (hheard : Lib.run Tape.listen none events = some open_) : Following s open_ := by
  induction events using List.reverseRecOn generalizing s open_ with
  | nil =>
      cases hrun
      cases hheard
      exact following_start header mode capacity
  | append_singleton events event ih =>
      obtain ⟨before, hbefore, hstep⟩ := Lib.run.concat_eq_some.mp hrun
      obtain ⟨tape, htape, hhear⟩ := Lib.run.concat_eq_some.mp hheard
      exact following_step (ih hbefore htape) hstep hhear

end Captures

/-- The steps of calls are heard as nothing. -/
theorem run_listen (events : List CaptureEvent) (open_ : Option Tape) :
    Lib.run Tape.listen open_ events = Lib.run Tape.hear open_ (events.filter (·.isCall)) := by
  induction events generalizing open_ with
  | nil => rfl
  | cons event rest ih =>
      rw [Lib.run.cons, Tape.listen]
      cases hcall : event.isCall with
      | false =>
          rw [List.filter_cons_of_neg (by rw [hcall]; exact Bool.false_ne_true)]
          exact ih open_
      | true =>
          rw [List.filter_cons_of_pos hcall, Lib.run.cons]
          exact congrArg (Option.bind _) (funext fun next => ih next)

end Augusta.Host
