import Augusta.Capture.FileLaw
import Augusta.Host.Divergence
import Mathlib.Data.List.TakeWhile

/-! A Replay of a capture that was read, from its first tick to its last.

      events     e₁ e₂ │ e₃ │        │ e₄ e₅ e₆        each handed on the tick of its offset,
      offset       0      1      2        3            none before it and none left after
      end          -      -      -      the capture's, or Game policy's if that is sooner -/

namespace Augusta.Capture
open Lib.Protobuf
open Protocol Link

/-- What is read is well ordered. -/
theorem readCapture_wellOrdered {parse : Bytes → Option Pb.CaptureRecord} {s : Stream}
    {capture : MatchCapture} (h : readCapture parse s = .ok capture) :
    WellOrdered capture.joins.length capture.events := by
  obtain ⟨file, hfile, h⟩ := Except.bind_eq_ok.mp h
  rw [← Except.pure_eq_ok.mp h]
  unfold readCaptureFile at hfile
  split_ifs at hfile
  obtain ⟨s, -, hfile⟩ := Except.bind_eq_ok.mp hfile
  obtain ⟨s, -, hfile⟩ := Except.bind_eq_ok.mp hfile
  obtain ⟨⟨header, s⟩, -, hfile⟩ := Except.bind_eq_ok.mp hfile
  obtain ⟨⟨records, torn⟩, hread, hfile⟩ := Except.bind_eq_ok.mp hfile
  rw [← Except.pure_eq_ok.mp hfile]
  obtain ⟨joins, events, rfl, -, hordered⟩ :=
    RecordOrder.admitsAll_joins.mp (readRecords_admits hread)
  have hjoins := joinOf_take joins events (joins.length + events.length)
  have hevents := eventOf_take joins events (joins.length + events.length)
  rw [List.take_of_length_le (by simp)] at hjoins hevents
  rw [List.take_of_length_le (by omega)] at hevents
  rw [List.take_of_length_le (by simp)] at hjoins
  simp only [hjoins, hevents, List.length_map]
  simpa using hordered

end Augusta.Capture

namespace Augusta.Host
open Capture (MatchCapture EventAt WellOrdered)

namespace Replay
variable {vecLength : Math.Vec3 → Lib.Binary32} {replay replay' : Replay} {offset : UInt32}

/-! ### The events of a tick -/

theorem modifyPlayer_some {player : Capture.Player} (change : ReplayPlayer → ReplayPlayer)
    (hplayer : 1 ≤ player.toNat ∧ player.toNat ≤ replay.players.length) :
    replay.modifyPlayer player change = some { replay with
      players := replay.players.modify (player.toNat - 1) change } := by
  rw [modifyPlayer, if_pos hplayer]

/-- Every event on the tick is handed, and none after it. -/
theorem handEvents_some {events : List EventAt} (tickRun : Bool)
    (hnamed : ∀ event ∈ events, ∀ player ∈ event.event.players,
      1 ≤ player.toNat ∧ player.toNat ≤ replay.players.length) :
    ∃ replay', handEvents vecLength offset tickRun events replay = some replay' ∧
      replay'.events = events.dropWhile (·.offset = offset) ∧
      replay'.players.length = replay.players.length := by
  induction events generalizing tickRun replay with
  | nil => exact ⟨_, rfl, rfl, rfl⟩
  | cons event rest ih =>
      have hrest := fun event hevent => hnamed event (List.mem_cons_of_mem _ hevent)
      have hfirst := hnamed event List.mem_cons_self
      rw [handEvents, List.dropWhile_cons]
      by_cases hoffset : event.offset = offset
      · rw [if_neg (not_not.mpr hoffset), if_pos (decide_eq_true hoffset)]
        obtain ⟨at_, event⟩ := event
        cases event with
        | command player seenOffset command =>
            have hmodified := modifyPlayer_some (enqueue vecLength seenOffset command)
              (hfirst player List.mem_cons_self)
            obtain ⟨last, hlast, hevents, hlength⟩ := @ih { replay with
              players := replay.players.modify (player.toNat - 1)
                (enqueue vecLength seenOffset command) } true (by simpa using hrest)
            simp only [hmodified, Option.bind_some]
            exact ⟨last, hlast, hevents, by simpa using hlength⟩
        | leave player =>
            simp only
            split_ifs
            · exact ih tickRun hrest
            · have hmodified := modifyPlayer_some (fun player => { player with left := true })
                (hfirst player List.mem_cons_self)
              rw [hmodified, Option.bind_some]
              obtain ⟨last, hlast, hevents, hlength⟩ := @ih { replay with
                players := replay.players.modify (player.toNat - 1)
                  fun player => { player with left := true }
                world := replay.world.removePlayer (bodyOf player) } tickRun (by simpa using hrest)
              exact ⟨last, hlast, hevents, by simpa using hlength⟩
        | death victim killer => exact ih true hrest
        | matchEnd winner => exact ih true hrest
      · rw [if_pos hoffset, if_neg (by simpa using hoffset)]
        exact ⟨_, rfl, rfl, rfl⟩

/-- A Replay before the tick at `offset`: the capture's events from there on, each of a player it
    has. -/
structure Ready (replay : Replay) : Prop where
  started : replay.start.length = replay.players.length
  sorted : replay.events.Pairwise fun a b => a.offset ≤ b.offset
  ahead : ∀ event ∈ replay.events, replay.offset ≤ event.offset
  named : ∀ event ∈ replay.events, ∀ player ∈ event.event.players,
    1 ≤ player.toNat ∧ player.toNat ≤ replay.players.length
  last : ∀ event ∈ replay.capture.events.getLast?, ∀ player ∈ event.event.players,
    1 ≤ player.toNat ∧ player.toNat ≤ replay.players.length

/-- What is dropped of sorted events is what is on their first tick. -/
theorem offset_lt_of_mem_dropWhile {events : List EventAt}
    (hsorted : events.Pairwise fun a b => a.offset ≤ b.offset)
    (hahead : ∀ event ∈ events, offset ≤ event.offset) {event : EventAt}
    (hevent : event ∈ events.dropWhile (·.offset = offset)) : offset < event.offset := by
  induction events with
  | nil => cases hevent
  | cons first rest ih =>
      obtain ⟨hfirst, hrest⟩ := List.pairwise_cons.mp hsorted
      rw [List.dropWhile_cons] at hevent
      by_cases hoffset : first.offset = offset
      · rw [if_pos (decide_eq_true hoffset)] at hevent
        exact ih hrest (fun event hevent => hahead event (List.mem_cons_of_mem _ hevent)) hevent
      · rw [if_neg (by simpa using hoffset)] at hevent
        have hlt := UInt32.lt_of_le_of_ne (hahead first List.mem_cons_self) (Ne.symm hoffset)
        rcases List.mem_cons.mp hevent with rfl | hlater
        · exact hlt
        · exact UInt32.lt_of_lt_of_le hlt (hfirst event hlater)

/-- How a tick of a Replay ends it. -/
structure Ends (replay : Replay) (offset : UInt32) (tick : ReplayTick) : Prop where
  policy : ∀ winner rest, tick.result.actions = .matchEnd winner :: rest → tick.end_ = some winner
  before : tick.result.actions = [] → offset < replay.lastOffset → tick.end_ = none
  capture : tick.result.actions = [] → replay.lastOffset ≤ offset → ∃ end_ : ReplayEnd,
    tick.end_ = some end_ ∧ ∀ session, end_ = some session ↔ ∃ at_ winner player,
      replay.capture.events.getLast? = some ⟨at_, .matchEnd (some winner)⟩ ∧
        replay.start[winner.toNat - 1]? = some player ∧ player.session = session

theorem endOf_some {handed : Replay} (hbeside : replay.Beside handed) (h : Ready replay)
    (offset : UInt32) (result : Simulation.TickResult) :
    ∃ end_, handed.endOf offset result = some end_ ∧
      ∀ divergence, Ends replay offset ⟨result, end_, divergence⟩ := by
  cases hactions : result.actions with
  | cons action rest =>
      obtain ⟨winner⟩ := action
      refine ⟨some winner, by rw [endOf, hactions], fun _ => ⟨?_, ?_, ?_⟩⟩
      · rintro said others hsaid
        cases hactions.symm.trans hsaid
        rfl
      · rintro hnone
        cases hactions.symm.trans hnone
      · rintro hnone
        cases hactions.symm.trans hnone
  | nil =>
      have hpolicy {winner : Option SessionId} {rest : List Policy.Action}
          (hsaid : result.actions = .matchEnd winner :: rest) : False := by
        cases hactions.symm.trans hsaid
      by_cases hbefore : offset < handed.lastOffset
      · refine ⟨none, by simp [endOf, hactions, hbefore], fun _ => ⟨fun _ _ hsaid => ?_,
          fun _ _ => rfl, fun _ hle => ?_⟩⟩
        · exact absurd hsaid fun h => hpolicy h
        · rw [hbeside.lastOffset] at hbefore
          exact absurd hbefore (UInt32.not_lt.mpr hle)
      · rw [endOf, hactions]
        simp only [hbefore, if_false, hbeside.capture, hbeside.start]
        have hafter (hlt : offset < replay.lastOffset) : False := by
          rw [hbeside.lastOffset] at hbefore
          exact hbefore hlt
        cases hlast : replay.capture.events.getLast? with
        | none =>
            refine ⟨_, rfl, fun _ => ⟨fun _ _ hsaid => (hpolicy hsaid).elim,
              fun _ hlt => (hafter hlt).elim, fun _ _ => ⟨none, rfl, ?_⟩⟩⟩
            simp [hlast]
        | some event =>
            obtain ⟨at_, event⟩ := event
            have hnoWinner (hnone : ∀ winner, event ≠ .matchEnd (some winner)) : ∀ divergence,
                Ends replay offset ⟨result, some none, divergence⟩ := by
              refine fun _ => ⟨fun _ _ hsaid => (hpolicy hsaid).elim,
                fun _ hlt => (hafter hlt).elim, fun _ _ => ⟨none, rfl, fun session => ?_⟩⟩
              simp only [hlast, reduceCtorEq, Option.some.injEq, false_iff]
              rintro ⟨_, winner, player, heq, -⟩
              cases heq
              exact hnone winner rfl
            cases event with
            | matchEnd winner =>
                cases winner with
                | none => exact ⟨_, rfl, hnoWinner (by simp)⟩
                | some winner =>
                    have hknown := h.last _ hlast winner (by simp [Capture.Event.players])
                    have hnonzero : winner ≠ 0 := by
                      rintro rfl
                      simp at hknown
                    have hlength : winner.toNat - 1 < replay.start.length := by
                      have := h.started
                      omega
                    simp only [Option.map_some, hnonzero, if_false,
                      List.getElem?_eq_getElem hlength]
                    refine ⟨_, rfl, fun _ => ⟨fun _ _ hsaid => (hpolicy hsaid).elim,
                      fun _ hlt => (hafter hlt).elim, fun _ _ => ⟨_, rfl, fun session => ?_⟩⟩⟩
                    simp only [hlast, Option.some.injEq]
                    constructor
                    · rintro rfl
                      exact ⟨at_, winner, _, rfl, List.getElem?_eq_getElem hlength, rfl⟩
                    · rintro ⟨_, other, player, heq, hplayer, hsession⟩
                      cases heq
                      rw [List.getElem?_eq_getElem hlength] at hplayer
                      cases hplayer
                      exact hsession
            | _ => exact ⟨_, rfl, hnoWinner (by simp)⟩

theorem step_eq {outside : Simulation.Outside} {handed : Replay}
    {taken : List (EntityId × Command) × Replay} {end_ : Option ReplayEnd}
    (hhanded : replay.handBefore vecLength replay.offset = some handed)
    (htaken : handed.takeCommands = taken)
    (hend : taken.2.endOf replay.offset
      (taken.2.world.ticked taken.1 taken.2.deltaTime outside).1 = some end_) :
    ∃ divergence check, replay.step vecLength outside =
      some (⟨(taken.2.world.ticked taken.1 taken.2.deltaTime outside).1, end_, divergence⟩,
        { taken.2 with
          world := (taken.2.world.ticked taken.1 taken.2.deltaTime outside).2
          check, ended := end_.isSome, offset := replay.offset + 1 }) := by
  rw [step, hhanded, Option.bind_eq_bind, Option.bind_some, htaken]
  simp only [hend, Option.bind_eq_bind, Option.bind_some]
  exact ⟨_, _, rfl⟩

/-- A tick of a Replay that is ready: it runs, and leaves it ready for the next. -/
theorem step_ready (h : Ready replay) (outside : Simulation.Outside) :
    ∃ tick replay', replay.step vecLength outside = some (tick, replay') ∧ Ready replay' ∧
      Ends replay replay.offset tick ∧ replay'.capture = replay.capture ∧
      replay'.start = replay.start ∧ replay'.lastOffset = replay.lastOffset ∧
      replay'.offset = replay.offset + 1 ∧ replay'.ended = tick.end_.isSome := by
  obtain ⟨handed, hhanded, hevents, hplayers⟩ :=
    @handEvents_some vecLength replay replay.offset replay.events false h.named
  have hbeside := beside_handEvents hhanded
  obtain ⟨taken, htaken⟩ : ∃ taken, handed.takeCommands = taken := ⟨_, rfl⟩
  have hbeside' : replay.Beside taken.2 := by
    rw [← htaken]
    exact ⟨hbeside.capture, hbeside.check, hbeside.start, hbeside.offset, hbeside.lastOffset⟩
  have hlength : taken.2.players.length = replay.players.length := by
    rw [← htaken]
    simpa [takeCommands] using hplayers
  have hleft : taken.2.events = replay.events.dropWhile (·.offset = replay.offset) := by
    rw [← htaken]
    exact hevents
  obtain ⟨end_, hend, hends⟩ := endOf_some hbeside' h replay.offset
    (taken.2.world.ticked taken.1 taken.2.deltaTime outside).1
  obtain ⟨divergence, check, hstep⟩ := step_eq hhanded htaken hend
  refine ⟨_, _, hstep, ?_, hends _, hbeside'.capture, hbeside'.start, hbeside'.lastOffset, rfl, rfl⟩
  have hsub : (replay.events.dropWhile (·.offset = replay.offset)).Sublist replay.events :=
    List.dropWhile_sublist _
  refine ⟨?_, ?_, fun event hevent => ?_, fun event hevent => ?_, ?_⟩
  · exact (congrArg List.length hbeside'.start).trans (h.started.trans hlength.symm)
  · simp only [hleft]
    exact h.sorted.sublist hsub
  · simp only [hleft] at hevent
    have hlt := UInt32.lt_iff_toNat_lt.mp (offset_lt_of_mem_dropWhile h.sorted h.ahead hevent)
    have hbound := event.offset.toNat_lt
    simp only [UInt32.le_iff_toNat_le, UInt32.toNat_add, UInt32.toNat_one]
    omega
  · simp only [hleft] at hevent
    simp only [hlength]
    exact h.named event (hsub.subset hevent)
  · simp only [hbeside'.capture, hlength]
    exact h.last

/-! ### The whole Replay -/

/-- Each tick of a run of it, as it ends. -/
theorem ticks_ready (h : Ready replay) (outsides : List Simulation.Outside) :
    ∃ run, replay.ticks vecLength outsides = some run ∧ run.1.length = outsides.length ∧
      ∀ i tick, run.1[i]? = some tick → Ends replay (replay.offset + UInt32.ofNat i) tick := by
  induction outsides generalizing replay with
  | nil => exact ⟨_, rfl, rfl, by simp⟩
  | cons outside rest ih =>
      obtain ⟨tick, next, hstep, hready, hends, hcapture, hstart, hlast, hoffset, -⟩ :=
        @step_ready vecLength replay h outside
      obtain ⟨run, hrun, hlength, hall⟩ := ih hready
      refine ⟨(tick :: run.1, run.2), ?_, by simp [hlength], ?_⟩
      · rw [ticks, hstep, Option.bind_some]
        simp only [hrun]
        rfl
      · rintro (_ | i) later hlater
        · cases hlater
          simpa using hends
        · have hsucc : replay.offset + UInt32.ofNat (i + 1) = next.offset + UInt32.ofNat i := by
            rw [hoffset, UInt32.ofNat_add, UInt32.add_assoc, UInt32.add_comm (UInt32.ofNat i)]
            rfl
          rw [hsucc]
          obtain ⟨hpolicy, hbefore, hcaptured⟩ := hall i later hlater
          rw [hlast] at hbefore hcaptured
          rw [hcapture, hstart] at hcaptured
          exact ⟨hpolicy, hbefore, hcaptured⟩

/-- One more tick. -/
theorem ticks_concat {outsides : List Simulation.Outside} {outside : Simulation.Outside}
    {run : List ReplayTick × Replay} {tick : ReplayTick} {last : Replay}
    (hrun : replay.ticks vecLength outsides = some run)
    (hstep : run.2.step vecLength outside = some (tick, last)) :
    replay.ticks vecLength (outsides ++ [outside]) = some (run.1 ++ [tick], last) := by
  induction outsides generalizing replay run with
  | nil =>
      cases hrun
      simp only [List.nil_append, ticks, hstep, Option.bind_some, Option.map_some]
  | cons first rest ih =>
      obtain ⟨stepped, hstepped, hrest⟩ := Option.bind_eq_some_iff.mp hrun
      obtain ⟨later, hlater, rfl⟩ := Option.map_eq_some_iff.mp hrest
      rw [List.cons_append, ticks, hstepped, Option.bind_some, ih hlater hstep]
      rfl

theorem ready_enter {characters : Lib.Table String Prediction.Clips} {joins : List Capture.Join}
    (hknown : ∀ join ∈ joins, join.character ∈ characters)
    (hlength : replay.start.length = replay.players.length) :
    ∃ replay', joins.foldlM (enter characters) replay = some replay' ∧
      replay'.start.length = replay.players.length + joins.length ∧
      replay'.players.length = replay.players.length + joins.length ∧
      replay'.capture = replay.capture ∧ replay'.events = replay.events ∧
      replay'.offset = replay.offset ∧ replay'.lastOffset = replay.lastOffset ∧
      replay'.ended = replay.ended ∧
      replay'.start.map (·.session) = replay.start.map (·.session) ++ joins.map (·.session) := by
  induction joins generalizing replay with
  | nil => exact ⟨replay, rfl, hlength, rfl, rfl, rfl, rfl, rfl, rfl, by simp⟩
  | cons join rest ih =>
      obtain ⟨clips, hclips⟩ := AList.mem_iff_lookup.mp (hknown join List.mem_cons_self)
      obtain ⟨entered, hentered, hstart, hplayer, hsame⟩ : ∃ entered,
          replay.enter characters join = some entered ∧
          entered.start.map (·.session) = replay.start.map (·.session) ++ [join.session] ∧
          entered.players.length = replay.players.length + 1 ∧
          entered.capture = replay.capture ∧ entered.events = replay.events ∧
          entered.offset = replay.offset ∧ entered.lastOffset = replay.lastOffset ∧
          entered.ended = replay.ended := by
        rw [enter, hclips]
        exact ⟨_, rfl, by simp, by simp, rfl, rfl, rfl, rfl, rfl⟩
      have hstarted : entered.start.length = entered.players.length := by
        have hcount := congrArg List.length hstart
        simp only [List.length_map, List.length_append, List.length_singleton] at hcount
        omega
      obtain ⟨last, hlast, hstarts, hplayers, hcapture, hevents, hoffset, hlastOffset, hended,
        hsessions⟩ := ih (fun join hjoin => hknown join (List.mem_cons_of_mem _ hjoin)) hstarted
      obtain ⟨hcapture', hevents', hoffset', hlastOffset', hended'⟩ := hsame
      refine ⟨last, ?_, ?_, ?_, hcapture.trans hcapture', hevents.trans hevents',
        hoffset.trans hoffset', hlastOffset.trans hlastOffset', hended.trans hended', ?_⟩
      · rw [List.foldlM_cons, hentered]
        exact hlast
      · rw [hstarts, hplayer, List.length_cons]
        omega
      · rw [hplayers, hplayer, List.length_cons]
        omega
      · rw [hsessions, hstart]
        simp

/-- A capture that is read, of the scenario's characters, makes a Replay that is ready. -/
theorem ready_new {parse : Lib.Protobuf.Bytes → Option Protocol.Pb.CaptureRecord}
    {stream : Capture.Stream} {capture : MatchCapture}
    (hread : Capture.readCapture parse stream = .ok capture)
    {characters : Lib.Table String Prediction.Clips}
    (hknown : ∀ join ∈ capture.joins, join.character ∈ characters) (world : Simulation.World) :
    ∃ replay, new capture world characters = some replay ∧ Ready replay ∧
      replay.capture = capture ∧ replay.offset = 0 ∧ replay.lastOffset = lastOffsetOf capture ∧
      replay.ended = false ∧ replay.start.map (·.session) = capture.joins.map (·.session) := by
  have hordered := Capture.readCapture_wellOrdered hread
  obtain ⟨replay, hnew, hstarts, hplayers, hcapture, hevents, hoffset, hlast, hended, hsessions⟩ :=
    @ready_enter { capture, world
                   check := .ofCapture capture
                   events := capture.events
                   lastOffset := lastOffsetOf capture } characters capture.joins hknown rfl
  simp only [List.length_nil, Nat.zero_add] at hstarts hplayers
  simp only at hcapture hevents hoffset hlast hended
  simp only [List.map_nil, List.nil_append] at hsessions
  refine ⟨replay, hnew, ⟨hstarts.trans hplayers.symm, ?_, ?_, ?_, ?_⟩, hcapture, hoffset, hlast,
    hended, hsessions⟩
  · rw [hevents]
    exact hordered.offsets
  · rw [hoffset]
    exact fun _ _ => UInt32.zero_le
  · rw [hevents, hplayers]
    exact hordered.named
  · rw [hcapture, hplayers]
    exact fun event hevent => hordered.named event (List.mem_of_getLast? hevent)

/-- CORRECT: a capture that is read, of the scenario's characters, replays: no lookup fails on any
    tick up to its last, and it ends on the first tick Game policy ends its Match on, or else on the
    capture's last, as the capture says; on none before. -/
theorem replay_law {parse : Lib.Protobuf.Bytes → Option Protocol.Pb.CaptureRecord}
    {stream : Capture.Stream} {capture : MatchCapture}
    (hread : Capture.readCapture parse stream = .ok capture)
    {characters : Lib.Table String Prediction.Clips}
    (hknown : ∀ join ∈ capture.joins, join.character ∈ characters) (world : Simulation.World) :
    ∃ replay, new capture world characters = some replay ∧ replay.capture = capture ∧
      replay.lastOffset = lastOffsetOf capture ∧
      replay.start.map (·.session) = capture.joins.map (·.session) ∧
      ∀ outsides : List Simulation.Outside, ∃ run, replay.ticks vecLength outsides = some run ∧
        (∀ i tick, run.1[i]? = some tick → Ends replay (UInt32.ofNat i) tick) ∧
        (outsides.length = (lastOffsetOf capture).toNat + 1 →
          ∃ tick ∈ run.1, tick.end_ ≠ none) := by
  obtain ⟨replay, hnew, hready, hcapture, hoffset, hlast, -, hsessions⟩ :=
    ready_new hread hknown world
  refine ⟨replay, hnew, hcapture, hlast, hsessions, fun outsides => ?_⟩
  obtain ⟨run, hrun, hlength, hall⟩ := @ticks_ready vecLength replay hready outsides
  rw [hoffset] at hall
  simp only [UInt32.zero_add] at hall
  refine ⟨run, hrun, hall, fun hlong => ?_⟩
  obtain ⟨tick, htick⟩ : ∃ tick, run.1[(lastOffsetOf capture).toNat]? = some tick :=
    ⟨_, List.getElem?_eq_getElem (by omega)⟩
  obtain ⟨hpolicy, -, hcaptured⟩ := hall _ tick htick
  refine ⟨tick, List.mem_of_getElem? htick, ?_⟩
  cases hactions : tick.result.actions with
  | nil =>
      obtain ⟨end_, hend, -⟩ := hcaptured hactions (by simp [hlast])
      simp [hend]
  | cons action rest =>
      obtain ⟨winner⟩ := action
      simp [hpolicy winner rest hactions]

/-! One player, who leaves on the fourth tick: each record's frame is its number alone. -/

def parseNumbered (payload : Lib.Protobuf.Bytes) : Option Protocol.Pb.CaptureRecord :=
  if payload = [0] then some (.header Capture.plainHeader)
  else if payload = [1] then some (.join (Capture.plainJoin 1))
  else some (.leave Capture.plainLeave)

def numberedStream : Capture.Stream :=
  { rest := Capture.kCaptureMagic ++ [Capture.kCaptureFormatVersion, 1, 0, 1, 1, 1, 2] }

/-- A scenario whose one character has no path. -/
def nameless : Lib.Table String Prediction.Clips :=
  AList.insert "" { strideLength := fun _ _ _ => .one, transitions := {} } ∅

theorem replay_law_numbered : ∃ replay run,
    new Capture.soloCapture Simulation.duelWorld nameless = some replay ∧
      replay.ticks (fun _ => .zero) (List.replicate 4 Simulation.duelGround) = some run ∧
      ∃ tick ∈ run.1, tick.end_ ≠ none := by
  have hread : Capture.readCapture parseNumbered numberedStream = .ok Capture.soloCapture := rfl
  obtain ⟨replay, hnew, -, -, -, hticks⟩ :=
    @replay_law (fun _ => .zero) _ _ _ hread nameless (by decide) Simulation.duelWorld
  obtain ⟨run, hrun, -, hends⟩ := hticks (List.replicate 4 Simulation.duelGround)
  exact ⟨replay, run, hnew, hrun, hends rfl⟩

end Replay
end Augusta.Host
