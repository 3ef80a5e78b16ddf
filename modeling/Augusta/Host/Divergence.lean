import Augusta.Host.Replay
import Augusta.Lib.Keyed
import Augusta.Lib.Run
import Augusta.Simulation.CombatLaw
import Mathlib.Data.List.Induction

/-! What a Replay reports of its own ticks, against its capture's markers.

      offset      0   1   2   3   4   5
      agrees      ✓   ✓   ✗   ✓   ✗   ✗
      reported    -   -   2   -   -   -      the first that differs, and no other -/

namespace Augusta.Host
open Capture (MatchCapture EventAt)

/-! ### Deaths in order -/

theorem before_total (a b : CapturedDeath) : a.Before b ∨ b.Before a := by
  simp only [CapturedDeath.Before, UInt8.lt_iff_toNat_lt, UInt8.le_iff_toNat_le, ne_eq,
    ← UInt8.toNat_inj]
  split_ifs <;> omega

theorem before_trans {a b c : CapturedDeath} (h : a.Before b) (h' : b.Before c) : a.Before c := by
  simp only [CapturedDeath.Before, UInt8.lt_iff_toNat_lt, UInt8.le_iff_toNat_le, ne_eq,
    ← UInt8.toNat_inj] at *
  split_ifs at * <;> omega

theorem before_antisymm {a b : CapturedDeath} (h : a.Before b) (h' : b.Before a) : a = b := by
  have hsame : a.victim.toNat = b.victim.toNat ∧ a.killer.toNat = b.killer.toNat := by
    simp only [CapturedDeath.Before, UInt8.lt_iff_toNat_lt, UInt8.le_iff_toNat_le, ne_eq,
      ← UInt8.toNat_inj] at h h'
    split_ifs at h h' <;> omega
  obtain ⟨victim, killer⟩ := a
  obtain ⟨victim', killer'⟩ := b
  obtain rfl := UInt8.toNat_inj.mp hsame.1
  obtain rfl := UInt8.toNat_inj.mp hsame.2
  rfl

instance : Std.Total CapturedDeath.Before := ⟨before_total⟩
instance : IsTrans CapturedDeath CapturedDeath.Before := ⟨fun _ _ _ => before_trans⟩
instance : Std.Antisymm CapturedDeath.Before := ⟨fun _ _ => before_antisymm⟩

/-- Whatever order each was made in, two lists of a tick's Deaths compare. -/
theorem orderedDeaths_eq_iff {deaths deaths' : List CapturedDeath} :
    orderedDeaths deaths = orderedDeaths deaths' ↔ deaths.Perm deaths' :=
  List.insertionSort_eq_iff

/-! ### A capture's markers -/

/-- The Death an event is, at `offset`. -/
def deathAt (offset : UInt32) (event : EventAt) : Option CapturedDeath :=
  match event.event with
  | .death victim killer => if event.offset = offset then some ⟨victim, killer⟩ else none
  | .command .. | .leave _ | .matchEnd _ => none

/-- The Match end an event is, and where. -/
def matchEndOf (event : EventAt) : Option (UInt32 × CapturedEnd) :=
  match event.event with
  | .matchEnd winner => some (event.offset, winner)
  | .command .. | .leave _ | .death .. => none

/-- The Deaths of a capture on a tick. -/
def deathsAt (events : List EventAt) (offset : UInt32) : List CapturedDeath :=
  events.filterMap (deathAt offset)

/-- The Match end of a capture, if it has one. -/
def matchEndIn (events : List EventAt) : Option (UInt32 × CapturedEnd) :=
  (events.filterMap matchEndOf).getLast?

namespace ReplayCheck

/-- Whether `check` holds a Replay to the markers of `events`. -/
structure Holds (events : List EventAt) (check : ReplayCheck) : Prop where
  deaths : ∀ offset, (check.deaths.lookup offset).getD [] = deathsAt events offset
  ends : check.endOffset.map (fun offset => (offset, check.end_)) = matchEndIn events

theorem holds_note {events : List EventAt} {check : ReplayCheck} (h : Holds events check)
    (event : EventAt) : Holds (events ++ [event]) (check.note event) := by
  obtain ⟨offset, event⟩ := event
  constructor
  · intro at_
    rw [deathsAt, List.filterMap_append, ← deathsAt, ← h.deaths]
    cases event with
    | death victim killer =>
        simp only [note, AList.lookup_insert_eq]
        rcases eq_or_ne at_ offset with rfl | hne
        · simp [deathAt]
        · simp [deathAt, hne, hne.symm]
    | _ => simp [note, deathAt]
  · rw [matchEndIn, List.filterMap_append]
    cases event with
    | matchEnd winner => simp [note, matchEndOf]
    | _ => simpa [note, matchEndOf, matchEndIn] using h.ends

theorem holds_ofCapture (capture : MatchCapture) : Holds capture.events (.ofCapture capture) := by
  rw [ofCapture]
  induction capture.events using List.reverseRecOn with
  | nil => exact ⟨fun _ => rfl, rfl⟩
  | append_singleton events event ih =>
      rw [List.foldl_concat]
      exact holds_note ih event

theorem reported_note (check : ReplayCheck) (event : EventAt) :
    (check.note event).reported = check.reported := by
  rw [note]
  split <;> rfl

theorem reported_ofCapture (capture : MatchCapture) : (ofCapture capture).reported = false := by
  rw [ofCapture]
  induction capture.events using List.reverseRecOn with
  | nil => rfl
  | append_singleton events event ih => rw [List.foldl_concat, reported_note, ih]

/-- What a tick at `offset` resolved is what `events` have there. -/
def Agrees (events : List EventAt) (offset : UInt32) (deaths : List CapturedDeath)
    (end_ : Option CapturedEnd) : Prop :=
  (deathsAt events offset).Perm deaths ∧ ∀ at_ winner, matchEndIn events = some (at_, winner) →
    end_ = if at_ = offset then some winner else none

/-- What is reported of one that is not. -/
def difference (events : List EventAt) (offset : UInt32) (deaths : List CapturedDeath)
    (end_ : Option CapturedEnd) : Divergence :=
  if (deathsAt events offset).Perm deaths then
    .matchEnd offset ((matchEndIn events).bind fun ends =>
      if ends.1 = offset then some ends.2 else none) end_
  else .death offset (orderedDeaths (deathsAt events offset)) (orderedDeaths deaths)

section
variable {events : List EventAt} {c : ReplayCheck} {offset : UInt32} {deaths : List CapturedDeath}
variable {end_ : Option CapturedEnd}

theorem check_reported (h : c.reported = true) : c.check offset deaths end_ = (none, c) := by
  rw [check, if_pos h]

theorem check_agrees (h : Holds events c) (hfresh : c.reported = false)
    (hagrees : Agrees events offset deaths end_) : c.check offset deaths end_ = (none, c) := by
  obtain ⟨hdeaths, hends⟩ := hagrees
  rw [← h.ends] at hends
  have hsame := orderedDeaths_eq_iff.mpr hdeaths
  rw [check, hfresh, h.deaths]
  simp only [hsame, ne_eq, not_true_eq_false, if_false, Bool.false_eq_true]
  cases hend : c.endOffset with
  | none => rfl
  | some at_ => simp [hends at_ c.end_ (by simp [hend])]

theorem check_differs (h : Holds events c) (hfresh : c.reported = false)
    (hdiffers : ¬ Agrees events offset deaths end_) :
    c.check offset deaths end_ =
      (some (difference events offset deaths end_), { c with reported := true }) := by
  rw [check, hfresh, h.deaths]
  simp only [Bool.false_eq_true, if_false, ne_eq, orderedDeaths_eq_iff]
  by_cases hdeaths : (deathsAt events offset).Perm deaths
  · have hends : ¬ ∀ at_ winner, matchEndIn events = some (at_, winner) →
        end_ = if at_ = offset then some winner else none := fun hends => hdiffers ⟨hdeaths, hends⟩
    rw [← h.ends] at hends
    simp only [hdeaths, not_true_eq_false, if_false, difference, if_true, ← h.ends]
    cases hend : c.endOffset with
    | none => simp [hend] at hends
    | some at_ =>
        simp only [hend, Option.map_some, Option.some.injEq, Prod.mk.injEq] at hends ⊢
        rw [if_neg]
        · rfl
        · rintro hsame
          refine hends fun at' winner hat => ?_
          obtain ⟨rfl, rfl⟩ := hat
          exact hsame.symm
  · simp [hdeaths, difference]

end
end ReplayCheck

/-! ### Ticks -/

namespace Replay
variable {vecLength : Math.Vec3 → Lib.Binary32} {replay replay' : Replay}

/-- The ticks of a Replay, one for each of `outsides`; none if a lookup found nothing. -/
def ticks (vecLength : Math.Vec3 → Lib.Binary32) (replay : Replay) :
    List Simulation.Outside → Option (List ReplayTick × Replay)
  | [] => some ([], replay)
  | outside :: rest =>
      (replay.step vecLength outside).bind fun stepped =>
        (stepped.2.ticks vecLength rest).map fun run => (stepped.1 :: run.1, run.2)

/-- What is not the World's or the players' is left alone. -/
structure Beside (replay replay' : Replay) : Prop where
  capture : replay'.capture = replay.capture
  check : replay'.check = replay.check
  start : replay'.start = replay.start
  offset : replay'.offset = replay.offset
  lastOffset : replay'.lastOffset = replay.lastOffset

theorem Beside.trans {replay'' : Replay} (h : Beside replay replay')
    (h' : Beside replay' replay'') : Beside replay replay'' :=
  ⟨h'.capture.trans h.capture, h'.check.trans h.check, h'.start.trans h.start,
    h'.offset.trans h.offset, h'.lastOffset.trans h.lastOffset⟩

theorem beside_modifyPlayer {player : Capture.Player} {change : ReplayPlayer → ReplayPlayer}
    (h : replay.modifyPlayer player change = some replay') : Beside replay replay' := by
  rw [modifyPlayer] at h
  split_ifs at h
  cases h
  exact ⟨rfl, rfl, rfl, rfl, rfl⟩

theorem beside_handEvents {offset : UInt32} {tickRun : Bool} {events : List EventAt}
    (h : handEvents vecLength offset tickRun events replay = some replay') :
    Beside replay replay' := by
  induction events generalizing tickRun replay with
  | nil =>
      cases h
      exact ⟨rfl, rfl, rfl, rfl, rfl⟩
  | cons event rest ih =>
      rw [handEvents] at h
      by_cases hoffset : event.offset ≠ offset
      · rw [if_pos hoffset] at h
        cases h
        exact ⟨rfl, rfl, rfl, rfl, rfl⟩
      · rw [if_neg hoffset] at h
        obtain ⟨at_, event⟩ := event
        cases event with
        | command player seenOffset command =>
            obtain ⟨next, hnext, hrest⟩ := Option.bind_eq_some_iff.mp h
            exact (beside_modifyPlayer hnext).trans (ih hrest)
        | leave player =>
            simp only at h
            split_ifs at h with hafter
            · exact ih h
            · obtain ⟨next, hnext, hrest⟩ := Option.bind_eq_some_iff.mp h
              have hremoved : Beside next
                  { next with world := next.world.removePlayer (bodyOf player) } :=
                ⟨rfl, rfl, rfl, rfl, rfl⟩
              exact ((beside_modifyPlayer hnext).trans hremoved).trans (ih hrest)
        | death victim killer => exact ih h
        | matchEnd winner => exact ih h

/-- What a tick says of its Deaths and its Match end goes through the check. -/
structure Checked (replay : Replay) (tick : ReplayTick) (replay' : Replay) : Prop where
  capture : replay'.capture = replay.capture
  start : replay'.start = replay.start
  offset : replay'.offset = replay.offset + 1
  check : (tick.divergence, replay'.check) = replay.check.check replay.offset
    (capturedDeaths tick.result.state.deaths) (replay.capturedEnd tick.result.actions)

theorem checked_step {outside : Simulation.Outside} {tick : ReplayTick}
    (h : replay.step vecLength outside = some (tick, replay')) : Checked replay tick replay' := by
  simp only [step, Option.bind_eq_bind, Option.bind_eq_some_iff, Option.some.injEq,
    Prod.mk.injEq] at h
  obtain ⟨handed, hhanded, end_, -, rfl, rfl⟩ := h
  have hbeside := beside_handEvents hhanded
  have hend (actions : List Policy.Action) :
      handed.takeCommands.2.capturedEnd actions = replay.capturedEnd actions := by
    simp only [capturedEnd, takeCommands, hbeside.start]
  refine ⟨hbeside.capture, hbeside.start, rfl, ?_⟩
  rw [← hend, ← hbeside.check]
  rfl

/-- A tick and its offset, as the capture would have it. -/
def Agrees (replay : Replay) (offset : UInt32) (tick : ReplayTick) : Prop :=
  ReplayCheck.Agrees replay.capture.events offset (capturedDeaths tick.result.state.deaths)
    (replay.capturedEnd tick.result.actions)

/-- How it is otherwise. -/
def difference (replay : Replay) (offset : UInt32) (tick : ReplayTick) : Divergence :=
  ReplayCheck.difference replay.capture.events offset (capturedDeaths tick.result.state.deaths)
    (replay.capturedEnd tick.result.actions)

/-- Once one is reported, no other is. -/
theorem ticks_reported {outsides : List Simulation.Outside} {ticks : List ReplayTick}
    (hreported : replay.check.reported = true)
    (h : replay.ticks vecLength outsides = some (ticks, replay')) :
    ∀ tick ∈ ticks, tick.divergence = none := by
  induction outsides generalizing replay ticks with
  | nil =>
      cases h
      simp
  | cons outside rest ih =>
      obtain ⟨⟨tick, next⟩, hstep, hrest⟩ := Option.bind_eq_some_iff.mp h
      obtain ⟨⟨later, last⟩, hlater, hsame⟩ := Option.map_eq_some_iff.mp hrest
      cases hsame
      have hcheck := (checked_step hstep).check
      rw [ReplayCheck.check_reported hreported] at hcheck
      obtain ⟨hnone, hcheck⟩ := Prod.mk.inj hcheck
      rintro other (_ | ⟨_, hother⟩)
      · exact hnone
      · refine ih ?_ hlater other hother
        rw [hcheck]
        exact hreported

/-- The check of a Replay that has reported nothing. -/
theorem ticks_fresh {outsides : List Simulation.Outside} {ticks : List ReplayTick}
    (hholds : ReplayCheck.Holds replay.capture.events replay.check)
    (hfresh : replay.check.reported = false)
    (h : replay.ticks vecLength outsides = some (ticks, replay')) (i : ℕ) (tick : ReplayTick)
    (htick : ticks[i]? = some tick) :
    (tick.divergence ≠ none ↔ ¬ replay.Agrees (replay.offset + UInt32.ofNat i) tick ∧
      ∀ j earlier, j < i → ticks[j]? = some earlier →
        replay.Agrees (replay.offset + UInt32.ofNat j) earlier) ∧
    ∀ divergence, tick.divergence = some divergence →
      divergence = replay.difference (replay.offset + UInt32.ofNat i) tick := by
  induction outsides generalizing replay ticks i with
  | nil =>
      cases h
      simp at htick
  | cons outside rest ih =>
      obtain ⟨⟨first, next⟩, hstep, hrest⟩ := Option.bind_eq_some_iff.mp h
      obtain ⟨⟨later, last⟩, hlater, hsame⟩ := Option.map_eq_some_iff.mp hrest
      cases hsame
      have hchecked := checked_step hstep
      have hagrees (offset : UInt32) (tick : ReplayTick) :
          next.Agrees offset tick ↔ replay.Agrees offset tick := by
        simp only [Agrees, capturedEnd, hchecked.capture, hchecked.start]
      have hdifference (offset : UInt32) (tick : ReplayTick) :
          next.difference offset tick = replay.difference offset tick := by
        simp only [difference, capturedEnd, hchecked.capture, hchecked.start]
      have hzero : replay.offset + UInt32.ofNat 0 = replay.offset := by simp
      have hsucc (n : ℕ) : replay.offset + UInt32.ofNat (n + 1) =
          next.offset + UInt32.ofNat n := by
        rw [hchecked.offset, UInt32.ofNat_add, UInt32.add_assoc, UInt32.add_comm (UInt32.ofNat n)]
        rfl
      by_cases hfirst : replay.Agrees replay.offset first
      · have hcheck := hchecked.check
        rw [ReplayCheck.check_agrees hholds hfresh hfirst] at hcheck
        obtain ⟨hnone, hcheck⟩ := Prod.mk.inj hcheck
        cases i with
        | zero =>
            cases htick
            simp [hnone, hfirst]
        | succ i =>
            obtain ⟨hwhen, hwhat⟩ := ih (hchecked.capture ▸ hcheck ▸ hholds) (hcheck ▸ hfresh)
              hlater i htick
            simp only [hagrees, hdifference, ← hsucc] at hwhen hwhat
            refine ⟨hwhen.trans (and_congr_right fun _ => ?_), hwhat⟩
            constructor
            · rintro hall (_ | j) earlier hj hearlier
              · cases hearlier
                rwa [hzero]
              · exact hall j earlier (by omega) hearlier
            · exact fun hall j earlier hj hearlier => hall (j + 1) earlier (by omega) hearlier
      · have hcheck := hchecked.check
        rw [ReplayCheck.check_differs hholds hfresh hfirst] at hcheck
        obtain ⟨hsome, hcheck⟩ := Prod.mk.inj hcheck
        cases i with
        | zero =>
            cases htick
            refine ⟨?_, fun divergence hdivergence => ?_⟩
            · simp [hsome, hfirst]
            · rw [hsome] at hdivergence
              cases hdivergence
              rw [hzero]
              rfl
        | succ i =>
            have hnone := ticks_reported (by rw [hcheck]) hlater tick (List.mem_of_getElem? htick)
            refine ⟨?_, by simp [hnone]⟩
            simp only [hnone, ne_eq, not_true_eq_false, false_iff, not_and]
            intro _ hall
            refine hfirst ?_
            rw [← hzero]
            exact hall 0 first (Nat.succ_pos i) rfl

theorem beside_enter {characters : Lib.Table String Prediction.Clips} {join : Capture.Join}
    (h : replay.enter characters join = some replay') :
    replay'.capture = replay.capture ∧ replay'.check = replay.check ∧
      replay'.offset = replay.offset := by
  simp only [enter, Option.bind_eq_bind, Option.bind_eq_some_iff] at h
  obtain ⟨clips, -, hreplay⟩ := h
  cases hreplay
  exact ⟨rfl, rfl, rfl⟩

/-- CORRECT: of all its ticks, whatever its World makes of them, a Replay reports the first whose
    Deaths or Match end are not its capture's, as they differ, and no other; none, if all are. -/
theorem divergence_law {capture : MatchCapture} {world : Simulation.World}
    {characters : Lib.Table String Prediction.Clips}
    (hnew : new capture world characters = some replay) {outsides : List Simulation.Outside}
    {ticks : List ReplayTick} (h : replay.ticks vecLength outsides = some (ticks, replay')) (i : ℕ)
    (tick : ReplayTick) (htick : ticks[i]? = some tick) :
    (tick.divergence ≠ none ↔ ¬ replay.Agrees (UInt32.ofNat i) tick ∧
      ∀ j earlier, j < i → ticks[j]? = some earlier → replay.Agrees (UInt32.ofNat j) earlier) ∧
    ∀ divergence, tick.divergence = some divergence →
      divergence = replay.difference (UInt32.ofNat i) tick := by
  obtain ⟨hcapture, hcheck, hoffset⟩ : replay.capture = capture ∧
      replay.check = .ofCapture capture ∧ replay.offset = 0 := by
    refine @Lib.run.invariant _ _ (enter characters)
      (fun replay => replay.capture = capture ∧ replay.check = .ofCapture capture ∧
        replay.offset = 0) (fun {s join s'} hs hstep => ?_) _ _ _ ⟨rfl, rfl, rfl⟩ hnew
    obtain ⟨hcapture, hcheck, hoffset⟩ := beside_enter hstep
    exact ⟨hcapture.trans hs.1, hcheck.trans hs.2.1, hoffset.trans hs.2.2⟩
  have hlaw := ticks_fresh (by rw [hcapture, hcheck]; exact ReplayCheck.holds_ofCapture capture)
    (by rw [hcheck]; exact ReplayCheck.reported_ofCapture capture) h i tick htick
  simp only [hoffset, UInt32.zero_add] at hlaw
  exact hlaw

/-! A capture that has a player killed on its second tick, where the World has no one fire. -/

def doctoredCapture : MatchCapture where
  header := { tickRateHz := 60 }
  joins := [⟨1, "soldier", {}⟩]
  events := [⟨1, .death 1 1⟩]

def soldiers : Lib.Table String Prediction.Clips :=
  AList.insert "soldier" { strideLength := fun _ _ _ => .one, transitions := {} } ∅

theorem divergence_law_doctored : ∃ replay run second,
    new doctoredCapture Simulation.duelWorld soldiers = some replay ∧
      replay.ticks (fun _ => .zero) [Simulation.duelGround, Simulation.duelGround] = some run ∧
      run.1[1]? = some second ∧
      run.1.map (·.divergence) = [none, some (.death 1 [⟨1, 1⟩] [])] ∧
      ¬ replay.Agrees 1 second := by
  obtain ⟨replay, hnew⟩ : ∃ replay,
      new doctoredCapture Simulation.duelWorld soldiers = some replay := ⟨_, rfl⟩
  have hticks : ((new doctoredCapture Simulation.duelWorld soldiers).bind fun replay =>
      replay.ticks (fun _ => .zero) [Simulation.duelGround, Simulation.duelGround]).map
        (fun run => run.1.map (·.divergence)) = some [none, some (.death 1 [⟨1, 1⟩] [])] := rfl
  rw [hnew, Option.bind_some, Option.map_eq_some_iff] at hticks
  obtain ⟨run, hrun, hdivergences⟩ := hticks
  have hat := congrArg (·[1]?) hdivergences
  simp only [List.getElem?_map, Option.map_eq_some_iff, List.getElem?_cons_succ,
    List.getElem?_cons_zero] at hat
  obtain ⟨second, hsecond, hdivergence⟩ := hat
  have hlaw := divergence_law hnew hrun 1 second hsecond
  refine ⟨replay, run, second, hnew, hrun, hsecond, hdivergences, (hlaw.1.mp ?_).1⟩
  simp [hdivergence]

end Replay
end Augusta.Host
