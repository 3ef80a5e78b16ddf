import Augusta.Harness.IntentPlaces

/-! How long a MoveTo goes on: every step nearer gives it another second, and there are only so many
    steps to its point.

      farthest ── a step nearer ──▶ nearest ── a step nearer ──▶ … ──▶ arrived
          └──────── a second without ────┴──────────▶ blocked -/

namespace Augusta.Harness.IntentExecutor
open Lib (Binary32)
open Link

/-! ### How long a MoveTo goes on -/

theorem carry_cases (progress : Progress Binary32) (tickRateHz : ℕ) (distance : Binary32) :
    (distance.le kArrivedM = true ∧
        progress.carry Math.Vec3 tickRateHz distance = (some .arrived, progress)) ∨
      distance.le kArrivedM = false ∧
        ((distance.lt (progress.nearest.sub kProgressM) = true ∧
            progress.carry Math.Vec3 tickRateHz distance = (none, ⟨distance, 0⟩)) ∨
          (tickRateHz ≤ progress.ticksWithoutProgress + 1 ∧
            distance.lt (progress.nearest.sub kProgressM) = false ∧
            (progress.carry Math.Vec3 tickRateHz distance).1 = some .blocked) ∨
          (¬ tickRateHz ≤ progress.ticksWithoutProgress + 1 ∧
            distance.lt (progress.nearest.sub kProgressM) = false ∧
            progress.carry Math.Vec3 tickRateHz distance =
              (none, ⟨progress.nearest, progress.ticksWithoutProgress + 1⟩))) := by
  simp only [Progress.carry, Floor.le, Floor.lt, Floor.sub, Floor.ofFloat, id_eq]
  split_ifs with harrived hnearer hblocked
  · exact .inl ⟨harrived, rfl⟩
  · exact .inr ⟨Bool.eq_false_iff.mpr harrived, .inl ⟨hnearer, rfl⟩⟩
  · exact .inr ⟨Bool.eq_false_iff.mpr harrived,
      .inr (.inl ⟨hblocked, Bool.eq_false_iff.mpr hnearer, rfl⟩)⟩
  · exact .inr ⟨Bool.eq_false_iff.mpr harrived,
      .inr (.inr ⟨hblocked, Bool.eq_false_iff.mpr hnearer, rfl⟩)⟩

/-- What a MoveTo has counted after the ticks it was carried out on, unless it ended on one. -/
def goesOn : Progress Binary32 → List (ℕ × Binary32) → Option (Progress Binary32)
  | progress, [] => some progress
  | progress, (tickRateHz, distance) :: rest =>
      match progress.carry Math.Vec3 tickRateHz distance with
      | (none, left) => goesOn left rest
      | (some _, _) => none

theorem goesOn_concat (progress : Progress Binary32) (ticks : List (ℕ × Binary32))
    (tickRateHz : ℕ) (distance : Binary32) :
    goesOn progress (ticks ++ [(tickRateHz, distance)]) =
      (goesOn progress ticks).bind fun left => goesOn left [(tickRateHz, distance)] := by
  induction ticks generalizing progress with
  | nil => rfl
  | cons tick rest ih =>
      rw [List.cons_append, goesOn, goesOn]
      split
      · exact ih _
      · rfl

theorem kProgressM_nonnegative : kProgressM.Nonnegative := by
  constructor <;> decide

/-- What comes nearer is finite, and nearer by a step at least. -/
theorem nearer {nearest distance : Binary32} (hnearest : nearest.Nonnegative)
    (hfar : distance.le kArrivedM = false)
    (hnearer : distance.lt (nearest.sub kProgressM) = true) :
    distance.Nonnegative ∧ distance.toRat < nearest.toRat - kProgressM.toRat := by
  have hpos : 0 < distance.key := by
    have hnumber : kArrivedM.isNaN = false := by decide
    have hkey : 0 < kArrivedM.key := by decide
    simp only [Binary32.lt, Bool.and_eq_true, Bool.not_eq_true'] at hnearer
    simp only [Binary32.le, hnearer.1.1, hnumber, Bool.not_false, Bool.and_self, Bool.true_and,
      decide_eq_false_iff_not, not_le] at hfar
    omega
  obtain ⟨hfinite, hlt⟩ :=
    Binary32.toRat_lt_of_lt_sub hnearest kProgressM_nonnegative hpos hnearer
  exact ⟨⟨hfinite, hpos.le⟩, hlt⟩

/-- The MoveTo `n` has ended itself, or goes on from what it has counted. -/
def Walking (run : Run) (n : ℕ) : Prop :=
  HasMoved run n ∨
    ∃ progress, goesOn (.start Math.Vec3) (run.walked n) = some progress ∧
      ∀ held moveTo, run.executor.movement = some held → held.onEnded = n →
        held.intent = .moveTo moveTo → held.tracking.progress = progress

theorem hasMoved_step {run : Run} {n : ℕ} (libm : Libm) (h : HasMoved run n) (event : Event) :
    HasMoved (run.step libm event) n := by
  obtain ⟨e, he, hended⟩ := h
  refine ⟨e, ?_, hended⟩
  cases event with
  | call c =>
      simp only [Run.step, List.mem_append] at he ⊢
      tauto
  | next view own =>
      simp only [Run.step, List.mem_append] at he ⊢
      tauto
  | tell which => exact (tell_perm libm run which).mem_iff.mpr he

theorem walking_call {run : Run} (libm : Libm) (hgiven : AsGiven run) (c : Call) {n : ℕ}
    (h : Walking run n) : Walking (run.step libm (.call c)) n := by
  rcases h with hended | ⟨progress, hgoes, htracking⟩
  · exact .inl (hasMoved_step libm hended _)
  · refine .inr ⟨progress, hgoes, ?_⟩
    rcases c with (_ | intent | _ | _) | _ | _ | _
    · rintro held moveTo ⟨⟩
    · rintro held moveTo ⟨⟩ rfl -
      -- newly given, it has not been carried out yet
      have hnone : run.walked run.given.length = [] := by
        rw [Run.walked, List.filterMap_eq_nil_iff]
        intro sent hsent
        rw [Sent.walks]
        split
        · next moveTo' onEnded tracking hraw hmovement =>
            refine if_neg ?_
            rintro ⟨-, rfl⟩
            exact Nat.lt_irrefl _
              (hgiven.past sent hsent .movement _ (by rw [heldOn, hmovement]; rfl))
        · rfl
      rw [hnone] at hgoes
      exact Option.some.inj hgoes
    · exact htracking
    · exact htracking
    · rintro held moveTo ⟨⟩
    · exact htracking
    · exact htracking

/-- The movement after a tick that carries out the channels. -/
theorem movement_carryAll (libm : Libm) (executor : IntentExecutor ℕ) (view : ServerView)
    (own : Physics.BodyState) :
    (executor.carryAll libm view own).2.1.movement =
      (carryChannel (carryMovement · view own) executor.movement executor.startingCommand []).1 :=
  rfl

theorem mem_carryAll {libm : Libm} {executor : IntentExecutor ℕ} {view : ServerView}
    {own : Physics.BodyState} {e : Ended ℕ}
    (h : e ∈ (carryChannel (carryMovement · view own) executor.movement
      executor.startingCommand []).2.2) : e ∈ (executor.carryAll libm view own).2.2 := by
  have hkeeps : ∀ {Intent : Type} (carry : Held Intent ℕ → Command → Carried)
      (channel : Option (Held Intent ℕ)) (command : Command) (ended : List (Ended ℕ)),
      e ∈ ended → e ∈ (carryChannel carry channel command ended).2.2 := by
    intro Intent carry channel command ended he
    rcases channel with - | held
    · exact he
    · rw [carryChannel]
      split
      · exact List.mem_append_left _ he
      · exact he
  exact hkeeps _ _ _ _ (hkeeps _ _ _ _ h)

/-- What a tick makes of the MoveTo `n`, if it carries it out. -/
theorem tick_walks {libm : Libm} {executor after : IntentExecutor ℕ} {view : ServerView}
    {own : Physics.BodyState} {command : Command} {ended : List (Ended ℕ)} (n : ℕ)
    (h : Tick libm executor view own command after ended) :
    (Sent.walks n ⟨executor, view, own, command⟩ = none ∧
        ∀ held moveTo, after.movement = some held → held.onEnded = n →
          held.intent = .moveTo moveTo → executor.movement = some held) ∨
      ∃ tick held moveTo, Sent.walks n ⟨executor, view, own, command⟩ = some tick ∧
        executor.movement = some held ∧ held.onEnded = n ∧ held.intent = .moveTo moveTo ∧
          ((∃ e ∈ ended, e.onEnded = n ∧ (e.ending = .arrived ∨ e.ending = .blocked)) ∨
            ∃ left, held.tracking.progress.carry Math.Vec3 tick.1 tick.2 = (none, left) ∧
              after.movement =
                some { held with tracking := { held.tracking with progress := left } }) := by
  cases h with
  | raw _ hfound _ _ _ hmovement =>
      refine .inl ⟨by rw [Sent.walks, hfound], fun held moveTo hheld _ _ => ?_⟩
      rw [← hmovement]
      exact hheld
  | channels halive hraw _ _ _ hmovement =>
      rw [movement_carryAll] at hmovement
      rcases hfound : executor.movement with - | ⟨move | moveTo, onEnded, tracking⟩
      · refine .inl ⟨by simp only [Sent.walks, hraw, hfound], fun held moveTo hheld => ?_⟩
        rw [hmovement, hfound, carryChannel] at hheld
        cases hheld
      · refine .inl ⟨by simp only [Sent.walks, hraw, hfound], fun held moveTo hheld _ hintent => ?_⟩
        rw [hmovement, hfound] at hheld
        cases hheld
        cases hintent
      · by_cases hn : onEnded = n
        · refine .inr ⟨(tickRateOf view, moveTo.distance own.position), _, moveTo,
            by simp only [Sent.walks, hraw, hfound, halive, hn, and_self, if_true], rfl, hn, rfl,
            ?_⟩
          rcases hcarry : tracking.progress.carry Math.Vec3 (tickRateOf view)
            (moveTo.distance own.position) with ⟨- | ending, left⟩
          · refine .inr ⟨left, rfl, ?_⟩
            rw [hmovement, hfound]
            simp only [carryChannel, carryMovement, hcarry]
          · refine .inl ⟨⟨onEnded, ending⟩, mem_carryAll ?_, hn, ?_⟩
            · rw [hfound]
              simp [carryChannel, carryMovement, hcarry, endInto]
            · rcases carry_cases tracking.progress (tickRateOf view) (moveTo.distance own.position)
                with ⟨-, h⟩ | ⟨-, ⟨-, h⟩ | ⟨-, -, h⟩ | ⟨-, -, h⟩⟩ <;> rw [hcarry] at h <;> cases h
              · exact .inl rfl
              · exact .inr rfl
        · refine .inl ⟨by simp only [Sent.walks, hraw, hfound, hn, and_false, if_false],
            fun held moveTo' hheld honEnded _ => absurd ?_ hn⟩
          rw [hmovement] at hheld
          obtain ⟨was, hwas, -, hsame⟩ := keeps_carryChannel _ _ _ _ held hheld
          rw [hfound] at hwas
          cases hwas
          rw [← honEnded, hsame]
  | waits hdead =>
      refine .inl ⟨?_, fun held moveTo hheld _ _ => ?_⟩
      · rw [Sent.walks]
        split
        · rw [if_neg (by simp [hdead])]
        · rfl
      · rcases endAim_cases executor view with ⟨-, hnone⟩ | ⟨_, _, _, -, -, hgone⟩
        · rw [hnone] at hheld
          exact hheld
        · rw [hgone] at hheld
          exact hheld

theorem walked_next (run : Run) (libm : Libm) (view : ServerView) (own : Physics.BodyState)
    (n : ℕ) : (run.step libm (.next view own)).walked n = run.walked n ++
      (Sent.walks n ⟨run.executor, view, own,
        (run.executor.nextCommand libm view own).1⟩).toList := by
  simp only [Run.walked, Run.step, List.filterMap_append, List.filterMap_cons, List.filterMap_nil]
  split <;> simp_all

theorem walking_next {run : Run} (libm : Libm) (view : ServerView) (own : Physics.BodyState)
    {n : ℕ} (h : Walking run n) : Walking (run.step libm (.next view own)) n := by
  rcases h with hended | ⟨progress, hgoes, htracking⟩
  · exact .inl (hasMoved_step libm hended _)
  have hwalked := walked_next run libm view own n
  rcases tick_walks n (nextCommand_tick libm run.executor view own) with ⟨hnone, hsame⟩ |
    ⟨tick, held, moveTo, hsome, hheld, honEnded, hintent, ⟨e, he, hended⟩ | ⟨left, hcarry, hleft⟩⟩
  · rw [hnone, Option.toList_none, List.append_nil] at hwalked
    refine .inr ⟨progress, by rw [hwalked]; exact hgoes, fun held moveTo hheld honEnded hintent =>
      ?_⟩
    exact htracking held moveTo (hsame held moveTo hheld honEnded hintent) honEnded hintent
  · exact .inl ⟨e, List.mem_append_left _ (List.mem_append_right _ he), hended⟩
  · rw [hsome, Option.toList_some] at hwalked
    refine .inr ⟨left, ?_, fun held' moveTo' hheld' _ _ => ?_⟩
    swap
    · rw [show (run.step libm (.next view own)).executor.movement = _ from hleft] at hheld'
      rw [← Option.some.inj hheld']
    rw [hwalked, goesOn_concat, hgoes, Option.bind_some,
      ← htracking held moveTo hheld honEnded hintent, goesOn, hcarry]
    rfl

theorem walking_after (libm : Libm) (events : List Event) (n : ℕ) :
    Walking (Run.after libm events) n := by
  induction events using List.reverseRecOn with
  | nil => exact .inr ⟨.start Math.Vec3, rfl, by rintro held moveTo ⟨⟩⟩
  | append_singleton events event ih =>
      rw [Run.after_concat]
      cases event with
      | call c => exact walking_call libm (asGiven_after libm events) c ih
      | next view own => exact walking_next libm view own ih
      | tell which =>
          rcases ih with hended | hgoes
          · exact .inl (hasMoved_step libm hended _)
          · exact .inr hgoes

end Augusta.Harness.IntentExecutor
