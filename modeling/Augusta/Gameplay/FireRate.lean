import Augusta.Gameplay.Timing
import Mathlib.Algebra.Order.Floor.Ring
import Mathlib.Data.List.Induction
import Mathlib.Data.Rat.Floor
import Mathlib.Tactic.Linarith
import Mathlib.Tactic.Positivity

/-! How fast a rifle fires over any stretch of ticks, over exact arithmetic.

      cooldown   0 ──fire──▶ I - d ──▶ I - 2d ──▶ … ≤ tolerance ──fire──▶ …

    Each tick takes off `d` and each round adds `I`, and nothing below `-d` is kept: so what was
    waited beyond a tick is lost, and what was waited within one is taken off the next wait. -/

namespace Augusta.Weapon.Times
open Lib (Binary32)

/-- The tolerance the code calls a wait over within. -/
def tolerance : ℚ := kReadyWithin.toRat

/-- How many of the ticks fired. -/
def shots (ticked : List (Ticked ℚ)) : ℕ := ticked.countP (·.fired)

variable (rates : Rates ℚ) {deltaTime : ℚ}

theorem cooled_eq (state : Times ℚ) (command : Command) (deltaTime : ℚ) :
    (step rates state command deltaTime).state.cooldown =
      max ((if fires rates state command then state.cooldown + interval rates else state.cooldown) -
        deltaTime) (if trigger rates state command then -deltaTime else 0) := rfl

/-- What a tick leaves of the wait is at least what it takes off it. -/
theorem le_cooldown_step (state : Times ℚ) (command : Command) :
    state.cooldown - deltaTime + (if (step rates state command deltaTime).fired then interval rates else 0) ≤
      (step rates state command deltaTime).state.cooldown := by
  rw [cooled_eq]
  refine le_trans (le_of_eq ?_) (le_max_left _ _)
  change _ + (if fires rates state command = true then interval rates else 0) = _
  split
  · ring
  · ring

/-- And no tick banks more than itself. -/
theorem neg_le_cooldown_step (hdelta : 0 ≤ deltaTime) (state : Times ℚ) (command : Command) :
    -deltaTime ≤ (step rates state command deltaTime).state.cooldown := by
  rw [cooled_eq]
  refine le_trans ?_ (le_max_right _ _)
  split
  · exact le_rfl
  · linarith

/-- A round is fired with the wait over. -/
theorem cooldown_le_of_fired {state : Times ℚ} {command : Command}
    (h : (step rates state command deltaTime).fired = true) : state.cooldown ≤ tolerance := by
  change fires rates state command = true at h
  rw [fires, Bool.and_eq_true] at h
  exact of_decide_eq_true h.2

theorem shots_cons (ticked : Ticked ℚ) (rest : List (Ticked ℚ)) :
    shots (ticked :: rest) = shots rest + if ticked.fired then 1 else 0 :=
  List.countP_cons ..

/-- From any wait on, the rounds of a stretch that fires any are as far apart as their intervals. -/
theorem intervals_le (hdelta : 0 ≤ deltaTime) (commands : List Command) (state : Times ℚ)
    (hsome : 0 < shots (ticks rates deltaTime state commands)) :
    state.cooldown + (shots (ticks rates deltaTime state commands) - 1) * interval rates ≤
      tolerance + (commands.length - 1) * deltaTime := by
  induction commands generalizing state with
  | nil => simp [ticks, shots] at hsome
  | cons command rest ih =>
      have hstep := @le_cooldown_step rates deltaTime state command
      have hlength : (0 : ℚ) ≤ rest.length := by positivity
      have htime := mul_nonneg hlength hdelta
      rw [ticks, shots_cons] at hsome ⊢
      rw [List.length_cons]
      generalize hnext : step rates state command deltaTime = next at hstep hsome ⊢
      rcases Nat.eq_zero_or_pos (shots (ticks rates deltaTime next.state rest)) with hnone | hmore
      · -- this tick's is the only one
        have hfired : next.fired = true := by
          by_contra hnot
          simp [hnone, hnot] at hsome
        have hready : state.cooldown ≤ tolerance :=
          @cooldown_le_of_fired rates deltaTime _ _ (by rw [hnext]; exact hfired)
        rw [hnone, hfired]
        push_cast
        simp only [if_true]
        linarith
      · have hrest := ih next.state hmore
        cases hfired : next.fired with
        | true =>
            simp only [hfired, if_true] at hstep ⊢
            push_cast
            linarith
        | false =>
            simp only [hfired, Bool.false_eq_true, if_false] at hstep ⊢
            push_cast
            linarith

/-! ### Runs grown at their end -/

theorem run_append (deltaTime : ℚ) (state : Times ℚ) (commands : List Command) (next : Command) :
    run rates deltaTime state (commands ++ [next]) =
      (step rates (run rates deltaTime state commands) next deltaTime).state := by
  rw [run, List.foldl_append]
  rfl

theorem shots_append (deltaTime : ℚ) (state : Times ℚ) (commands : List Command) (next : Command) :
    shots (ticks rates deltaTime state (commands ++ [next])) =
      shots (ticks rates deltaTime state commands) +
        if (step rates (run rates deltaTime state commands) next deltaTime).fired then 1 else 0 := by
  induction commands generalizing state with
  | nil =>
      change shots (step rates state next deltaTime :: []) = _
      exact shots_cons ..
  | cons command rest ih =>
      rw [List.cons_append, ticks, shots_cons, ticks, shots_cons, ih]
      rw [Nat.add_right_comm]
      rfl

theorem neg_le_cooldown_run (hdelta : 0 ≤ deltaTime) {state : Times ℚ}
    (hstate : -deltaTime ≤ state.cooldown) (commands : List Command) :
    -deltaTime ≤ (run rates deltaTime state commands).cooldown := by
  induction commands using List.reverseRecOn with
  | nil => exact hstate
  | append_singleton earlier next _ =>
      rw [run_append]
      exact neg_le_cooldown_step rates hdelta _ next

theorem rounds_le_run (commands : List Command) :
    (run rates deltaTime (loaded rates) commands).rounds ≤ rates.magazineCapacity := by
  induction commands using List.reverseRecOn with
  | nil => exact UInt8.le_refl _
  | append_singleton earlier next ih =>
      rw [run_append]
      generalize run rates deltaTime (loaded rates) earlier = before at ih
      change (if (reloaded rates before next deltaTime).2 then rates.magazineCapacity
        else if fires rates before next then before.rounds - 1 else before.rounds) ≤ _
      split
      · exact UInt8.le_refl _
      · split
        · next hfires =>
            simp only [fires, trigger, Bool.and_eq_true, decide_eq_true_eq] at hfires
            have hone : (1 : UInt8) ≤ before.rounds :=
              UInt8.le_iff_toNat_le.mpr (UInt8.lt_iff_toNat_lt.mp hfires.1.1.2)
            rw [UInt8.le_iff_toNat_le, UInt8.toNat_sub_of_le _ _ hone]
            exact le_trans (Nat.sub_le _ _) (UInt8.le_iff_toNat_le.mp ih)
        · exact ih

/-- A step takes no round but the one it fires. -/
theorem rounds_le_step {state : Times ℚ} (hrounds : state.rounds ≤ rates.magazineCapacity)
    (command : Command) : state.rounds.toNat ≤
      (step rates state command deltaTime).state.rounds.toNat +
        if (step rates state command deltaTime).fired then 1 else 0 := by
  change _ ≤ (if (reloaded rates state command deltaTime).2 then rates.magazineCapacity
    else if fires rates state command then state.rounds - 1 else state.rounds).toNat +
      if fires rates state command = true then 1 else 0
  split
  · exact le_trans (UInt8.le_iff_toNat_le.mp hrounds) (Nat.le_add_right _ _)
  · split
    · next hfires =>
        simp only [fires, trigger, Bool.and_eq_true, decide_eq_true_eq] at hfires
        have hone : (1 : UInt8) ≤ state.rounds :=
          UInt8.le_iff_toNat_le.mpr (UInt8.lt_iff_toNat_lt.mp hfires.1.1.2)
        have hnat : (1 : UInt8).toNat = 1 := rfl
        rw [UInt8.toNat_sub_of_le _ _ hone, hnat]
        omega
    · exact Nat.le_add_right _ _

/-! ### A burst -/

/-- The trigger is pulled on every tick: fire held, a round left and no reload. -/
def HeldThroughout (deltaTime : ℚ) (state : Times ℚ) (commands : List Command) : Prop :=
  ∀ earlier command later, commands = earlier ++ command :: later →
    trigger rates (run rates deltaTime state earlier) command = true

variable {rates} in
theorem HeldThroughout.init {state : Times ℚ} {commands : List Command} {next : Command}
    (h : HeldThroughout rates deltaTime state (commands ++ [next])) :
    HeldThroughout rates deltaTime state commands ∧
      trigger rates (run rates deltaTime state commands) next = true := by
  refine ⟨fun earlier command later hsplit => ?_, h commands next [] rfl⟩
  refine h earlier command (later ++ [next]) ?_
  rw [hsplit]
  simp

theorem tolerance_pos : 0 < tolerance := by
  have hunits : kReadyWithin.units = 13743895 * 2 ^ 112 := by decide
  rw [tolerance, Binary32.toRat, hunits]
  positivity

/-- Held, the trigger keeps exact account: an interval for each round, less the time that passed. -/
theorem cooldown_held (hdelta : 0 ≤ deltaTime) (hslow : deltaTime ≤ interval rates) {state : Times ℚ}
    (hready : state.cooldown = 0) (commands : List Command)
    (hheld : HeldThroughout rates deltaTime state commands) :
    (run rates deltaTime state commands).cooldown =
      shots (ticks rates deltaTime state commands) * interval rates - commands.length * deltaTime := by
  induction commands using List.reverseRecOn with
  | nil => simp [run, ticks, shots, hready]
  | append_singleton earlier next ih =>
      obtain ⟨hinit, htrigger⟩ := hheld.init
      have hbefore := ih hinit
      have hbank : -deltaTime ≤ (run rates deltaTime state earlier).cooldown :=
        neg_le_cooldown_run rates hdelta (by rw [hready]; linarith) earlier
      rw [run_append, shots_append, List.length_append, cooled_eq, htrigger, if_pos rfl]
      change max ((if fires rates (run rates deltaTime state earlier) next = true then _ else _) - _) _ =
        (_ + (if fires rates (run rates deltaTime state earlier) next = true then 1 else 0 : ℕ) : ℕ) *
          interval rates - _
      generalize run rates deltaTime state earlier = before at *
      by_cases hfires : fires rates before next = true
      · rw [if_pos hfires, if_pos hfires, max_eq_left (by linarith), hbefore]
        push_cast [List.length_singleton]
        ring
      · -- the round waits: more than the tolerance is left, so nothing is cut off
        have hwaits : tolerance < before.cooldown := by
          rw [fires, htrigger, Bool.true_and] at hfires
          exact not_le.mp (of_decide_eq_false (Bool.eq_false_iff.mpr hfires))
        have hpos := tolerance_pos
        rw [if_neg hfires, if_neg hfires, max_eq_left (by linarith), hbefore]
        push_cast [List.length_singleton]
        ring

/-- Held from ready, the trigger loses no round. -/
theorem floor_le_shots (hdelta : 0 < deltaTime) (hslow : deltaTime ≤ interval rates) {state : Times ℚ}
    (hready : state.cooldown = 0) (commands : List Command)
    (hheld : HeldThroughout rates deltaTime state commands) :
    ⌊((commands.length : ℚ) - 1) * deltaTime / interval rates⌋ + 1 ≤
      (shots (ticks rates deltaTime state commands) : ℤ) := by
  have hinterval : 0 < interval rates := lt_of_lt_of_le hdelta hslow
  have htick : deltaTime / interval rates ≤ 1 := (div_le_one hinterval).mpr hslow
  induction commands using List.reverseRecOn with
  | nil =>
      have hless : ⌊((0 : ℚ) - 1) * deltaTime / interval rates⌋ < 0 := by
        rw [Int.floor_lt, Int.cast_zero]
        exact div_neg_of_neg_of_pos (by linarith) hinterval
      rw [List.length_nil, Nat.cast_zero]
      exact Int.add_one_le_iff.mpr hless
  | append_singleton earlier next ih =>
      obtain ⟨hinit, htrigger⟩ := hheld.init
      have hbefore := ih hinit
      have hcooldown := cooldown_held rates hdelta.le hslow hready earlier hinit
      have hlength : (((earlier ++ [next]).length : ℚ) - 1) = earlier.length := by
        rw [List.length_append, List.length_singleton]
        push_cast
        ring
      rw [hlength, shots_append]
      generalize shots (ticks rates deltaTime state earlier) = shot at *
      generalize run rates deltaTime state earlier = before at *
      cases hfired : (step rates before next deltaTime).fired with
      | true =>
          -- one tick adds no more than one interval to the time
          have hsucc : (earlier.length : ℚ) * deltaTime / interval rates ≤
              ((earlier.length : ℚ) - 1) * deltaTime / interval rates + (1 : ℤ) := by
            have hsum : (earlier.length : ℚ) * deltaTime / interval rates =
                ((earlier.length : ℚ) - 1) * deltaTime / interval rates + deltaTime / interval rates := by
              ring
            rw [hsum, Int.cast_one]
            linarith
          have hfloor := Int.floor_le_floor hsucc
          rw [Int.floor_add_intCast] at hfloor
          rw [if_pos rfl]
          push_cast
          linarith
      | false =>
          have hwaits : tolerance < before.cooldown := by
            change fires rates before next = false at hfired
            rw [fires, htrigger, Bool.true_and] at hfired
            exact not_le.mp (of_decide_eq_false hfired)
          have hpos := tolerance_pos
          have hless : (earlier.length : ℚ) * deltaTime / interval rates < (shot : ℤ) := by
            rw [div_lt_iff₀ hinterval, Int.cast_natCast]
            linarith
          have hfloor := Int.floor_lt.mpr hless
          simp only [Bool.false_eq_true, if_false, Nat.add_zero]
          linarith

/-! ### The rate -/

/-- What of its rate a rifle keeps over any stretch of ticks. -/
structure RateKept (deltaTime : ℚ) : Prop where
  /-- A step takes one round at the most, and that only when it fires. -/
  one : ∀ earlier command, (run rates deltaTime (loaded rates) earlier).rounds.toNat ≤
    (step rates (run rates deltaTime (loaded rates) earlier) command deltaTime).state.rounds.toNat +
      if (step rates (run rates deltaTime (loaded rates) earlier) command deltaTime).fired then 1 else 0
  most : ∀ earlier commands,
    (shots (ticks rates deltaTime (run rates deltaTime (loaded rates) earlier) commands) - 1) *
      interval rates ≤ commands.length * deltaTime + tolerance
  least : deltaTime ≤ interval rates → ∀ (state : Times ℚ) (commands : List Command),
    state.cooldown = 0 → HeldThroughout rates deltaTime state commands →
      ⌊((commands.length : ℚ) - 1) * deltaTime / interval rates⌋ + 1 ≤
        (shots (ticks rates deltaTime state commands) : ℤ)

/-- CORRECT: whatever is commanded a rifle fires no faster than its rate, and held from ready it
    fires no slower. -/
theorem rate_kept (hrate : 0 < rates.roundsPerMinute) (hdelta : 0 < deltaTime) :
    RateKept rates deltaTime := by
  have hminute : (0 : ℚ) ≤ kSecondsPerMinute.toRat := by
    rw [Binary32.toRat, show kSecondsPerMinute.units = 60 * 2 ^ 149 by decide +kernel]
    positivity
  have hinterval : 0 ≤ interval rates := div_nonneg hminute hrate.le
  refine ⟨fun earlier command => rounds_le_step rates (rounds_le_run rates earlier) command, ?_,
    fun hslow state commands hready hheld => floor_le_shots rates hdelta hslow hready commands hheld⟩
  intro earlier commands
  have hbank : -deltaTime ≤ (run rates deltaTime (loaded rates) earlier).cooldown :=
    neg_le_cooldown_run rates hdelta.le (neg_nonpos.mpr hdelta.le) earlier
  generalize run rates deltaTime (loaded rates) earlier = state at hbank ⊢
  have hlength : (0 : ℚ) ≤ commands.length := by positivity
  have htime := mul_nonneg hlength hdelta.le
  have hpos := tolerance_pos
  rcases Nat.eq_zero_or_pos (shots (ticks rates deltaTime state commands)) with hnone | hsome
  · rw [hnone, Nat.cast_zero]
    linarith
  · have hmost := intervals_le rates hdelta.le commands state hsome
    linarith

/-- 650 rounds a minute at 60 Hz. -/
theorem rate_kept_rifle : RateKept ⟨650, 3, 30⟩ (1 / 60) :=
  rate_kept _ (by norm_num) (by norm_num)

end Augusta.Weapon.Times
