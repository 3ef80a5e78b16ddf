import Augusta.Assets.WireFormat
import Augusta.Lib.RoundedSteps
import Augusta.Physics.Counters

/-! Whether a body's counters keep pace with time.

      stance    255ths of a change, each tick's rounded             over at 255
      stamina   2⁻¹⁵ths of the whole, each tick's sum rounded       full at 2¹⁵, exhausted at 0

    They do where the steps keep up with what they are rounded from, and nowhere else: a tick's
    rounding is carried into every tick after it, and a step that rounds to nothing never gets
    there. -/

namespace Augusta.Physics.Counters
open Lib (Binary32 Timely KeepsUp DrainsInStep Fewest refilled drained emptied grain roundEven)

def kStaminaSteps : ℕ := 2 ^ 15

/-- Stamina as a body has it: some of the grid's steps, none over the whole. -/
def Held (state : Counters ℚ) : Prop :=
  ∃ count : ℕ, count ≤ kStaminaSteps ∧ state.stamina = count / kStaminaSteps

/-- So has every body on the wire's grids, its stamina no more than the whole of it. -/
theorem held_exactly {state : BodyState} (hgrid : onWireGrid state = state)
    (hwhole : state.stamina.le .one = true) : state.exactly.Held := by
  have hsnap : Math.snapStamina state.stamina = state.stamina := congrArg BodyState.stamina hgrid
  have hfinite : state.stamina.isFinite = true := by
    rw [← hsnap]
    exact Math.snap_isFinite _ _
  have hvalue : state.stamina.toRat =
      Math.toSteps state.stamina Math.kStaminaGrid / 2 ^ 15 := by
    rw [← toRat_snapStamina, hsnap]
  obtain ⟨hleast, -⟩ := Math.toSteps_mem state.stamina Math.kStaminaGrid
  obtain ⟨count, hcount⟩ := Int.eq_ofNat_of_zero_le hleast
  rw [hcount, Int.cast_natCast] at hvalue
  refine ⟨count, ?_, ?_⟩
  · have hone : Binary32.one.toRat = 1 := by decide +kernel
    rw [Binary32.le_iff_toRat hfinite rfl, hone, hvalue, div_le_one (by positivity)] at hwhole
    exact_mod_cast hwhole
  · rw [BodyState.exactly, hvalue, kStaminaSteps]
    norm_num

section
variable (rules : StaminaRules ℚ) (transitions : Transitions ℚ) (deltaTime : ℚ)

/-- How many 255ths of a change of `duration` a tick takes, before they are rounded. -/
def stanceStep (duration : ℚ) : ℚ := deltaTime / duration * 255

/-- How many of stamina's steps a tick takes at `perSecond`, before they are rounded. -/
def staminaStep (perSecond : ℚ) : ℚ := perSecond * deltaTime * kStaminaSteps

/-- How many ticks a change to `target` has to go: what is left of one that turns round, all of
    another. -/
def changeTicks (start : Counters ℚ) (target : Stance) : ℚ :=
  (if target = start.previousStance then (start.stanceProgress.toNat : ℚ) / 255 else 1) *
    transitionDuration transitions start.stance target / deltaTime

/-- A change of stance then left alone is over within a tick of its duration, a body that rests has
    all its stamina within one of the time its rate gives, exhausted no longer, and one that
    sprints is exhausted within one. -/
structure KeepsPace : Prop where
  changes (start : Counters ℚ) (asked : ℕ → Asked) (target : Stance) (new : target ≠ start.stance)
    (fits : (asked 0).fits = true) (left : ∀ n, (asked n).desiredStance = target) :
    Timely (fun n =>
        let state := after rules transitions deltaTime start asked n
        state.stance = target ∧ state.stanceProgress = kStanceProgressSteps)
      (changeTicks transitions deltaTime start target)
  regains (start : Counters ℚ) (asked : ℕ → Asked) (held : start.Held)
    (rests : ∀ n, (spent rules deltaTime (after rules transitions deltaTime start asked n)
      (asked n)).sprinting = false) :
    let ticks := (1 - start.stamina) / rules.regenPerSecond / deltaTime
    Timely (fun n => (after rules transitions deltaTime start asked n).stamina = 1) ticks ∧
      ∃ n : ℕ, n ≤ ticks + 1 ∧
        ∀ m ≥ n, (after rules transitions deltaTime start asked m).exhausted = false
  tires (start : Counters ℚ) (asked : ℕ → Asked) (held : start.Held)
    (fresh : start.exhausted = false)
    (sprints : ∀ n, (after rules transitions deltaTime start asked n).exhausted = false →
      (spent rules deltaTime (after rules transitions deltaTime start asked n)
        (asked n)).sprinting = true) :
    Timely (fun n => (after rules transitions deltaTime start asked n).exhausted = true)
      (start.stamina / rules.depletePerSecond / deltaTime)

/-- A change of `duration` keeps up: 255 steps of what its own rounds to. -/
def ChangesInStep (duration : ℚ) : Prop :=
  let step := stanceStep deltaTime duration
  KeepsUp 255 1 (Amount.roundAway step).toNat step

/-- Every counter's rounded step keeps up with the step it is rounded from. -/
structure InStep : Prop where
  standingCrouching : ChangesInStep deltaTime transitions.standingCrouching
  standingProne : ChangesInStep deltaTime transitions.standingProne
  crouchingProne : ChangesInStep deltaTime transitions.crouchingProne
  regains :
    let step := staminaStep deltaTime rules.regenPerSecond
    KeepsUp kStaminaSteps (grain step) (roundEven step).toNat step
  tires :
    let step := staminaStep deltaTime rules.depletePerSecond
    DrainsInStep kStaminaSteps (grain step) (roundEven step).toNat step

end

/-! ### Changes of stance -/

theorem roundAway_nonneg {x : ℚ} (hx : 0 ≤ x) : Amount.roundAway x = ⌊x + 1 / 2⌋ :=
  if_neg (not_lt.mpr hx)

/-- The rounded step is within a half of the step. -/
theorem toNat_roundAway_near {x : ℚ} (hx : 0 ≤ x) :
    ((Amount.roundAway x).toNat : ℚ) ≤ x + 1 / 2 ∧ x < (Amount.roundAway x).toNat + 1 / 2 := by
  have hnonneg : 0 ≤ ⌊x + 1 / 2⌋ := Int.floor_nonneg.mpr (by linarith)
  have hcast : ((Amount.roundAway x).toNat : ℚ) = (⌊x + 1 / 2⌋ : ℤ) := by
    rw [roundAway_nonneg hx, ← Int.cast_natCast, Int.toNat_of_nonneg hnonneg]
  rw [hcast]
  have hlow := Int.floor_le (x + 1 / 2)
  have hhigh := Int.lt_floor_add_one (x + 1 / 2)
  constructor <;> linarith

section
variable {rules : StaminaRules ℚ} {transitions : Transitions ℚ} {deltaTime : ℚ}

theorem toNat_advanceStanceProgress {duration : ℚ} (htime : 0 < deltaTime) (hduration : 0 < duration)
    (progress : UInt8) :
    (advanceStanceProgress progress deltaTime duration).toNat =
      min (progress.toNat + (Amount.roundAway (stanceStep deltaTime duration)).toNat) 255 := by
  have hstep : (0 : ℚ) ≤ stanceStep deltaTime duration := by
    rw [stanceStep]
    positivity
  have hnonneg : 0 ≤ Amount.roundAway (stanceStep deltaTime duration) := by
    rw [roundAway_nonneg hstep]
    exact Int.floor_nonneg.mpr (by linarith)
  have hlasts : Amount.lt 0 duration = true := decide_eq_true hduration
  have hsame : deltaTime / duration * (Amount.ofInt kStanceProgressSteps.toNat : ℚ) =
      stanceStep deltaTime duration := rfl
  have hall : kStanceProgressSteps.toNat = 255 := rfl
  rw [advanceStanceProgress, if_neg (not_not.mpr hlasts), hsame, hall]
  generalize Amount.roundAway (stanceStep deltaTime duration) = steps at hnonneg ⊢
  rw [UInt8.ofInt, UInt8.toNat_ofNat']
  omega

/-- How far a change has gone as it starts. -/
def startsAt (start : Counters ℚ) (target : Stance) : ℕ :=
  if target = start.previousStance then 255 - start.stanceProgress.toNat else 0

theorem toNat_turned (progress : UInt8) :
    (kStanceProgressSteps - progress).toNat = 255 - progress.toNat := by
  have hle : progress ≤ kStanceProgressSteps := by
    rw [UInt8.le_iff_toNat_le]
    have := progress.toNat_lt
    have hall : kStanceProgressSteps.toNat = 255 := rfl
    omega
  rw [UInt8.toNat_sub_of_le _ _ hle]
  rfl

theorem changeStance_stays {state : Counters ℚ} {asked : Asked}
    (h : asked.desiredStance = state.stance) : state.changeStance asked = state :=
  if_neg fun hchanges => hchanges.1 h

/-- While a change is left alone, every tick takes it one rounded step further. -/
theorem after_changing (htime : 0 < deltaTime) {start : Counters ℚ} {target : Stance}
    (hduration : 0 < transitionDuration transitions start.stance target) {asked : ℕ → Asked}
    (hnew : target ≠ start.stance) (hfits : (asked 0).fits = true)
    (hleft : ∀ n, (asked n).desiredStance = target) (n : ℕ) :
    let state := after rules transitions deltaTime start asked (n + 1)
    state.stance = target ∧ state.previousStance = start.stance ∧
      state.stanceProgress.toNat = min (startsAt start target + (n + 1) *
        (Amount.roundAway (stanceStep deltaTime
          (transitionDuration transitions start.stance target))).toNat) 255 := by
  induction n with
  | zero =>
    have hchanges : target ≠ start.stance ∧ (asked 0).fits = true := ⟨hnew, hfits⟩
    have hstarts : (if target = start.previousStance then
        kStanceProgressSteps - start.stanceProgress else 0).toNat = startsAt start target := by
      rw [startsAt]
      split_ifs
      · exact toNat_turned _
      · rfl
    simp only [after, step, changeStance, hleft 0, if_pos hchanges]
    refine ⟨trivial, trivial, ?_⟩
    rw [toNat_advanceStanceProgress htime hduration, hstarts, zero_add, one_mul]
  | succ n ih =>
    obtain ⟨hstance, hprevious, hprogress⟩ := ih
    generalize hstate : after rules transitions deltaTime start asked (n + 1) = state at *
    have hstays : changeStance state (asked (n + 1)) = state :=
      changeStance_stays (by rw [hleft, hstance])
    rw [after, hstate]
    simp only [step, hstays, hstance, hprevious]
    refine ⟨trivial, trivial, ?_⟩
    rw [toNat_advanceStanceProgress htime hduration, hprogress]
    have hsucc : ∀ k : ℕ, (n + 1 + 1) * k = (n + 1) * k + k := fun k => by ring
    rw [hsucc]
    omega

/-- A change is over once its steps have covered what it had to go. -/
theorem change_over (htime : 0 < deltaTime) {start : Counters ℚ} {target : Stance}
    (hduration : 0 < transitionDuration transitions start.stance target) {asked : ℕ → Asked}
    (hnew : target ≠ start.stance) (hfits : (asked 0).fits = true)
    (hleft : ∀ n, (asked n).desiredStance = target) (n : ℕ) :
    ((after rules transitions deltaTime start asked n).stance = target ∧
        (after rules transitions deltaTime start asked n).stanceProgress = kStanceProgressSteps) ↔
      0 < n ∧ 255 - startsAt start target ≤ n * (Amount.roundAway (stanceStep deltaTime
        (transitionDuration transitions start.stance target))).toNat := by
  rcases n with - | n
  · simp only [after, lt_irrefl, false_and, iff_false]
    exact fun h => hnew h.1.symm
  · obtain ⟨hstance, -, hprogress⟩ := @after_changing rules _ _ htime _ _ hduration _ hnew hfits
      hleft n
    have hall : kStanceProgressSteps.toNat = 255 := rfl
    rw [← UInt8.toNat_inj, hprogress, hall]
    simp only [hstance, true_and, Nat.zero_lt_succ]
    omega

theorem stanceStep_pos (htime : 0 < deltaTime) {duration : ℚ} (hduration : 0 < duration) :
    0 < stanceStep deltaTime duration := by
  rw [stanceStep]
  positivity

theorem changeTicks_eq (htime : 0 < deltaTime) {start : Counters ℚ} {target : Stance}
    (hduration : 0 < transitionDuration transitions start.stance target) :
    changeTicks transitions deltaTime start target = (255 - startsAt start target : ℕ) /
      stanceStep deltaTime (transitionDuration transitions start.stance target) := by
  rw [changeTicks, startsAt, stanceStep]
  have hprogress : 255 - (255 - start.stanceProgress.toNat) = start.stanceProgress.toNat := by
    have := start.stanceProgress.toNat_lt
    omega
  split_ifs
  · rw [hprogress]
    field_simp
  · norm_num
    field_simp

/-- Where its duration's steps keep up, a change is over in time. -/
theorem changes_timely (htime : 0 < deltaTime) {start : Counters ℚ} {target : Stance}
    (hduration : 0 < transitionDuration transitions start.stance target)
    (hkeeps : ChangesInStep deltaTime (transitionDuration transitions start.stance target))
    {asked : ℕ → Asked} (hnew : target ≠ start.stance) (hfits : (asked 0).fits = true)
    (hleft : ∀ n, (asked n).desiredStance = target) :
    Timely (fun n =>
        let state := after rules transitions deltaTime start asked n
        state.stance = target ∧ state.stanceProgress = kStanceProgressSteps)
      (changeTicks transitions deltaTime start target) := by
  have hpos := stanceStep_pos htime hduration
  have hover := @change_over rules _ _ htime _ _ hduration _ hnew hfits hleft
  rw [changeTicks_eq htime hduration]
  have hin : 255 - startsAt start target ≤ 255 := Nat.sub_le _ _
  generalize 255 - startsAt start target = R at *
  obtain ⟨hhigh, -⟩ := toNat_roundAway_near hpos.le
  rcases Nat.eq_zero_or_pos R with rfl | hsome
  · refine ⟨1, ⟨(hover 1).mpr (by omega), fun n hn => ((hover n).mp hn).1⟩, ?_⟩
    norm_num
  · obtain ⟨n, hn⟩ := Lib.exists_fewest R hkeeps.moves
    refine ⟨n, hn.isLeast fun m => ?_,
      hn.near hkeeps hpos (by linarith) hin fun _ => ⟨one_dvd R, one_dvd _⟩⟩
    rw [hover m]
    constructor
    · exact And.right
    · intro hcovers
      refine ⟨Nat.pos_of_ne_zero ?_, hcovers⟩
      rintro rfl
      omega

/-- A body part of the way from `target`, told to turn round. -/
def turning (stance target : Stance) (left : ℕ) : Counters ℚ where
  stance
  previousStance := target
  stanceProgress := .ofNat left
  stamina := 1
  exhausted := false

/-- A player that wants `target` and does nothing else. -/
def wanting (target : Stance) (_ : ℕ) : Asked where
  desiredStance := target
  fits := true
  sprint := false
  moving := false

/-- Where every change between two stances is over in time, its duration's steps keep up. -/
theorem ChangesInStep.of_timely (htime : 0 < deltaTime) {source target : Stance}
    (hnew : target ≠ source) (hduration : 0 < transitionDuration transitions source target)
    (h : ∀ left : ℕ, Timely (fun n =>
        let state := after rules transitions deltaTime (turning source target left)
          (wanting target) n
        state.stance = target ∧ state.stanceProgress = kStanceProgressSteps)
      (changeTicks transitions deltaTime (turning source target left) target)) :
    ChangesInStep deltaTime (transitionDuration transitions source target) := by
  have hpos := stanceStep_pos htime hduration
  have hleft : ∀ R ≤ 255, 255 - startsAt (turning source target R) target = R := by
    intro R hR
    rw [startsAt, turning, if_pos rfl]
    change 255 - (255 - (UInt8.ofNat R).toNat) = R
    rw [UInt8.toNat_ofNat_of_lt' (by simpa [UInt8.size] using Nat.lt_succ_of_le hR)]
    omega
  have hover := fun R : ℕ => @change_over rules transitions deltaTime htime
    (turning source target R) target hduration (wanting target) hnew rfl fun _ => rfl
  have hmoves : 0 < (Amount.roundAway (stanceStep deltaTime
      (transitionDuration transitions source target))).toNat := by
    by_contra hstill
    refine Lib.not_timely (fun n hn => ?_) _ (h 255)
    have hcovers := ((hover 255 n).mp hn).2
    rw [hleft 255 (le_refl 255)] at hcovers
    have hzero := Nat.eq_zero_of_not_pos hstill
    rw [turning, hzero] at hcovers
    omega
  refine KeepsUp.of_near hmoves hpos one_pos (by norm_num) (one_dvd _) fun R n hR _ hn => ?_
  rcases Nat.eq_zero_or_pos R with rfl | hsome
  · have hnone : n = 0 := Nat.le_zero.mp (hn.2 (Nat.zero_le _))
    rw [hnone]
    norm_num
  · have htimely := h R
    rw [changeTicks_eq htime hduration, hleft R hR] at htimely
    refine (Lib.timely_iff (hn.isLeast fun m => ?_)).mp htimely
    rw [hover R m, hleft R hR]
    constructor
    · exact And.right
    · intro hcovers
      refine ⟨Nat.pos_of_ne_zero ?_, hcovers⟩
      rintro rfl
      omega

/-! ### Stamina -/

@[simp] theorem changeStance_stamina (state : Counters ℚ) (asked : Asked) :
    (state.changeStance asked).stamina = state.stamina := by
  rw [changeStance]
  split <;> rfl

@[simp] theorem changeStance_exhausted (state : Counters ℚ) (asked : Asked) :
    (state.changeStance asked).exhausted = state.exhausted := by
  rw [changeStance]
  split <;> rfl

theorem spent_resting {state : Counters ℚ} {asked : Asked}
    (h : (spent rules deltaTime state asked).sprinting = false) :
    spent rules deltaTime state asked =
      let stamina := min 1 (state.stamina + rules.regenPerSecond * deltaTime)
      { sprinting := false
        stamina
        exhausted := if state.exhausted then stamina ≤ rules.forcedWalkBelow else stamina ≤ 0 } := by
  simp only [spent, resolveStamina, changeStance_stamina, changeStance_exhausted] at h ⊢
  simp only [h, Bool.false_eq_true, if_false]
  cases state.exhausted <;> rfl

theorem spent_sprinting {state : Counters ℚ} {asked : Asked}
    (h : (spent rules deltaTime state asked).sprinting = true) :
    spent rules deltaTime state asked =
      let stamina := max 0 (state.stamina - rules.depletePerSecond * deltaTime)
      { sprinting := true
        stamina
        exhausted := stamina ≤ 0 } := by
  simp only [spent, resolveStamina, changeStance_stamina, changeStance_exhausted] at h ⊢
  have hfresh : state.exhausted = false := by
    rw [Bool.and_eq_true, Bool.not_eq_true'] at h
    exact h.2
  simp only [h, if_true]
  rw [hfresh]
  rfl

theorem kStaminaSteps_pos : (0 : ℚ) < kStaminaSteps := by
  rw [kStaminaSteps]
  norm_num

theorem grain_dvd_kStaminaSteps (step : ℚ) : grain step ∣ kStaminaSteps := by
  rw [grain, kStaminaSteps]
  split_ifs <;> norm_num

theorem exactSnap_min {count : ℤ} (hcount : 0 ≤ count) {gained : ℚ} (hgained : 0 ≤ gained) :
    Math.exactSnap (min 1 (count / kStaminaSteps + gained)) Math.kStaminaGrid =
      (refilled kStaminaSteps (gained * kStaminaSteps) count : ℚ) / kStaminaSteps := by
  have hsteps : ((2 : ℚ) ^ Math.kStaminaGrid.shift) = kStaminaSteps := by
    rw [kStaminaSteps]
    norm_num [Math.kStaminaGrid]
  have hscaled : min 1 (count / kStaminaSteps + gained) * (kStaminaSteps : ℚ) =
      min (((kStaminaSteps : ℕ) : ℤ) : ℚ) (count + gained * kStaminaSteps) := by
    rw [min_mul_of_nonneg _ _ kStaminaSteps_pos.le, one_mul, add_mul,
      div_mul_cancel₀ _ kStaminaSteps_pos.ne', Int.cast_natCast]
  have hmem := Lib.refilled_mem (N := kStaminaSteps)
    (mul_nonneg hgained kStaminaSteps_pos.le) hcount
  have hgrid : Math.exactSteps (min 1 (count / kStaminaSteps + gained)) Math.kStaminaGrid =
      refilled kStaminaSteps (gained * kStaminaSteps) count := by
    rw [Math.exactSteps, hsteps, hscaled, Lib.roundEven_min, ← refilled]
    simp only [Math.kStaminaGrid, kStaminaSteps] at hmem ⊢
    omega
  rw [Math.exactSnap, hgrid, hsteps]

theorem exactSnap_max {count : ℤ} (hcount : count ≤ kStaminaSteps) {lost : ℚ} (hlost : 0 ≤ lost)
    (hmore : lost * kStaminaSteps ≤ count) :
    Math.exactSnap (max 0 (count / kStaminaSteps - lost)) Math.kStaminaGrid =
      (drained (lost * kStaminaSteps) count : ℚ) / kStaminaSteps := by
  have hsteps : ((2 : ℚ) ^ Math.kStaminaGrid.shift) = kStaminaSteps := by
    rw [kStaminaSteps]
    norm_num [Math.kStaminaGrid]
  have hleft : max 0 ((count : ℚ) / kStaminaSteps - lost) = count / kStaminaSteps - lost := by
    refine max_eq_right ?_
    rw [sub_nonneg, le_div_iff₀ kStaminaSteps_pos]
    exact hmore
  have hscaled : ((count : ℚ) / kStaminaSteps - lost) * kStaminaSteps =
      count - lost * kStaminaSteps := by
    rw [sub_mul, div_mul_cancel₀ _ kStaminaSteps_pos.ne']
  have hmem := Lib.drained_mem (mul_nonneg hlost kStaminaSteps_pos.le) hmore
  have hgrid : Math.exactSteps (max 0 (count / kStaminaSteps - lost)) Math.kStaminaGrid =
      drained (lost * kStaminaSteps) count := by
    rw [Math.exactSteps, hleft, hsteps, hscaled, ← drained]
    simp only [Math.kStaminaGrid, kStaminaSteps] at hmem hcount ⊢
    omega
  rw [Math.exactSnap, hgrid, hsteps]

/-- What is left to the whole, counted. -/
theorem one_sub_div (count : ℚ) :
    1 - count / kStaminaSteps = (kStaminaSteps - count) / kStaminaSteps := by
  rw [sub_div, div_self kStaminaSteps_pos.ne']

theorem staminaStep_pos (htime : 0 < deltaTime) {perSecond : ℚ} (hrate : 0 < perSecond) :
    0 < staminaStep deltaTime perSecond :=
  mul_pos (mul_pos hrate htime) kStaminaSteps_pos

/-- How many of stamina's steps a time at a rate is. -/
theorem steps_div (perSecond part : ℚ) :
    part / kStaminaSteps / perSecond / deltaTime = part / staminaStep deltaTime perSecond := by
  rw [staminaStep, div_div, div_div]
  congr 1
  ring

/-! ### A body that rests -/

section
variable (htime : 0 < deltaTime) (hrate : 0 < rules.regenPerSecond) {start : Counters ℚ}
  {asked : ℕ → Asked} {count : ℕ} (hcount : count ≤ kStaminaSteps) (hstart : start.stamina = count / kStaminaSteps)
  (hrests : ∀ n, (spent rules deltaTime (after rules transitions deltaTime start asked n)
    (asked n)).sprinting = false)
include htime hrate hcount hstart hrests

theorem after_resting (n : ℕ) : (after rules transitions deltaTime start asked n).stamina =
    ((refilled kStaminaSteps (staminaStep deltaTime rules.regenPerSecond))^[n] (count : ℤ) : ℚ) /
      kStaminaSteps := by
  induction n with
  | zero => simpa only [after, Function.iterate_zero, id_eq, Int.cast_natCast] using hstart
  | succ n ih =>
    have hmem := Lib.refilled_iterate_mem (staminaStep_pos htime hrate).le
      (Int.natCast_nonneg count) (Int.ofNat_le.mpr hcount) n
    rw [Function.iterate_succ_apply']
    simp only [after, step, spent_resting (hrests n), ih]
    exact exactSnap_min hmem.1 (mul_pos hrate htime).le

theorem after_full (n : ℕ) : (after rules transitions deltaTime start asked n).stamina = 1 ↔
    (refilled kStaminaSteps (staminaStep deltaTime rules.regenPerSecond))^[n] (count : ℤ) =
      kStaminaSteps := by
  rw [after_resting htime hrate hcount hstart hrests, div_eq_one_iff_eq kStaminaSteps_pos.ne']
  exact_mod_cast Iff.rfl

/-- A tick of rest exhausts no one. -/
theorem fresh_kept {n : ℕ}
    (hfresh : (after rules transitions deltaTime start asked n).exhausted = false) :
    (after rules transitions deltaTime start asked (n + 1)).exhausted = false := by
  have hmem := Lib.refilled_iterate_mem (staminaStep_pos htime hrate).le
    (Int.natCast_nonneg count) (Int.ofNat_le.mpr hcount) n
  have hheld : (0 : ℚ) ≤ (after rules transitions deltaTime start asked n).stamina := by
    rw [after_resting htime hrate hcount hstart hrests]
    have : (0 : ℚ) ≤ ((refilled kStaminaSteps (staminaStep deltaTime
        rules.regenPerSecond))^[n] (count : ℤ) : ℤ) := Int.cast_nonneg hmem.1
    have := kStaminaSteps_pos
    positivity
  have hgained := mul_pos hrate htime
  simp only [after, step, spent_resting (hrests n), hfresh, Bool.false_eq_true, if_false,
    decide_eq_false_iff_not, not_le]
  exact lt_min one_pos (by linarith)

/-- The tick whose exact sum is all of it ends exhaustion. -/
theorem fresh_of_whole {n : ℕ} (hforced : rules.forcedWalkBelow < 1)
    (hwhole : (kStaminaSteps : ℚ) ≤ ((refilled kStaminaSteps (staminaStep deltaTime
      rules.regenPerSecond))^[n] (count : ℤ) : ℤ) + staminaStep deltaTime rules.regenPerSecond) :
    (after rules transitions deltaTime start asked (n + 1)).exhausted = false := by
  have hsum : 1 ≤ (after rules transitions deltaTime start asked n).stamina +
      rules.regenPerSecond * deltaTime := by
    rw [after_resting htime hrate hcount hstart hrests]
    have hgained : rules.regenPerSecond * deltaTime =
        staminaStep deltaTime rules.regenPerSecond / kStaminaSteps := by
      rw [staminaStep, mul_div_cancel_right₀ _ kStaminaSteps_pos.ne']
    rw [hgained, ← add_div, le_div_iff₀ kStaminaSteps_pos, one_mul]
    exact hwhole
  simp only [after, step, spent_resting (hrests n), min_eq_left hsum]
  split
  · exact decide_eq_false (not_le.mpr hforced)
  · exact decide_eq_false (by norm_num)

/-- Where its steps keep up, a body that rests has all its stamina in time, and is exhausted no
    longer. -/
theorem rest_timely (hforced : rules.forcedWalkBelow < 1)
    (hkeeps :
      let step := staminaStep deltaTime rules.regenPerSecond
      KeepsUp kStaminaSteps (grain step) (roundEven step).toNat step) :
    let ticks := (1 - start.stamina) / rules.regenPerSecond / deltaTime
    Timely (fun n => (after rules transitions deltaTime start asked n).stamina = 1) ticks ∧
      ∃ n : ℕ, n ≤ ticks + 1 ∧
        ∀ m ≥ n, (after rules transitions deltaTime start asked m).exhausted = false := by
  have hpos := staminaStep_pos htime hrate
  have hgrain := grain_dvd_kStaminaSteps (staminaStep deltaTime rules.regenPerSecond)
  have hticks : (1 - start.stamina) / rules.regenPerSecond / deltaTime =
      (kStaminaSteps - count : ℕ) / staminaStep deltaTime rules.regenPerSecond := by
    rw [hstart, one_sub_div, steps_div, Nat.cast_sub hcount]
  have hfull := after_full htime hrate hcount hstart hrests
  have hkept : ∀ n, (after rules transitions deltaTime start asked n).exhausted = false →
      ∀ m ≥ n, (after rules transitions deltaTime start asked m).exhausted = false := by
    intro n hfresh m hm
    induction m, hm using Nat.le_induction with
    | base => exact hfresh
    | succ m _ ih => exact fresh_kept htime hrate hcount hstart hrests ih
  have hwhole := fun n => @fresh_of_whole rules transitions deltaTime htime hrate start asked count
    hcount hstart hrests n hforced
  obtain ⟨n, hleast, hnear⟩ := Lib.refill_timely hpos hgrain hkeeps hcount
  simp only [hticks]
  refine ⟨⟨n, ?_, hnear⟩, ?_⟩
  · simpa only [hfull] using hleast
  have hin : (refilled kStaminaSteps (staminaStep deltaTime rules.regenPerSecond))^[n] (count : ℤ) =
      kStaminaSteps := hleast.1
  -- the tick after the one it is full on ends exhaustion at the latest
  have hnext := hkept (n + 1) (hwhole n (by rw [hin, Int.cast_natCast]; linarith))
  rcases n with - | n
  · refine ⟨1, ?_, hnext⟩
    have : (0 : ℚ) ≤ (kStaminaSteps - count : ℕ) / staminaStep deltaTime rules.regenPerSecond := by
      positivity
    push_cast
    linarith
  · by_cases hsum : (kStaminaSteps : ℚ) ≤ ((refilled kStaminaSteps (staminaStep deltaTime
        rules.regenPerSecond))^[n] (count : ℤ) : ℤ) + staminaStep deltaTime rules.regenPerSecond
    · refine ⟨n + 1, ?_, hkept (n + 1) (hwhole n hsum)⟩
      have := (abs_le.mp hnear).2
      linarith
    · refine ⟨n + 1 + 1, ?_, hnext⟩
      have hearly := Lib.refilled_early hpos hgrain hcount hin (not_le.mp hsum)
      rw [← le_div_iff₀ hpos] at hearly
      push_cast at hearly ⊢
      linarith

end
/-! ### A body that sprints -/

section
variable (htime : 0 < deltaTime) (hrate : 0 < rules.depletePerSecond) {start : Counters ℚ}
  {asked : ℕ → Asked} {count : ℕ} (hcount : count ≤ kStaminaSteps)
  (hstart : start.stamina = count / kStaminaSteps)
  (hsprints : ∀ n, (after rules transitions deltaTime start asked n).exhausted = false →
    (spent rules deltaTime (after rules transitions deltaTime start asked n)
      (asked n)).sprinting = true)
include htime hrate hcount hstart hsprints

omit htime hrate hcount hstart in
/-- As long as it is not exhausted, a tick exhausts it exactly when it has no more left than a tick
    takes. -/
theorem tired_iff {n : ℕ} {left : ℤ}
    (hfresh : (after rules transitions deltaTime start asked n).exhausted = false)
    (hleft : (after rules transitions deltaTime start asked n).stamina = left / kStaminaSteps) :
    (after rules transitions deltaTime start asked (n + 1)).exhausted = true ↔
      (left : ℚ) ≤ staminaStep deltaTime rules.depletePerSecond := by
  simp only [after, step, spent_sprinting (hsprints n hfresh), hleft, decide_eq_true_eq, max_le_iff,
    le_refl, true_and]
  rw [sub_nonpos, div_le_iff₀ kStaminaSteps_pos, staminaStep]

theorem after_sprinting (n : ℕ)
    (hfresh : ∀ m ≤ n, (after rules transitions deltaTime start asked m).exhausted = false) :
    let left := (drained (staminaStep deltaTime rules.depletePerSecond))^[n] (count : ℤ)
    (after rules transitions deltaTime start asked n).stamina = left / kStaminaSteps ∧
      left ≤ kStaminaSteps := by
  induction n with
  | zero =>
    simp only [after, Function.iterate_zero, id_eq, Int.cast_natCast]
    exact ⟨hstart, Int.ofNat_le.mpr hcount⟩
  | succ n ih =>
    obtain ⟨hleft, hmost⟩ := ih fun m hm => hfresh m (by omega)
    have hmore := (tired_iff hsprints (hfresh n (by omega)) hleft).not.mp
      (by rw [hfresh (n + 1) (le_refl _)]; exact Bool.false_ne_true)
    have hpos := staminaStep_pos htime hrate
    have hmem := Lib.drained_mem hpos.le (not_le.mp hmore).le
    simp only [Function.iterate_succ_apply']
    refine ⟨?_, le_trans hmem.2 hmost⟩
    simp only [after, step, spent_sprinting (hsprints n (hfresh n (by omega))), hleft]
    exact exactSnap_max hmost (mul_pos hrate htime).le (not_le.mp hmore).le

/-- Up to the tick that exhausts it, a body that sprints is emptied as its stamina's count is. -/
theorem tired_eq_emptied (hfirst : start.exhausted = false) (n : ℕ)
    (hbefore : ∀ m < n, ¬ (after rules transitions deltaTime start asked m).exhausted = true) :
    (after rules transitions deltaTime start asked n).exhausted = true ↔
      emptied (staminaStep deltaTime rules.depletePerSecond) count n := by
  rcases n with - | n
  · simp only [after, emptied, hfirst, Bool.false_eq_true]
  · have hfresh : ∀ m ≤ n, (after rules transitions deltaTime start asked m).exhausted = false :=
      fun m hm => Bool.eq_false_iff.mpr (hbefore m (Nat.lt_succ_of_le hm))
    obtain ⟨hleft, -⟩ := after_sprinting htime hrate hcount hstart hsprints n hfresh
    exact tired_iff hsprints (hfresh n (le_refl n)) hleft

theorem tired_timely_iff (hfirst : start.exhausted = false) :
    Timely (fun n => (after rules transitions deltaTime start asked n).exhausted = true)
        (start.stamina / rules.depletePerSecond / deltaTime) ↔
      Timely (emptied (staminaStep deltaTime rules.depletePerSecond) count)
        ((count : ℚ) / staminaStep deltaTime rules.depletePerSecond) := by
  rw [hstart, steps_div]
  exact Lib.timely_congr (tired_eq_emptied htime hrate hcount hstart hsprints hfirst) _

end

/-! ### Exactly when -/

/-- A body standing with some of its stamina left. -/
def standingWith (count : ℕ) : Counters ℚ where
  stance := .standing
  previousStance := .standing
  stanceProgress := kStanceProgressSteps
  stamina := count / kStaminaSteps
  exhausted := false

/-- A player that sprints. -/
def sprinting (_ : ℕ) : Asked where
  desiredStance := .standing
  fits := true
  sprint := true
  moving := true

theorem sprinting_stays {state : Counters ℚ} (h : state.stance = .standing) (n : ℕ) :
    state.changeStance (sprinting n) = state :=
  @changeStance_stays state (sprinting n) h.symm

/-- What a pack's durations and a Match's stamina rules are to the counters. -/
structure Positive (rules : StaminaRules ℚ) (transitions : Transitions ℚ) (deltaTime : ℚ) :
    Prop where
  deltaTime : 0 < deltaTime
  standingCrouching : 0 < transitions.standingCrouching
  standingProne : 0 < transitions.standingProne
  crouchingProne : 0 < transitions.crouchingProne
  depletes : 0 < rules.depletePerSecond
  regains : 0 < rules.regenPerSecond
  forced : rules.forcedWalkBelow < 1

theorem Positive.duration (h : Positive rules transitions deltaTime) {source target : Stance}
    (hnew : target ≠ source) : 0 < transitionDuration transitions source target := by
  have := h.standingCrouching
  have := h.standingProne
  have := h.crouchingProne
  cases source <;> cases target <;> simp_all [transitionDuration]

theorem InStep.changes (h : InStep rules transitions deltaTime) {source target : Stance}
    (hnew : target ≠ source) :
    ChangesInStep deltaTime (transitionDuration transitions source target) := by
  have := h.standingCrouching
  have := h.standingProne
  have := h.crouchingProne
  cases source <;> cases target <;> simp_all [transitionDuration]

/-- Where every step keeps up, so do the counters. -/
theorem keepsPace_of_inStep (hpositive : Positive rules transitions deltaTime)
    (h : InStep rules transitions deltaTime) : KeepsPace rules transitions deltaTime where
  changes start asked target hnew hfits hleft :=
    changes_timely hpositive.deltaTime (hpositive.duration hnew) (h.changes hnew) hnew hfits hleft
  regains start asked hheld hrests := by
    obtain ⟨count, hcount, hstart⟩ := hheld
    exact rest_timely hpositive.deltaTime hpositive.regains hcount hstart hrests hpositive.forced
      h.regains
  tires start asked hheld hfirst hsprints := by
    obtain ⟨count, hcount, hstart⟩ := hheld
    rw [tired_timely_iff hpositive.deltaTime hpositive.depletes hcount hstart hsprints hfirst]
    exact Lib.drain_timely (staminaStep_pos hpositive.deltaTime hpositive.depletes)
      (grain_dvd_kStaminaSteps _) h.tires hcount

/-- Where the counters do, so does every step. -/
theorem inStep_of_keepsPace (hpositive : Positive rules transitions deltaTime)
    (h : KeepsPace rules transitions deltaTime) : InStep rules transitions deltaTime := by
  have htime := hpositive.deltaTime
  have hchanges : ∀ {source target : Stance}, target ≠ source →
      ChangesInStep deltaTime (transitionDuration transitions source target) := by
    intro source target hnew
    exact .of_timely htime hnew (hpositive.duration hnew) fun left =>
      h.changes (turning source target left) (wanting target) target hnew rfl fun _ => rfl
  refine ⟨?_, ?_, ?_, ?_, ?_⟩
  · exact @hchanges .standing .crouching (by decide)
  · exact @hchanges .standing .prone (by decide)
  · exact @hchanges .crouching .prone (by decide)
  · have hpos := staminaStep_pos htime hpositive.regains
    refine .of_refill hpos (grain_dvd_kStaminaSteps _) (by rw [kStaminaSteps]; norm_num) ?_
    intro count hcount
    have hrests : ∀ n, (spent rules deltaTime (after rules transitions deltaTime
        (standingWith count) (wanting .standing) n) (wanting .standing n)).sprinting = false :=
      fun _ => rfl
    have htimely := (h.regains (standingWith count) (wanting .standing) ⟨count, hcount, rfl⟩
      hrests).1
    simp only [after_full htime hpositive.regains hcount rfl hrests] at htimely
    rwa [standingWith, one_sub_div, steps_div, ← Nat.cast_sub hcount] at htimely
  · have hpos := staminaStep_pos htime hpositive.depletes
    refine .of_drain hpos (grain_dvd_kStaminaSteps _) (by rw [kStaminaSteps]; norm_num) ?_
    intro count hcount
    have hstands : ∀ n, (after rules transitions deltaTime (standingWith count) sprinting n).stance =
        .standing := by
      intro n
      induction n with
      | zero => rfl
      | succ n ih =>
        simp only [after, step, sprinting_stays ih]
        exact ih
    have hsprints : ∀ n, (after rules transitions deltaTime (standingWith count) sprinting
        n).exhausted = false → (spent rules deltaTime (after rules transitions deltaTime
        (standingWith count) sprinting n) (sprinting n)).sprinting = true := by
      intro n hfresh
      simp only [spent, resolveStamina, sprinting_stays (hstands n), hstands, hfresh]
      rfl
    have htimely := h.tires (standingWith count) sprinting ⟨count, hcount, rfl⟩ rfl hsprints
    exact (tired_timely_iff htime hpositive.depletes hcount rfl hsprints rfl).mp htimely

end

/-- How long a tick is. -/
def tickSeconds (tickRateHz : UInt8) : ℚ := 1 / tickRateHz.toNat

theorem positive_of_valid {tickRateHz : UInt8} (hrate : Parameters.isValidTickRate tickRateHz = true)
    {transitions : StanceTransitions}
    (hcrouching : Assets.isValidTransitionDuration transitions.standingCrouching = true)
    (hprone : Assets.isValidTransitionDuration transitions.standingProne = true)
    (hlow : Assets.isValidTransitionDuration transitions.crouchingProne = true)
    {config : StaminaConfig} (hvalid : Parameters.validateStamina config = .ok ())
    (hdepletes : Binary32.zero.lt config.depletePerSecond = true)
    (hregains : Binary32.zero.lt config.regenPerSecond = true) :
    Positive config.exactly transitions.exactly (tickSeconds tickRateHz) := by
  have hzero : Binary32.zero.isFinite = true := rfl
  have hzeroRat : Binary32.zero.toRat = 0 := by decide +kernel
  have habove : ∀ {x : Binary32}, x.isFinite = true → Binary32.zero.lt x = true → 0 < x.toRat := by
    intro x hfinite hlt
    rwa [Binary32.lt_iff_toRat hzero hfinite, hzeroRat] at hlt
  have hduration : ∀ {x : Binary32}, Assets.isValidTransitionDuration x = true → 0 < x.toRat := by
    intro x hx
    rw [Assets.isValidTransitionDuration, Bool.and_eq_true] at hx
    exact habove hx.1 hx.2
  obtain ⟨hdeplete, hregen, hforced⟩ := Parameters.validateStamina_eq_ok.mp hvalid
  rw [Parameters.finiteAndAtLeast, Bool.and_eq_true] at hdeplete hregen
  rw [Parameters.finiteAndAtLeast, Bool.and_eq_true, Bool.and_eq_true,
    Bool.not_eq_true'] at hforced
  obtain ⟨⟨hfinite, -⟩, hbelow⟩ := hforced
  have hone : Binary32.one.toRat = 1 := by decide +kernel
  have hwhole : ¬ Binary32.one.toRat ≤ config.forcedWalkBelow.toRat := by
    rw [← Binary32.le_iff_toRat rfl hfinite, hbelow]
    exact Bool.false_ne_true
  have hticks : (0 : ℚ) < tickRateHz.toNat := by
    have := UInt8.lt_iff_toNat_lt.mp (of_decide_eq_true hrate)
    exact_mod_cast this
  exact {
    deltaTime := one_div_pos.mpr hticks
    standingCrouching := hduration hcrouching
    standingProne := hduration hprone
    crouchingProne := hduration hlow
    depletes := habove hdeplete.1 hdepletes
    regains := habove hregen.1 hregains
    forced := by rwa [hone, not_le] at hwhole }

/-- CORRECT: at any tick rate, with any durations a pack may give and any stamina rules a Match may
    have, a body's counters keep pace with time if and only if the step of each keeps up with the
    one it is rounded from. -/
theorem keepsPace_iff {tickRateHz : UInt8} (hrate : Parameters.isValidTickRate tickRateHz = true)
    {transitions : StanceTransitions}
    (hcrouching : Assets.isValidTransitionDuration transitions.standingCrouching = true)
    (hprone : Assets.isValidTransitionDuration transitions.standingProne = true)
    (hlow : Assets.isValidTransitionDuration transitions.crouchingProne = true)
    {config : StaminaConfig} (hvalid : Parameters.validateStamina config = .ok ())
    (hdepletes : Binary32.zero.lt config.depletePerSecond = true)
    (hregains : Binary32.zero.lt config.regenPerSecond = true) :
    KeepsPace config.exactly transitions.exactly (tickSeconds tickRateHz) ↔
      InStep config.exactly transitions.exactly (tickSeconds tickRateHz) := by
  have hpositive := positive_of_valid hrate hcrouching hprone hlow hvalid hdepletes hregains
  exact ⟨inStep_of_keepsPace hpositive, keepsPace_of_inStep hpositive⟩

theorem changesInStep_of_whole {deltaTime duration : ℚ} {k : ℕ} (hk : 0 < k)
    (h : stanceStep deltaTime duration = k) : ChangesInStep deltaTime duration := by
  have hfloor : ⌊(k : ℚ) + 1 / 2⌋ = k := by
    rw [Int.floor_eq_iff, Int.cast_natCast]
    constructor <;> linarith
  simp only [ChangesInStep, h, roundAway_nonneg (Nat.cast_nonneg k), hfloor, Int.toNat_natCast]
  exact Lib.keepsUp_self hk

/-- Every change takes 17/64 s; an eighth of the stamina goes in a second and a quarter comes
    back. -/
def wholeSteps : StaminaConfig × StanceTransitions :=
  (⟨⟨0x3E000000⟩, ⟨0x3E800000⟩, ⟨0x3E800000⟩⟩,
    ⟨⟨0x3E880000⟩, ⟨0x3E880000⟩, ⟨0x3E880000⟩⟩)

/-- At 64 ticks a second each of these steps is a whole one. -/
theorem keepsPace_wholeSteps :
    KeepsPace wholeSteps.1.exactly wholeSteps.2.exactly (tickSeconds 64) := by
  refine (keepsPace_iff (by decide) (by decide +kernel) (by decide +kernel) (by decide +kernel)
    (by decide +kernel) (by decide +kernel) (by decide +kernel)).mpr ?_
  have hstance : ∀ duration : ℚ, duration = 17 / 64 →
      ChangesInStep (tickSeconds 64) duration := by
    rintro _ rfl
    refine @changesInStep_of_whole _ _ 15 (by norm_num) ?_
    rw [stanceStep, show tickSeconds 64 = 1 / 64 by decide +kernel]
    norm_num
  refine ⟨?_, ?_, ?_, ?_, ?_⟩
  · exact hstance _ (by decide +kernel)
  · exact hstance _ (by decide +kernel)
  · exact hstance _ (by decide +kernel)
  · have hstep : staminaStep (tickSeconds 64) wholeSteps.1.exactly.regenPerSecond = (128 : ℕ) := by
      decide +kernel
    simp only [hstep, Lib.roundEven_natCast, Int.toNat_natCast]
    exact Lib.keepsUp_self (by norm_num)
  · have hstep : staminaStep (tickSeconds 64) wholeSteps.1.exactly.depletePerSecond = (64 : ℕ) := by
      decide +kernel
    simp only [hstep, Lib.roundEven_natCast, Int.toNat_natCast]
    exact Lib.drainsInStep_self (by norm_num)

/-- The same rules, and 4 s between standing and crouching. -/
def slowCrouch : StaminaConfig × StanceTransitions :=
  (wholeSteps.1, { wholeSteps.2 with standingCrouching := ⟨0x40800000⟩ })

/-- At 128 ticks a second a tick's part of 4 s rounds to nothing: the change never ends. -/
theorem change_never_over :
    Parameters.isValidTickRate 128 = true ∧
      Assets.isValidTransitionDuration slowCrouch.2.standingCrouching = true ∧
      Assets.isValidTransitionDuration slowCrouch.2.standingProne = true ∧
      Assets.isValidTransitionDuration slowCrouch.2.crouchingProne = true ∧
      Parameters.validateStamina slowCrouch.1 = .ok () ∧
      Binary32.zero.lt slowCrouch.1.depletePerSecond = true ∧
      Binary32.zero.lt slowCrouch.1.regenPerSecond = true ∧
      ¬ KeepsPace slowCrouch.1.exactly slowCrouch.2.exactly (tickSeconds 128) := by
  refine ⟨by decide, by decide +kernel, by decide +kernel, by decide +kernel, by decide +kernel,
    by decide +kernel, by decide +kernel, fun hkeeps => ?_⟩
  have hpositive : Positive slowCrouch.1.exactly slowCrouch.2.exactly (tickSeconds 128) :=
    positive_of_valid (by decide) (by decide +kernel) (by decide +kernel) (by decide +kernel)
      (by decide +kernel) (by decide +kernel) (by decide +kernel)
  have hmoves := (inStep_of_keepsPace hpositive hkeeps).standingCrouching.moves
  have hstep : Amount.roundAway (stanceStep (tickSeconds 128)
      slowCrouch.2.exactly.standingCrouching) = 0 := by decide +kernel
  rw [hstep] at hmoves
  exact absurd hmoves (by decide)

end Augusta.Physics.Counters
