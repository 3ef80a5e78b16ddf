import Augusta.Gameplay.Weapon
import Augusta.Core.Parameters
import Augusta.Lib.Countdown

/-! The rounds of a rifle over any run of ticks: where they come from and where they go.

      Loaded ──▶ capacity ──fires──▶ one less ──fires──▶ … ──reload──▶ capacity ──▶ …

    A reload counts `reloadSeconds` down a tick at a time, whatever is commanded meanwhile. -/

namespace Augusta.Weapon
open Lib (Binary32)

/-- One tick of a rifle: how it was, what was commanded and what came of it. -/
structure RifleTick where
  before : State
  command : Command
  result : Result
  deriving DecidableEq, Repr

/-- The ticks of `commands` in turn, from `state` on. -/
def played (rifle : Rifle) (deltaTime : Binary32) : State → List Command → List RifleTick
  | _, [] => []
  | state, command :: rest =>
      let result := step rifle state command deltaTime
      ⟨state, command, result⟩ :: played rifle deltaTime result.state rest

namespace RifleTick
variable (rifle : Rifle) (tick : RifleTick)

/-- A reload is under way before the tick. -/
def underWay : Bool := Binary32.zero.lt tick.before.reloadRemaining

/-- One is asked for that is none of a full magazine or in another. -/
def begins : Bool :=
  tick.command.reload && tick.before.rounds < rifle.magazineCapacity && !tick.underWay

/-- A reload ends on it: only that gives rounds. -/
def completes : Bool := tick.before.rounds < tick.result.state.rounds

/-- What a tick does with the rounds. -/
inductive Does : Prop
  | keeps (rounds : tick.result.state.rounds = tick.before.rounds) (fired : tick.result.fired = false)
  | fires (fired : tick.result.fired = true)
      (held : 0 < tick.before.rounds.toNat)
      (rounds : tick.result.state.rounds.toNat + 1 = tick.before.rounds.toNat)
      (ready : tick.before.cooldown.le kReadyWithin = true)
      (none : tick.underWay = false ∧ tick.begins rifle = false)
  | completes (completes : tick.completes = true) (fired : tick.result.fired = false)
      (reload : tick.underWay = true ∨ tick.begins rifle = true)
      (rounds : tick.result.state.rounds = rifle.magazineCapacity)
      (ended : tick.result.state.reloadRemaining = .zero)

end RifleTick

/-! ### One tick -/

/-- All that a step does to the rounds, the Burst and the reload. -/
inductive Stepped (rifle : Rifle) (state : State) (command : Command) (deltaTime : Binary32)
    (result : Result) : Prop
  | fires (fired : result.fired = true) (held : 0 < state.rounds)
      (ready : state.cooldown.le kReadyWithin = true) (none : reloading rifle state command = false)
      (rounds : result.state.rounds = state.rounds - 1)
      (burst : result.state.burstIndex = state.burstIndex + 1)
      (reload : result.state.reloadRemaining = state.reloadRemaining)
  | waits (fired : result.fired = false) (none : reloading rifle state command = false)
      (rounds : result.state.rounds = state.rounds)
      (burst : result.state.burstIndex = state.burstIndex ∨ result.state.burstIndex = 0)
      (reload : result.state.reloadRemaining = state.reloadRemaining)
  | reloads (remaining : Binary32) (fired : result.fired = false)
      (under : reloading rifle state command = true)
      (from_ : remaining = if startsReload rifle state command then rifle.reloadSeconds
        else state.reloadRemaining)
      (left : (remaining.sub deltaTime).le kReadyWithin = false)
      (rounds : result.state.rounds = state.rounds) (burst : result.state.burstIndex = 0)
      (reload : result.state.reloadRemaining = remaining.sub deltaTime)
  | fills (remaining : Binary32) (fired : result.fired = false)
      (under : reloading rifle state command = true)
      (from_ : remaining = if startsReload rifle state command then rifle.reloadSeconds
        else state.reloadRemaining)
      (left : (remaining.sub deltaTime).le kReadyWithin = true)
      (rounds : result.state.rounds = rifle.magazineCapacity) (burst : result.state.burstIndex = 0)
      (reload : result.state.reloadRemaining = .zero)

theorem stepped (rifle : Rifle) (state : State) (command : Command) (deltaTime : Binary32) :
    Stepped rifle state command deltaTime (step rifle state command deltaTime) := by
  cases hreloading : reloading rifle state command with
  | false =>
      have hstarts : startsReload rifle state command = false := by
        rw [reloading, Bool.or_eq_false_iff] at hreloading
        exact hreloading.1
      have hreload : reloaded rifle state command deltaTime = (state.reloadRemaining, false) := by
        simp [reloaded, hreloading, hstarts]
      cases hfires : fires rifle state command with
      | true =>
          have htrigger := hfires
          simp only [fires, trigger, Bool.and_eq_true, decide_eq_true_eq] at htrigger
          obtain ⟨⟨⟨-, hheld⟩, -⟩, hready⟩ := htrigger
          refine .fires hfires hheld hready hreloading ?_ ?_ ?_
          · simp [step, hreload, hfires]
          · simp [step, hfires]
          · simp [step, hreload]
      | false =>
          refine .waits hfires hreloading ?_ ?_ ?_
          · simp [step, hreload, hfires]
          · by_cases htrigger : trigger rifle state command = true
            · exact .inl (by simp [step, hfires, htrigger])
            · exact .inr (by simp [step, hfires, htrigger])
          · simp [step, hreload]
  | true =>
      have htrigger : trigger rifle state command = false := by simp [trigger, hreloading]
      have hfires : fires rifle state command = false := by simp [fires, htrigger]
      generalize hremaining : (if startsReload rifle state command then rifle.reloadSeconds
        else state.reloadRemaining) = remaining
      cases hleft : (remaining.sub deltaTime).le kReadyWithin with
      | false =>
          have hreload : reloaded rifle state command deltaTime = (remaining.sub deltaTime, false) := by
            simp [reloaded, hreloading, hremaining, hleft]
          refine .reloads remaining hfires hreloading hremaining.symm hleft ?_ ?_ ?_
          · simp [step, hreload, hfires]
          · simp [step, hfires, htrigger]
          · simp [step, hreload]
      | true =>
          have hreload : reloaded rifle state command deltaTime = (.zero, true) := by
            simp [reloaded, hreloading, hremaining, hleft]
          refine .fills remaining hfires hreloading hremaining.symm hleft ?_ ?_ ?_
          · simp [step, hreload]
          · simp [step, hfires, htrigger]
          · simp [step, hreload]

/-! ### What holds between ticks -/

/-- A rifle that a server may run on, and a tick that lasts. -/
structure Playable (rifle : Rifle) (deltaTime : Binary32) : Prop where
  reloadSeconds : rifle.reloadSeconds.Nonnegative
  deltaTime : deltaTime.Nonnegative

theorem playable_of_validate {rifle : Rifle} {deltaTime : Binary32}
    (hvalid : Parameters.validateRifle rifle = .ok ()) (hfinite : deltaTime.isFinite = true)
    (hpositive : Binary32.zero.lt deltaTime = true) : Playable rifle deltaTime := by
  simp only [Parameters.validateRifle, Except.bind_eq_ok, Parameters.require_eq_ok] at hvalid
  obtain ⟨_, -, _, -, _, hreload, -⟩ := hvalid
  simp only [Parameters.finiteAndAtLeast, Bool.and_eq_true] at hreload
  refine ⟨Binary32.nonnegative_iff.mpr hreload, Binary32.nonnegative_iff.mpr ⟨hfinite, ?_⟩⟩
  simp only [Binary32.lt, Bool.and_eq_true, decide_eq_true_eq] at hpositive
  simp only [Binary32.le, Bool.and_eq_true, decide_eq_true_eq]
  exact ⟨hpositive.1, hpositive.2.le⟩

theorem lt_of_le_eq_false {x y : Binary32} (hx : x.isNaN = false) (hy : y.isNaN = false)
    (h : x.le y = false) : y.lt x = true := by
  simpa [Binary32.le, Binary32.lt, hx, hy] using h

/-- What is left of a wait longer than the tolerance is above zero. -/
theorem zero_lt_of_ready {x : Binary32} (h : kReadyWithin.lt x = true) : Binary32.zero.lt x = true := by
  have hkey : Binary32.zero.key ≤ kReadyWithin.key := by decide
  simp only [Binary32.lt, Bool.and_eq_true, decide_eq_true_eq] at h ⊢
  exact ⟨⟨rfl, h.1.2⟩, lt_of_le_of_lt hkey h.2⟩

theorem toNat_sub_one {n : UInt8} (h : 0 < n) : (n - 1).toNat + 1 = n.toNat := by
  have hpos : (1 : UInt8) ≤ n := UInt8.le_iff_toNat_le.mpr (UInt8.lt_iff_toNat_lt.mp h)
  rw [UInt8.toNat_sub_of_le _ _ hpos]
  exact Nat.sub_add_cancel (UInt8.lt_iff_toNat_lt.mp h)

/-- What a rifle's ticks keep. -/
structure Sound (rifle : Rifle) (state : State) : Prop where
  /-- A Burst has fired no more than the magazine lacks. -/
  burst : state.rounds.toNat + state.burstIndex.toNat ≤ rifle.magazineCapacity.toNat
  /-- A reload under way takes longer than the tolerance, of a magazine that is not full. -/
  reload : state.reloadRemaining = .zero ∨
    state.reloadRemaining.Nonnegative ∧ kReadyWithin.lt state.reloadRemaining = true ∧
      state.rounds < rifle.magazineCapacity

theorem sound_loaded (rifle : Rifle) : Sound rifle (loaded rifle) := by
  refine ⟨?_, .inl rfl⟩
  change rifle.magazineCapacity.toNat + (0 : UInt8).toNat ≤ _
  simp

namespace Sound
variable {rifle : Rifle} {state : State} (h : Sound rifle state) (command : Command)
include h

theorem nonnegative : state.reloadRemaining.Nonnegative := by
  rcases h.reload with hzero | ⟨hnonnegative, -, -⟩
  · rw [hzero]
    exact Binary32.nonnegative_iff.mpr ⟨rfl, rfl⟩
  · exact hnonnegative

theorem le_zero : state.reloadRemaining.le .zero = !Binary32.zero.lt state.reloadRemaining := by
  rcases h.reload with hzero | ⟨hnonnegative, hready, -⟩
  · rw [hzero]
    rfl
  · have hnumber := Binary32.isNaN_of_isFinite hnonnegative.1
    have hzero : Binary32.zero.isNaN = false := rfl
    simp [Binary32.le, Binary32.lt, hnumber, hzero, ← decide_not]

/-- A reload begins as the code starts one. -/
theorem begins_eq (result : Result) :
    (RifleTick.mk state command result).begins rifle = startsReload rifle state command := by
  rw [RifleTick.begins, startsReload, h.le_zero, RifleTick.underWay, Bool.and_assoc, Bool.and_assoc,
    Bool.and_comm (decide _)]

theorem reloading_eq (result : Result) : reloading rifle state command =
    ((RifleTick.mk state command result).begins rifle || (RifleTick.mk state command result).underWay) := by
  rw [h.begins_eq]
  rfl

/-- In a reload the magazine is not full. -/
theorem not_full (hreloading : reloading rifle state command = true) :
    state.rounds < rifle.magazineCapacity := by
  rw [reloading, Bool.or_eq_true] at hreloading
  rcases hreloading with hstarts | hunder
  · simp only [startsReload, Bool.and_eq_true, decide_eq_true_eq] at hstarts
    exact hstarts.2
  · rcases h.reload with hzero | ⟨-, -, hless⟩
    · rw [hzero] at hunder
      cases hunder
    · exact hless

/-- What is left of a reload as a tick of it starts. -/
theorem remaining {deltaTime : Binary32} (hplayable : Playable rifle deltaTime) :
    (if startsReload rifle state command then rifle.reloadSeconds else state.reloadRemaining).Nonnegative := by
  split
  · exact hplayable.reloadSeconds
  · exact h.nonnegative

/-- One tick. -/
theorem step {deltaTime : Binary32} (hplayable : Playable rifle deltaTime) :
    Sound rifle (step rifle state command deltaTime).state := by
  have hburst := h.burst
  cases stepped rifle state command deltaTime with
  | fires fired held ready none rounds burst reload =>
      have hcapacity := rifle.magazineCapacity.toNat_lt
      have hrounds := toNat_sub_one held
      have hnext : (state.burstIndex + 1).toNat = state.burstIndex.toNat + 1 := by
        rw [UInt8.toNat_add]
        change (state.burstIndex.toNat + 1) % 2 ^ 8 = _
        omega
      refine ⟨?_, ?_⟩
      · rw [rounds, burst, hnext]
        omega
      · rw [reload, rounds]
        refine h.reload.imp_right fun ⟨hnonnegative, hready, hless⟩ => ⟨hnonnegative, hready, ?_⟩
        have hless := UInt8.lt_iff_toNat_lt.mp hless
        exact UInt8.lt_iff_toNat_lt.mpr (by omega)
  | waits fired none rounds burst reload =>
      refine ⟨?_, ?_⟩
      · rw [rounds]
        rcases burst with hsame | hzero
        · rw [hsame]
          exact hburst
        · rw [hzero]
          exact le_trans (Nat.add_le_add_left (Nat.zero_le _) _) hburst
      · rw [reload, rounds]
        exact h.reload
  | reloads remaining fired under from_ left rounds burst reload =>
      have hfrom := h.remaining command hplayable
      rw [← from_] at hfrom
      obtain ⟨hfinite, -⟩ := Binary32.sub_le hfrom hplayable.deltaTime
      have hready := lt_of_le_eq_false (Binary32.isNaN_of_isFinite hfinite) rfl left
      have hpositive := zero_lt_of_ready hready
      refine ⟨?_, .inr ⟨?_, ?_, ?_⟩⟩
      · rw [rounds, burst]
        exact le_trans (Nat.add_le_add_left (Nat.zero_le _) _) hburst
      · rw [reload]
        simp only [Binary32.lt, Bool.and_eq_true, decide_eq_true_eq] at hpositive
        exact ⟨hfinite, le_of_lt hpositive.2⟩
      · rw [reload]
        exact hready
      · rw [rounds]
        exact h.not_full command under
  | fills remaining fired under from_ left rounds burst reload =>
      refine ⟨?_, .inl reload⟩
      rw [rounds, burst]
      simp

/-- What a tick does with the rounds. -/
theorem does (deltaTime : Binary32) :
    RifleTick.Does rifle ⟨state, command, Weapon.step rifle state command deltaTime⟩ := by
  cases stepped rifle state command deltaTime with
  | fires fired held ready none rounds burst reload =>
      have hheld : 0 < state.rounds.toNat := UInt8.lt_iff_toNat_lt.mp held
      rw [h.reloading_eq command (Weapon.step rifle state command deltaTime),
        Bool.or_eq_false_iff] at none
      refine .fires fired hheld ?_ ready ⟨none.2, none.1⟩
      rw [rounds]
      exact toNat_sub_one held
  | waits fired none rounds burst reload => exact .keeps rounds fired
  | reloads remaining fired under from_ left rounds burst reload => exact .keeps rounds fired
  | fills remaining fired under from_ left rounds burst reload =>
      have hless := h.not_full command under
      rw [h.reloading_eq command (Weapon.step rifle state command deltaTime), Bool.or_eq_true] at under
      refine .completes ?_ fired under.symm rounds reload
      rw [RifleTick.completes, rounds]
      exact decide_eq_true hless

/-- A reload is under way or ends exactly when one was under way or begins. -/
theorem reloads {deltaTime : Binary32} (hplayable : Playable rifle deltaTime) :
    let tick : RifleTick := ⟨state, command, Weapon.step rifle state command deltaTime⟩
    (Binary32.zero.lt tick.result.state.reloadRemaining = true ∨ tick.completes = true) ↔
      (tick.underWay = true ∨ tick.begins rifle = true) := by
  intro tick
  have hnot : reloading rifle state command = true ↔
      tick.underWay = true ∨ tick.begins rifle = true := by
    rw [h.reloading_eq command (Weapon.step rifle state command deltaTime), Bool.or_eq_true, or_comm]
  rw [← hnot]
  cases stepped rifle state command deltaTime with
  | fires fired held ready none rounds burst reload =>
      have hunder := none
      rw [reloading, Bool.or_eq_false_iff] at hunder
      have hless : tick.completes = false := by
        have hone := toNat_sub_one held
        have hsame : tick.before.rounds = state.rounds := rfl
        rw [RifleTick.completes, decide_eq_false_iff_not, rounds, UInt8.lt_iff_toNat_lt, hsame]
        omega
      rw [reload, hunder.2, hless, none]
      simp
  | waits fired none rounds burst reload =>
      have hunder := none
      rw [reloading, Bool.or_eq_false_iff] at hunder
      have hless : tick.completes = false := by
        rw [RifleTick.completes, decide_eq_false_iff_not, rounds]
        exact UInt8.lt_irrefl _
      rw [reload, hunder.2, hless, none]
      simp
  | reloads remaining fired under from_ left rounds burst reload =>
      have hfrom := h.remaining command hplayable
      rw [← from_] at hfrom
      obtain ⟨hfinite, -⟩ := Binary32.sub_le hfrom hplayable.deltaTime
      have hready := lt_of_le_eq_false (Binary32.isNaN_of_isFinite hfinite) rfl left
      rw [reload, zero_lt_of_ready hready, under]
      simp
  | fills remaining fired under from_ left rounds burst reload =>
      have hmore : tick.completes = true := by
        rw [RifleTick.completes, rounds]
        exact decide_eq_true (h.not_full command under)
      rw [hmore, under]
      simp

end Sound

/-! ### Over a run -/

theorem run_cons (rifle : Rifle) (deltaTime : Binary32) (state : State) (command : Command)
    (rest : List Command) : run rifle deltaTime state (command :: rest) =
      run rifle deltaTime (step rifle state command deltaTime).state rest := rfl

theorem run_append_singleton (rifle : Rifle) (deltaTime : Binary32) (state : State)
    (commands : List Command) (next : Command) : run rifle deltaTime state (commands ++ [next]) =
      (step rifle (run rifle deltaTime state commands) next deltaTime).state := by
  rw [run, List.foldl_append]
  rfl

section
variable {rifle : Rifle} {deltaTime : Binary32} (hplayable : Playable rifle deltaTime)
include hplayable

theorem Sound.run {state : State} (h : Sound rifle state) (commands : List Command) :
    Sound rifle (run rifle deltaTime state commands) := by
  induction commands generalizing state with
  | nil => exact h
  | cons command rest ih => exact ih (h.step command hplayable)

/-- Every tick of a run is one from a sound rifle. -/
theorem sound_of_mem_played {state : State} (h : Sound rifle state) {commands : List Command}
    {tick : RifleTick} (hmem : tick ∈ played rifle deltaTime state commands) :
    Sound rifle tick.before ∧ tick.result = step rifle tick.before tick.command deltaTime := by
  induction commands generalizing state with
  | nil => cases hmem
  | cons command rest ih =>
      rcases List.mem_cons.mp hmem with rfl | hrest
      · exact ⟨h, rfl⟩
      · exact ih (h.step command hplayable) hrest

/-- The rounds fired are those there were and those reloads gave, less those there are. -/
theorem fired_add_rounds_le {state : State} (h : Sound rifle state) (commands : List Command) :
    (played rifle deltaTime state commands).countP (·.result.fired) +
        (Weapon.run rifle deltaTime state commands).rounds.toNat ≤
      state.rounds.toNat +
        rifle.magazineCapacity.toNat * (played rifle deltaTime state commands).countP (·.completes) := by
  induction commands generalizing state with
  | nil => simp [played, Weapon.run]
  | cons command rest ih =>
      have hrest := ih (h.step command hplayable)
      rw [played, List.countP_cons, List.countP_cons]
      change _ + (if (step rifle state command deltaTime).fired = true then 1 else 0) +
        (Weapon.run rifle deltaTime (step rifle state command deltaTime).state rest).rounds.toNat ≤
          state.rounds.toNat + rifle.magazineCapacity.toNat * (_ +
            if decide (state.rounds < (step rifle state command deltaTime).state.rounds) = true then 1
            else 0)
      rw [Nat.mul_add]
      cases h.does command deltaTime with
      | keeps rounds fired =>
          change (step rifle state command deltaTime).state.rounds = state.rounds at rounds
          change (step rifle state command deltaTime).fired = false at fired
          rw [rounds] at hrest
          simp only [rounds, fired, UInt8.lt_irrefl, decide_false, Bool.false_eq_true, if_false]
          omega
      | fires fired held rounds ready none =>
          change (step rifle state command deltaTime).fired = true at fired
          change (step rifle state command deltaTime).state.rounds.toNat + 1 = state.rounds.toNat
            at rounds
          have hless : ¬ state.rounds < (step rifle state command deltaTime).state.rounds := by
            rw [UInt8.lt_iff_toNat_lt]
            omega
          simp only [hless, fired, decide_false, Bool.false_eq_true, if_false, if_true]
          omega
      | completes completes fired reload rounds ended =>
          change decide (state.rounds < (step rifle state command deltaTime).state.rounds) = true
            at completes
          change (step rifle state command deltaTime).fired = false at fired
          change (step rifle state command deltaTime).state.rounds = _ at rounds
          simp only [completes, fired, Bool.false_eq_true, if_false, if_true]
          rw [rounds] at hrest
          omega

/-! ### A reload's time -/

/-- What is left of a reload after `n` ticks of it, as binary32 counts down. -/
def left (rifle : Rifle) (deltaTime : Binary32) (n : ℕ) : Binary32 :=
  Binary32.countDown rifle.reloadSeconds deltaTime n

/-- A reload that has not come within the tolerance by its `n`th tick. -/
def Lasts (rifle : Rifle) (deltaTime : Binary32) (n : ℕ) : Prop :=
  ∀ k, 1 ≤ k → k ≤ n → kReadyWithin.lt (left rifle deltaTime k) = true

omit hplayable in
theorem Lasts.mono {m n : ℕ} (h : Lasts rifle deltaTime n) (hle : m ≤ n) : Lasts rifle deltaTime m :=
  fun k hone hk => h k hone (hk.trans hle)

/-- One tick of a reload, `remaining` being what was left of it. -/
theorem reload_step {state : State} (h : Sound rifle state) {command : Command}
    (hreloading : reloading rifle state command = true) {n : ℕ}
    (hleft : (if startsReload rifle state command then rifle.reloadSeconds else state.reloadRemaining) =
      left rifle deltaTime n) :
    let after := (step rifle state command deltaTime).state
    (kReadyWithin.lt (left rifle deltaTime (n + 1)) = true →
      after.reloadRemaining = left rifle deltaTime (n + 1) ∧ after.rounds = state.rounds) ∧
    ((left rifle deltaTime (n + 1)).le kReadyWithin = true →
      after.reloadRemaining = .zero ∧ after.rounds = rifle.magazineCapacity) := by
  intro after
  have hsub : left rifle deltaTime (n + 1) = (left rifle deltaTime n).sub deltaTime := rfl
  have hfrom := h.remaining command hplayable
  rw [hleft] at hfrom
  obtain ⟨hfinite, -⟩ := Binary32.sub_le hfrom hplayable.deltaTime
  rw [hsub]
  cases stepped rifle state command deltaTime with
  | fires fired held ready none rounds burst reload =>
      rw [hreloading] at none
      cases none
  | waits fired none rounds burst reload =>
      rw [hreloading] at none
      cases none
  | reloads remaining fired under from_ ended rounds burst reload =>
      rw [hleft] at from_
      subst from_
      exact ⟨fun _ => ⟨reload, rounds⟩, fun hover => absurd (ended.symm.trans hover) (by simp)⟩
  | fills remaining fired under from_ ended rounds burst reload =>
      rw [hleft] at from_
      subst from_
      refine ⟨fun hlasts => ?_, fun _ => ⟨reload, rounds⟩⟩
      simp only [Binary32.le, Binary32.lt, Bool.and_eq_true, decide_eq_true_eq] at ended hlasts
      exact absurd ended.2 (not_le.mpr hlasts.2)

/-- A reload that lasts is counted down by every tick, whatever it commands. -/
theorem reload_lasts {state : State} (h : Sound rifle state) {command : Command}
    (hstarts : startsReload rifle state command = true) (later : List Command)
    (hlasts : Lasts rifle deltaTime (later.length + 1)) :
    (Weapon.run rifle deltaTime state (command :: later)).reloadRemaining =
        left rifle deltaTime (later.length + 1) ∧
      (Weapon.run rifle deltaTime state (command :: later)).rounds = state.rounds := by
  induction later using List.reverseRecOn with
  | nil =>
      have hreloading : reloading rifle state command = true := by simp [reloading, hstarts]
      exact (reload_step hplayable h hreloading (n := 0) (by rw [hstarts]; rfl)).1
        (hlasts 1 le_rfl le_rfl)
  | append_singleton rest next ih =>
      rw [List.length_append] at hlasts ⊢
      obtain ⟨hremaining, hrounds⟩ := ih (hlasts.mono (by simp))
      have hlast : kReadyWithin.lt (left rifle deltaTime (rest.length + 1)) = true :=
        hlasts (rest.length + 1) (by omega) (by simp)
      rw [← List.cons_append, run_append_singleton]
      have hsound := h.run hplayable (command :: rest)
      generalize Weapon.run rifle deltaTime state (command :: rest) = before at *
      have hunder : Binary32.zero.lt before.reloadRemaining = true := by
        rw [hremaining]
        exact zero_lt_of_ready hlast
      have hnot : startsReload rifle before next = false := by
        rw [startsReload, hsound.le_zero, hunder]
        simp
      have hreloading : reloading rifle before next = true := by simp [reloading, hunder]
      have hstep := (reload_step hplayable hsound hreloading (n := rest.length + 1)
        (by rw [hnot]; exact hremaining)).1 (hlasts _ (by omega) le_rfl)
      rw [← hrounds]
      exact hstep

/-- It ends on the first tick that brings it within the tolerance. -/
theorem reload_ends {state : State} (h : Sound rifle state) {command : Command}
    (hstarts : startsReload rifle state command = true) (later : List Command)
    (hlasts : Lasts rifle deltaTime later.length)
    (hover : (left rifle deltaTime (later.length + 1)).le kReadyWithin = true) :
    (Weapon.run rifle deltaTime state (command :: later)).reloadRemaining = .zero ∧
      (Weapon.run rifle deltaTime state (command :: later)).rounds = rifle.magazineCapacity := by
  induction later using List.reverseRecOn with
  | nil =>
      have hreloading : reloading rifle state command = true := by simp [reloading, hstarts]
      exact (reload_step hplayable h hreloading (n := 0) (by rw [hstarts]; rfl)).2 hover
  | append_singleton rest next _ =>
      rw [List.length_append] at hlasts hover
      obtain ⟨hremaining, -⟩ := reload_lasts hplayable h hstarts rest hlasts
      have hlast : kReadyWithin.lt (left rifle deltaTime (rest.length + 1)) = true :=
        hlasts (rest.length + 1) (by omega) le_rfl
      rw [← List.cons_append, run_append_singleton]
      have hsound := h.run hplayable (command :: rest)
      generalize Weapon.run rifle deltaTime state (command :: rest) = before at *
      have hunder : Binary32.zero.lt before.reloadRemaining = true := by
        rw [hremaining]
        exact zero_lt_of_ready hlast
      have hnot : startsReload rifle before next = false := by
        rw [startsReload, hsound.le_zero, hunder]
        simp
      have hreloading : reloading rifle before next = true := by simp [reloading, hunder]
      exact (reload_step hplayable hsound hreloading (n := rest.length + 1)
        (by rw [hnot]; exact hremaining)).2 hover

/-- The count-down is the exact one but for each tick's rounding. -/
theorem left_near {n : ℕ} (hlasts : Lasts rifle deltaTime n) :
    (left rifle deltaTime (n + 1)).isFinite = true ∧
      |(left rifle deltaTime (n + 1)).toRat -
          (rifle.reloadSeconds.toRat - (n + 1 : ℕ) * deltaTime.toRat)| ≤
        (n + 1 : ℕ) * ((rifle.reloadSeconds.toRat ⊔ deltaTime.toRat) / 2 ^ 24) := by
  have hleft : ∀ k < n + 1, 0 ≤ (left rifle deltaTime k).toRat := by
    intro k hk
    rcases Nat.eq_zero_or_pos k with rfl | hpos
    · exact (Binary32.nonnegative_iff_toRat.mp hplayable.reloadSeconds).2
    · have hlast := hlasts k hpos (by omega)
      have hkey : Binary32.zero.key ≤ (left rifle deltaTime k).key := by
        have hpositive := zero_lt_of_ready hlast
        simp only [Binary32.lt, Bool.and_eq_true, decide_eq_true_eq] at hpositive
        exact hpositive.2.le
      have hunits := Binary32.units_le_units.mpr hkey
      rw [Binary32.toRat]
      have hzero : Binary32.zero.units = 0 := rfl
      have hnonneg : (0 : ℚ) ≤ (left rifle deltaTime k).units := by
        rw [hzero] at hunits
        exact_mod_cast hunits
      positivity
  obtain ⟨hfinite, -, hnear⟩ := Binary32.countDown_near hplayable.reloadSeconds hplayable.deltaTime
    (n + 1) hleft
  exact ⟨hfinite, hnear⟩

end

/-! ### The whole of it -/

/-- What a rifle's rounds and reloads do over any run from a full magazine. -/
structure RoundsKept (rifle : Rifle) (deltaTime : Binary32) : Prop where
  capacity : ∀ commands, (run rifle deltaTime (loaded rifle) commands).rounds.toNat +
    (run rifle deltaTime (loaded rifle) commands).burstIndex.toNat ≤ rifle.magazineCapacity.toNat
  ticks : ∀ commands, ∀ tick ∈ played rifle deltaTime (loaded rifle) commands, tick.Does rifle
  /-- A reload is under way or ends just where one was under way or begins. -/
  reloads : ∀ commands, ∀ tick ∈ played rifle deltaTime (loaded rifle) commands,
    (Binary32.zero.lt tick.result.state.reloadRemaining = true ∨ tick.completes = true) ↔
      (tick.underWay = true ∨ tick.begins rifle = true)
  fired : ∀ commands,
    (played rifle deltaTime (loaded rifle) commands).countP (·.result.fired) ≤
      rifle.magazineCapacity.toNat *
        ((played rifle deltaTime (loaded rifle) commands).countP (·.completes) + 1)
  /-- From where one begins it is counted down, whatever is commanded. -/
  lasts : ∀ earlier command later,
    (RifleTick.mk (run rifle deltaTime (loaded rifle) earlier) command
      (step rifle (run rifle deltaTime (loaded rifle) earlier) command deltaTime)).begins rifle = true →
    Lasts rifle deltaTime (later.length + 1) →
    (run rifle deltaTime (loaded rifle) (earlier ++ command :: later)).reloadRemaining =
        left rifle deltaTime (later.length + 1) ∧
      (run rifle deltaTime (loaded rifle) (earlier ++ command :: later)).rounds =
        (run rifle deltaTime (loaded rifle) earlier).rounds
  /-- And it ends with the first tick that leaves no more than the tolerance. -/
  ends : ∀ earlier command later,
    (RifleTick.mk (run rifle deltaTime (loaded rifle) earlier) command
      (step rifle (run rifle deltaTime (loaded rifle) earlier) command deltaTime)).begins rifle = true →
    Lasts rifle deltaTime later.length →
    (left rifle deltaTime (later.length + 1)).le kReadyWithin = true →
    (run rifle deltaTime (loaded rifle) (earlier ++ command :: later)).reloadRemaining = .zero ∧
      (run rifle deltaTime (loaded rifle) (earlier ++ command :: later)).rounds =
        rifle.magazineCapacity
  /-- So up to the rounding of its ticks a reload takes its time. -/
  time : ∀ n, Lasts rifle deltaTime n →
    let rounding := (n + 1 : ℕ) * ((rifle.reloadSeconds.toRat ⊔ deltaTime.toRat) / 2 ^ 24)
    let remains := rifle.reloadSeconds.toRat - (n + 1 : ℕ) * deltaTime.toRat
    (kReadyWithin.lt (left rifle deltaTime (n + 1)) = true ∧
        kReadyWithin.toRat - rounding < remains) ∨
      ((left rifle deltaTime (n + 1)).le kReadyWithin = true ∧
        remains ≤ kReadyWithin.toRat + rounding)

/-- CORRECT: no run of a rifle makes rounds that no reload gave, and a reload takes its time, as
    near as binary32 counts it. -/
theorem rounds_kept {rifle : Rifle} {deltaTime : Binary32}
    (hvalid : Parameters.validateRifle rifle = .ok ()) (hfinite : deltaTime.isFinite = true)
    (hpositive : Binary32.zero.lt deltaTime = true) : RoundsKept rifle deltaTime := by
  have hplayable := playable_of_validate hvalid hfinite hpositive
  have hsound : ∀ commands, Sound rifle (run rifle deltaTime (loaded rifle) commands) :=
    fun commands => (sound_loaded rifle).run hplayable commands
  have hsplit : ∀ earlier command later, run rifle deltaTime (loaded rifle) (earlier ++ command :: later) =
      run rifle deltaTime (run rifle deltaTime (loaded rifle) earlier) (command :: later) :=
    fun earlier command later => List.foldl_append ..
  refine ⟨fun commands => (hsound commands).burst, ?_, ?_, ?_, ?_, ?_, ?_⟩
  · rintro commands ⟨before, command, result⟩ hmem
    obtain ⟨hbefore, hresult⟩ := sound_of_mem_played hplayable (sound_loaded rifle) hmem
    simp only at hbefore hresult
    rw [hresult]
    exact hbefore.does command deltaTime
  · rintro commands ⟨before, command, result⟩ hmem
    obtain ⟨hbefore, hresult⟩ := sound_of_mem_played hplayable (sound_loaded rifle) hmem
    simp only at hbefore hresult
    rw [hresult]
    exact hbefore.reloads command hplayable
  · intro commands
    have hrounds := fired_add_rounds_le hplayable (sound_loaded rifle) commands
    have hfull : (loaded rifle).rounds = rifle.magazineCapacity := rfl
    rw [hfull] at hrounds
    rw [Nat.mul_add, Nat.mul_one]
    omega
  · intro earlier command later hbegins hlasts
    rw [(hsound earlier).begins_eq command] at hbegins
    rw [hsplit]
    exact reload_lasts hplayable (hsound earlier) hbegins later hlasts
  · intro earlier command later hbegins hlasts hover
    rw [(hsound earlier).begins_eq command] at hbegins
    rw [hsplit]
    exact reload_ends hplayable (hsound earlier) hbegins later hlasts hover
  · intro n hlasts rounding remains
    obtain ⟨hleft, hnear⟩ := left_near hplayable hlasts
    obtain ⟨hlow, hhigh⟩ := abs_le.mp hnear
    have htolerance : kReadyWithin.isFinite = true := rfl
    cases hover : (left rifle deltaTime (n + 1)).le kReadyWithin with
    | true =>
        rw [Binary32.le_iff_toRat hleft htolerance] at hover
        refine .inr ⟨rfl, ?_⟩
        simp only [rounding, remains]
        linarith
    | false =>
        have hmore := lt_of_le_eq_false (Binary32.isNaN_of_isFinite hleft) rfl hover
        refine .inl ⟨hmore, ?_⟩
        rw [Binary32.lt_iff_toRat htolerance hleft] at hmore
        simp only [rounding, remains]
        linarith

/-- Three seconds at 60 Hz. -/
theorem rounds_kept_threeSeconds :
    RoundsKept { magazineCapacity := 30, reloadSeconds := ⟨0x40400000⟩ } ⟨0x3C888889⟩ :=
  rounds_kept (by decide) (by decide) (by decide)

/-- A round is fired on a tick that asks for a reload of a full magazine; and of a reload of 2^21
    seconds no tick of a 60th counts anything down, so that it never ends. -/
theorem reload_asked_or_endless :
    (step ({} : Rifle) (loaded {}) { fire := true, reload := true } ⟨0x3C888889⟩).fired = true ∧
    let rifle : Rifle := { magazineCapacity := 2, reloadSeconds := ⟨0x4A000000⟩ }
    Parameters.validateRifle rifle = .ok () ∧
      rifle.reloadSeconds.toRat < 2 ^ 28 * (⟨0x3C888889⟩ : Binary32).toRat ∧
      ∀ later, (run rifle ⟨0x3C888889⟩ (loaded rifle)
        ({ fire := true } :: { reload := true } :: later)).rounds = 1 := by
  refine ⟨by decide, by decide, ?_, fun later => ?_⟩
  · rw [Binary32.toRat, Binary32.toRat]
    norm_num [show (⟨0x4A000000⟩ : Binary32).units = 2 ^ 170 by decide,
      show (⟨0x3C888889⟩ : Binary32).units = 8947849 * 2 ^ 120 by decide]
  · have hplayable : Playable { magazineCapacity := 2, reloadSeconds := ⟨0x4A000000⟩ } ⟨0x3C888889⟩ :=
      playable_of_validate (by decide) (by decide) (by decide)
    have hstays : ∀ n, left { magazineCapacity := 2, reloadSeconds := ⟨0x4A000000⟩ } ⟨0x3C888889⟩ n =
        ⟨0x4A000000⟩ := by
      intro n
      induction n with
      | zero => rfl
      | succ n ih =>
          rw [left, Binary32.countDown]
          rw [left] at ih
          rw [ih]
          decide +kernel
    have hfired := (sound_loaded _).step { fire := true } hplayable
    have hstarts : startsReload { magazineCapacity := 2, reloadSeconds := ⟨0x4A000000⟩ }
        (step { magazineCapacity := 2, reloadSeconds := ⟨0x4A000000⟩ }
          (loaded { magazineCapacity := 2, reloadSeconds := ⟨0x4A000000⟩ }) { fire := true }
          ⟨0x3C888889⟩).state { reload := true } = true := by decide
    have hone : (step { magazineCapacity := 2, reloadSeconds := ⟨0x4A000000⟩ }
          (loaded { magazineCapacity := 2, reloadSeconds := ⟨0x4A000000⟩ }) { fire := true }
          ⟨0x3C888889⟩).state.rounds = 1 := by decide
    have hlasts := (reload_lasts hplayable hfired hstarts later fun k _ _ => by
      rw [hstays]
      decide).2
    rw [run_cons, hlasts, hone]

end Augusta.Weapon
