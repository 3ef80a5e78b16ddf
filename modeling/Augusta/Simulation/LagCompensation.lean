import Augusta.Link.CommandsLaw
import Augusta.Presentation.Frames
import Augusta.Simulation.HitboxHistory

/-! Lag compensation: what the shooter was shown of a target, and what its round is judged against.

      client   sample time ─▶ e and a fraction f ─▶ shown between the updates of ticks e and e + 1
      wire                     e, f in 256ths = f'
      server   tick − delay  = e + f'             ─▶ judged between the poses kept of e and e + 1

    The two fractions lie within a step of each other, and on the same side of the middle unless
    rounding takes one that is just short of it there. -/

namespace Augusta.Simulation
open Math Presentation
open Lib (roundEven)

/-! ### What the shooter is shown -/

/-- One update of a player, its root as exact numbers. -/
structure RootUpdate where
  serverTime : ℚ
  root : Pose ℚ
  deriving DecidableEq

/-- The root of `Between`'s body. -/
def rootBetween (earlier later : Pose ℚ) (t : ℚ) : Pose ℚ :=
  let nearer := if t < 1 / 2 then earlier else later
  { nearer with
    position := lerp earlier.position later.position t
    yaw := lerpAngle earlier.yaw later.yaw t }

def RootUpdate.betweenAt (earlier later : RootUpdate) (time : ℚ) : Pose ℚ :=
  rootBetween earlier.root later.root
    ((time - earlier.serverTime) / (later.serverTime - earlier.serverTime))

/-- `RemoteInterpolator::Sample` of one player's updates, whatever an update shows. -/
def sampleOf {υ β : Type} (serverTime : υ → ℚ) (held : υ → β) (between : υ → υ → ℚ → β)
    (updates : List υ) (sampleTime : ℚ) : Option β :=
  let later := (updates.takeWhile fun update => serverTime update ≤ sampleTime).length
  if later = 0 then updates.head?.map held
  else
    match updates[later - 1]?, updates[later]? with
    | some earlier, some next => some (between earlier next sampleTime)
    | some newest, none => some (held newest)
    | none, _ => none

/-- What is shown of a player's root. -/
def sampleRoot (updates : List RootUpdate) (sampleTime : ℚ) : Option (Pose ℚ) :=
  sampleOf RootUpdate.serverTime RootUpdate.root RootUpdate.betweenAt updates sampleTime

/-- The interpolator's own `Sample` is the same, on its floats. -/
theorem sampleUpdates_eq_sampleOf (floats : Floats) (updates : List Update) (sampleTime : ℚ) :
    sampleUpdates floats updates sampleTime =
      sampleOf Update.serverTime Update.asRemote (betweenAt floats) updates sampleTime := by
  simp only [sampleUpdates, sampleOf]
  split_ifs
  · rfl
  · split <;> simp_all

section
variable {υ β : Type} {serverTime : υ → ℚ} {held : υ → β} {between : υ → υ → ℚ → β}
variable {updates : List υ} {sampleTime : ℚ}

/-- The updates up to a sample time, where the last of them is known. -/
theorem length_takeWhile_reached
    (hchronological : updates.Pairwise fun earlier later => serverTime earlier < serverTime later)
    {k : ℕ} {update : υ} (hat : updates[k]? = some update) (hreached : serverTime update ≤ sampleTime)
    (hnext : ∀ next ∈ updates[k + 1]?, sampleTime < serverTime next) :
    (updates.takeWhile fun update => decide (serverTime update ≤ sampleTime)).length = k + 1 := by
  induction updates generalizing k with
  | nil => simp at hat
  | cons first rest ih =>
      obtain ⟨hfirst, hrest⟩ := List.pairwise_cons.mp hchronological
      cases k with
      | zero =>
          obtain rfl : first = update := by simpa using hat
          rw [List.takeWhile_cons, if_pos (decide_eq_true hreached), List.length_cons]
          cases rest with
          | nil => rfl
          | cons next _ =>
              have hlater : sampleTime < serverTime next := hnext next (by simp)
              rw [List.takeWhile_cons, if_neg (by simpa using hlater)]
              rfl
      | succ k =>
          rw [List.getElem?_cons_succ] at hat
          have hless := hfirst update (List.mem_of_getElem? hat)
          rw [List.takeWhile_cons, if_pos (decide_eq_true (le_trans hless.le hreached)),
            List.length_cons, ih hrest hat (by simpa using hnext)]

/-- Between two neighbours, or from the last on. -/
theorem sampleOf_eq
    (hchronological : updates.Pairwise fun earlier later => serverTime earlier < serverTime later)
    {k : ℕ} {update : υ} (hat : updates[k]? = some update) (hreached : serverTime update ≤ sampleTime)
    (hnext : ∀ next ∈ updates[k + 1]?, sampleTime < serverTime next) :
    sampleOf serverTime held between updates sampleTime =
      some (match updates[k + 1]? with
        | some next => between update next sampleTime
        | none => held update) := by
  simp only [sampleOf, length_takeWhile_reached hchronological hat hreached hnext,
    Nat.add_one_ne_zero, if_false, Nat.add_sub_cancel, hat]
  rcases updates[k + 1]? with _ | next <;> rfl

end

/-- On an update's own time, its root is shown. -/
theorem sampleRoot_on {updates : List RootUpdate}
    (hchronological : updates.Pairwise fun earlier later => earlier.serverTime < later.serverTime)
    {k : ℕ} {update : RootUpdate} (hat : updates[k]? = some update) :
    sampleRoot updates update.serverTime = some update.root := by
  have hnext : ∀ next ∈ updates[k + 1]?, update.serverTime < next.serverTime := by
    intro next hmem
    obtain ⟨hk, hget⟩ := List.getElem?_eq_some_iff.mp hat
    obtain ⟨hk', hget'⟩ := List.getElem?_eq_some_iff.mp hmem
    rw [← hget, ← hget']
    exact List.pairwise_iff_getElem.mp hchronological k (k + 1) hk hk' (Nat.lt_succ_self k)
  rw [sampleRoot, sampleOf_eq hchronological hat le_rfl hnext]
  rcases updates[k + 1]? with _ | next
  · rfl
  · simp only [RootUpdate.betweenAt, sub_self, zero_div, rootBetween, lerp_zero, lerpAngle_zero]
    rw [if_pos (by norm_num)]

/-! ### The fraction that arrives -/

/-- A Seen fraction as the server reads it. -/
def receivedFraction (fraction : ℚ) : ℚ := exactSnap fraction kFractionGrid

/-- Short of the middle by no more than half a step of the wire's grid: rounded to the middle. -/
def RoundsToMiddle (fraction : ℚ) : Prop := 255 / 512 ≤ fraction ∧ fraction < 1 / 2

instance (fraction : ℚ) : Decidable (RoundsToMiddle fraction) := by
  unfold RoundsToMiddle
  infer_instance

section
variable {fraction : ℚ} (hnonneg : 0 ≤ fraction) (hlt : fraction < 1)

theorem receivedFraction_eq : receivedFraction fraction =
    ((max 0 (min (roundEven (fraction * 256)) 255) : ℤ) : ℚ) / 256 := by
  have hpow : (2 : ℚ) ^ kFractionGrid.shift = 256 := by norm_num [kFractionGrid]
  rw [receivedFraction, exactSnap, exactSteps, hpow]
  rfl

include hnonneg in
/-- What is read is the rounded number of steps, or the last of them. -/
theorem receivedFraction_cases :
    (receivedFraction fraction = roundEven (fraction * 256) / 256 ∧
      roundEven (fraction * 256) ≤ 255) ∨
    (receivedFraction fraction = 255 / 256 ∧ 256 ≤ roundEven (fraction * 256)) := by
  have hsteps : 0 ≤ roundEven (fraction * 256) :=
    Lib.le_roundEven (by push_cast; positivity)
  rw [receivedFraction_eq]
  rcases le_or_gt (roundEven (fraction * 256)) 255 with hle | hgt
  · rw [min_eq_left hle, max_eq_right hsteps]
    exact .inl ⟨rfl, hle⟩
  · rw [min_eq_right hgt.le, max_eq_right (by norm_num)]
    exact .inr ⟨by norm_num, hgt⟩

include hnonneg in
theorem receivedFraction_mem : 0 ≤ receivedFraction fraction ∧ receivedFraction fraction < 1 := by
  have hsteps : (0 : ℤ) ≤ roundEven (fraction * 256) :=
    Lib.le_roundEven (by push_cast; positivity)
  rcases receivedFraction_cases hnonneg with ⟨heq, hle⟩ | ⟨heq, -⟩
  · have hlower : (0 : ℚ) ≤ roundEven (fraction * 256) := by exact_mod_cast hsteps
    have hupper : (roundEven (fraction * 256) : ℚ) ≤ 255 := by exact_mod_cast hle
    rw [heq]
    constructor
    · positivity
    · linarith
  · rw [heq]
    norm_num

include hnonneg hlt in
/-- Within one step of what was shown. -/
theorem abs_sub_receivedFraction_le : |fraction - receivedFraction fraction| ≤ 1 / 256 := by
  have herror := abs_le.mp (Lib.abs_roundEven_sub_le (fraction * 256))
  rcases receivedFraction_cases hnonneg with ⟨heq, -⟩ | ⟨heq, hge⟩
  · rw [heq, abs_le]
    constructor <;> linarith
  · have hlower : (256 : ℚ) ≤ roundEven (fraction * 256) := by exact_mod_cast hge
    rw [heq, abs_le]
    constructor <;> linarith

include hnonneg in
/-- On the same side of the middle, unless rounded to it. -/
theorem receivedFraction_lt_half (h : ¬RoundsToMiddle fraction) :
    receivedFraction fraction < 1 / 2 ↔ fraction < 1 / 2 := by
  constructor
  · intro hreceived
    by_contra hge
    have hsteps : (128 : ℤ) ≤ roundEven (fraction * 256) :=
      Lib.le_roundEven (by push_cast; linarith)
    have hlower : (128 : ℚ) ≤ roundEven (fraction * 256) := by exact_mod_cast hsteps
    rcases receivedFraction_cases hnonneg with ⟨heq, -⟩ | ⟨heq, -⟩ <;>
      rw [heq] at hreceived <;> linarith
  · intro hless
    have hshort : fraction < 255 / 512 := by
      by_contra hge
      exact h ⟨not_lt.mp hge, hless⟩
    have hsteps : roundEven (fraction * 256) ≤ 127 :=
      Lib.roundEven_le (by push_cast; linarith)
    have hupper : (roundEven (fraction * 256) : ℚ) ≤ 127 := by exact_mod_cast hsteps
    rcases receivedFraction_cases hnonneg with ⟨heq, -⟩ | ⟨-, hge⟩
    · rw [heq]
      linarith
    · omega

end

/-! ### The moment judged -/

section
variable {Joints : Type} {tickDuration sampleTime : ℚ} {e oldest newest : Tick}

/-- Between two ticks, the Seen time is the first of them and the fraction on to the next. -/
theorem seenTimeAt_between (hpositive : 0 < tickDuration) (holdest : oldest ≤ e)
    (hnewest : sampleTime ≤ serverTimeOf tickDuration newest)
    (hlower : serverTimeOf tickDuration e ≤ sampleTime)
    (hupper : sampleTime < (e.toNat + 1) * tickDuration) :
    seenTimeAt sampleTime tickDuration oldest newest =
      ⟨e, (sampleTime - serverTimeOf tickDuration e) / tickDuration⟩ := by
  have hge : (e.toNat : ℚ) ≤ sampleTime / tickDuration := (le_div_iff₀ hpositive).mpr hlower
  have hlt : sampleTime / tickDuration < e.toNat + 1 := (div_lt_iff₀ hpositive).mpr hupper
  have hlast : sampleTime / tickDuration ≤ newest.toNat := (div_le_iff₀ hpositive).mpr hnewest
  have hfirst : (oldest.toNat : ℚ) ≤ e.toNat := by
    exact_mod_cast UInt64.le_iff_toNat_le.mp holdest
  have hclamp : clampTicks sampleTime tickDuration oldest newest = sampleTime / tickDuration := by
    rw [clampTicks, min_eq_left hlast, max_eq_right (by linarith)]
  have hfloor : ⌊sampleTime / tickDuration⌋ = (e.toNat : ℤ) := by
    rw [Int.floor_eq_iff, Int.cast_natCast]
    exact ⟨hge, hlt⟩
  rw [seenTimeAt, hclamp, hfloor, Int.toNat_natCast, UInt64.ofNat_toNat, Int.cast_natCast,
    serverTimeOf, sub_div, mul_div_cancel_right₀ _ hpositive.ne']

/-- Under the cap, a round is judged at the Seen time it reports, within the history. -/
theorem judged_time {tickRateHz : UInt8} {now seenTick : Tick} {seenFraction : ℚ}
    (hnonneg : 0 ≤ seenFraction) (hlt : seenFraction < 1)
    (hsent : (seenTick.toNat : ℚ) + seenFraction ≤ (now.toNat : ℚ) - 1)
    (hcap : shootersDelay now seenTick seenFraction (maxShootersDelayTicks tickRateHz) <
      maxShootersDelayTicks tickRateHz) :
    (now.toNat : ℚ) - shootersDelay now seenTick seenFraction (maxShootersDelayTicks tickRateHz) =
        seenTick.toNat + seenFraction ∧
      now.toNat ≤ seenTick.toNat + hitboxHistoryTicks tickRateHz ∧
      0 < hitboxHistoryTicks tickRateHz := by
  have hdelay : shootersDelay now seenTick seenFraction (maxShootersDelayTicks tickRateHz) =
      min ((now.toNat : ℚ) - (seenTick.toNat + seenFraction)) (maxShootersDelayTicks tickRateHz) := by
    simp only [shootersDelay, min_eq_left hlt.le, max_eq_right hnonneg, min_eq_left hsent]
  rw [hdelay] at hcap ⊢
  have hless : (now.toNat : ℚ) - (seenTick.toNat + seenFraction) <
      maxShootersDelayTicks tickRateHz := by
    rcases min_lt_iff.mp hcap with hless | habsurd
    · exact hless
    · exact absurd habsurd (lt_irrefl _)
  have hkept := lt_of_lt_of_le hless (maxShootersDelayTicks_le tickRateHz)
  rw [min_eq_left hless.le]
  refine ⟨by ring, ?_, ?_⟩
  · have hcast : (now.toNat : ℚ) < seenTick.toNat + hitboxHistoryTicks tickRateHz + 1 := by linarith
    have : now.toNat < seenTick.toNat + hitboxHistoryTicks tickRateHz + 1 := by exact_mod_cast hcast
    omega
  · have hcast : (0 : ℚ) < hitboxHistoryTicks tickRateHz := by linarith
    exact_mod_cast hcast

end

/-- Between two ticks: the two fractions stand apart by no more than a step of the grid. -/
theorem rootBetween_apart {Joints : Type} (blendJoints : BlendJoints ℚ Joints)
    (earlier later : SkeletonPose ℚ Joints) {fraction : ℚ} (hnonneg : 0 ≤ fraction)
    (hlt : fraction < 1) :
    let shown := rootBetween earlier.root later.root fraction
    let judged := earlier.between blendJoints later (receivedFraction fraction)
    (∃ apart : ℚ, |apart| ≤ 1 / 256 ∧
      shown.position = judged.root.position +
        apart • (later.root.position - earlier.root.position) ∧
      shown.yaw = judged.root.yaw + apart * arc earlier.root.yaw later.root.yaw) ∧
    (¬RoundsToMiddle fraction → shown.stance = judged.root.stance) ∧
    (receivedFraction fraction = fraction → shown = judged.root) := by
  intro shown judged
  have hstance : ∀ received : ℚ, (received < 1 / 2 ↔ fraction < 1 / 2) →
      shown.stance = (earlier.between blendJoints later received).root.stance := by
    intro received hside
    simp only [shown, rootBetween, SkeletonPose.between, hside]
    split_ifs <;> rfl
  refine ⟨⟨fraction - receivedFraction fraction, abs_sub_receivedFraction_le hnonneg hlt,
    lerp_apart _ _ _ _, lerpAngle_apart _ _ _ _⟩, ?_, ?_⟩
  · intro hside
    exact hstance _ (receivedFraction_lt_half hnonneg hside)
  · intro hgrid
    have hpose := hstance fraction Iff.rfl
    simp only [judged, hgrid]
    exact congrArg (fun stance => Pose.mk (lerp earlier.root.position later.root.position fraction)
      (lerpAngle earlier.root.yaw later.root.yaw fraction) stance) hpose

/-- CORRECT: on the firing tick, under the cap, the root a round is judged against is the one its
    shooter was shown, moved by at most a step's share of the tick's movement; the same altogether
    where the Seen fraction is on the wire's grid, and of the same stance wherever it is not one
    that rounds to the middle. -/
theorem judged_as_shown {Joints : Type} (blendJoints : BlendJoints ℚ Joints) (tickRateHz : UInt8)
    {tickDuration : ℚ} (hpositive : 0 < tickDuration) (poses : ℕ → SkeletonPose ℚ Joints)
    {updates : List RootUpdate}
    (hchronological : updates.Pairwise fun earlier later => earlier.serverTime < later.serverTime)
    {e : Tick} {k : ℕ}
    (hearlier : updates[k]? = some ⟨e.toNat * tickDuration, (poses e.toNat).root⟩)
    (hlater : updates[k + 1]? =
      some ⟨(e.toNat + 1) * tickDuration, (poses (e.toNat + 1)).root⟩)
    {sampleTime : ℚ} (hlower : e.toNat * tickDuration ≤ sampleTime)
    (hupper : sampleTime ≤ (e.toNat + 1) * tickDuration)
    {oldest newest first now newestSeen : Tick} (holdest : oldest ≤ e)
    (hnewest : e.toNat < newest.toNat) (hfirst : first ≤ e) (hsent : e.toNat + 1 < now.toNat) :
    let seen := seenTimeAt sampleTime tickDuration oldest newest
    let seenTick := Link.seenRead newestSeen seen.tick
    let fraction := receivedFraction seen.fraction
    let delay := shootersDelay now seenTick fraction (maxShootersDelayTicks tickRateHz)
    let history := PoseHistory.recorded (hitboxHistoryTicks tickRateHz) poses first
      (now.toNat - first.toNat)
    seenTick = seen.tick → delay < maxShootersDelayTicks tickRateHz →
      ∃ judged shown, history.poseAt blendJoints (now.toNat - delay) = some judged ∧
        sampleRoot updates sampleTime = some shown ∧
        (∃ apart : ℚ, |apart| ≤ 1 / 256 ∧
          shown.position = judged.root.position +
            apart • ((poses (e.toNat + 1)).root.position - (poses e.toNat).root.position) ∧
          shown.yaw = judged.root.yaw +
            apart * arc (poses e.toNat).root.yaw (poses (e.toNat + 1)).root.yaw) ∧
        (¬RoundsToMiddle seen.fraction → shown.stance = judged.root.stance) ∧
        (fraction = seen.fraction → shown = judged.root) := by
  intro seen seenTick fraction delay history (hread : Link.seenRead newestSeen seen.tick = seen.tick)
    hcap
  have hnow := now.toNat_lt
  have hfirst := UInt64.le_iff_toNat_le.mp hfirst
  have hspan : first.toNat + (now.toNat - first.toNat) = now.toNat := by omega
  have hlast : ((e.toNat : ℚ) + 1) ≤ newest.toNat := by exact_mod_cast hnewest
  have hsentTick : (e.toNat : ℚ) + 1 ≤ now.toNat - 1 := by
    have hcast : ((e.toNat + 2 : ℕ) : ℚ) ≤ now.toNat := by exact_mod_cast hsent
    push_cast at hcast
    linarith
  have hcovered : sampleTime ≤ serverTimeOf tickDuration newest :=
    le_trans hupper (mul_le_mul_of_nonneg_right hlast hpositive.le)
  rcases lt_or_eq_of_le hupper with hbefore | hon
  · -- before the later update: both sides blend the two
    obtain ⟨f, hf⟩ : ∃ f, f = (sampleTime - e.toNat * tickDuration) / tickDuration := ⟨_, rfl⟩
    have hseen : seen = ⟨e, f⟩ := by
      rw [hf]
      exact seenTimeAt_between hpositive holdest hcovered hlower hbefore
    have hnonneg : 0 ≤ f := by
      rw [hf]
      exact div_nonneg (sub_nonneg.mpr hlower) hpositive.le
    have hlt : f < 1 := by
      rw [hf, div_lt_one hpositive]
      linarith
    obtain ⟨hreceived, hreceived'⟩ := receivedFraction_mem hnonneg
    simp only [seenTick, fraction, delay, history, hread] at hcap ⊢
    rw [hseen] at hcap ⊢
    dsimp only at hcap ⊢
    obtain ⟨htime, hkept, hcapacity⟩ := judged_time hreceived hreceived' (by linarith) hcap
    have hjudged := poseAt_recorded blendJoints poses first hcapacity
      (show first.toNat + (now.toNat - first.toNat) ≤ 2 ^ 64 by omega) hfirst (by omega) (by omega)
      hreceived hreceived' (by omega)
    rw [hspan, min_eq_left (by omega)] at hjudged
    have hshown : sampleRoot updates sampleTime =
        some (rootBetween (poses e.toNat).root (poses (e.toNat + 1)).root f) := by
      have hnext : ∀ next ∈ updates[k + 1]?, sampleTime < next.serverTime := by
        intro next hmem
        rw [hlater] at hmem
        rw [← Option.some_inj.mp hmem]
        exact hbefore
      rw [sampleRoot, sampleOf_eq hchronological hearlier hlower hnext, hlater]
      simp only [RootUpdate.betweenAt]
      rw [hf, add_mul, one_mul, add_sub_cancel_left]
    rw [htime]
    exact ⟨_, _, hjudged, hshown, rootBetween_apart blendJoints _ _ hnonneg hlt⟩
  · -- on the later update: shown it, and judged against its tick's pose
    have hnextTick : (e + 1).toNat = e.toNat + 1 := by
      rw [UInt64.toNat_add]
      exact Nat.mod_eq_of_lt (by
        have : (1 : UInt64).toNat = 1 := rfl
        omega)
    have hnextTime : serverTimeOf tickDuration (e + 1) = sampleTime := by
      rw [serverTimeOf, hnextTick, hon]
      push_cast
      rfl
    have hseen : seen = ⟨e + 1, 0⟩ := by
      have holdest' : oldest ≤ e + 1 :=
        UInt64.le_iff_toNat_le.mpr (by have := UInt64.le_iff_toNat_le.mp holdest; omega)
      have hbetween := seenTimeAt_between hpositive holdest'
        hcovered hnextTime.le (by
          rw [← hnextTime, serverTimeOf, add_mul, one_mul]
          linarith)
      rw [hnextTime, sub_self, zero_div] at hbetween
      exact hbetween
    have hzero : receivedFraction 0 = 0 := by
      have hround : roundEven (0 : ℚ) = 0 := by exact_mod_cast Lib.roundEven_intCast (𝕜 := ℚ) 0
      rw [receivedFraction_eq, zero_mul, hround]
      norm_num
    simp only [seenTick, fraction, delay, history, hread] at hcap ⊢
    rw [hseen, hzero] at hcap ⊢
    dsimp only at hcap ⊢
    obtain ⟨htime, hkept, hcapacity⟩ := judged_time le_rfl one_pos
      (by rw [hnextTick]; push_cast; linarith) hcap
    have hjudged := poseAt_recorded blendJoints poses first hcapacity
      (show first.toNat + (now.toNat - first.toNat) ≤ 2 ^ 64 by omega)
      (show first.toNat ≤ (e + 1).toNat by omega) (by omega) (by omega) (le_refl (0 : ℚ)) one_pos
      fun _ => rfl
    have hshown := sampleRoot_on hchronological hlater
    rw [← hon] at hshown
    have hroot := between_root_zero blendJoints (poses (e + 1).toNat)
      (poses (min ((e + 1).toNat + 1) (first.toNat + (now.toNat - first.toNat) - 1)))
    rw [hnextTick] at hroot
    rw [htime]
    refine ⟨_, _, hjudged, hshown, ⟨0, by norm_num, ?_, ?_⟩, ?_, ?_⟩
    · rw [zero_smul, add_zero, hnextTick, hroot]
    · rw [zero_mul, add_zero, hnextTick, hroot]
    · intro _
      rw [hnextTick, hroot]
    · intro _
      rw [hnextTick, hroot]

/-! ### One target, crouching -/

attribute [local instance] Lib.neZero_three in
/-- A target on the move that stands until tick 10 and crouches from then on. -/
def crouchingPose (tick : ℕ) : SkeletonPose ℚ Unit where
  root := ⟨fun axis => if axis = 0 then tick else 0, 0, if tick ≤ 10 then .standing else .crouching⟩
  joints := ()

/-- The updates of ticks 10 and 11. -/
def crouchingUpdates : List RootUpdate :=
  [⟨10 * (1 / 60), (crouchingPose 10).root⟩, ⟨11 * (1 / 60), (crouchingPose 11).root⟩]

theorem judged_as_shown_crouching :
    sampleRoot crouchingUpdates (41 / 4 * (1 / 60)) =
      ((PoseHistory.recorded (hitboxHistoryTicks 60) crouchingPose 1 12).poseAt
        (fun _ _ _ => ()) (41 / 4)).map (·.root) := by
  have hseen : seenTimeAt (41 / 4 * (1 / 60)) (1 / 60) 1 11 = ⟨10, 1 / 4⟩ := by decide +kernel
  have hfraction : receivedFraction (1 / 4) = 1 / 4 := by decide +kernel
  have hread : Link.seenRead 10 10 = 10 := by decide +kernel
  have hdelay : shootersDelay 13 10 (1 / 4) (maxShootersDelayTicks 60) = 11 / 4 := by decide +kernel
  have hearlier : crouchingUpdates[0]? =
      some ⟨(10 : Tick).toNat * (1 / 60), (crouchingPose (10 : Tick).toNat).root⟩ := by
    decide +kernel
  have hlater : crouchingUpdates[0 + 1]? =
      some ⟨((10 : Tick).toNat + 1) * (1 / 60), (crouchingPose ((10 : Tick).toNat + 1)).root⟩ := by
    decide +kernel
  have hlower : ((10 : Tick).toNat : ℚ) * (1 / 60) ≤ 41 / 4 * (1 / 60) := by decide +kernel
  have hfirst : (1 : Tick) ≤ 10 := by decide
  have hlast : (10 : Tick).toNat < (11 : Tick).toNat := by decide
  have hsent : (10 : Tick).toNat + 1 < (13 : Tick).toNat := by decide
  obtain ⟨judged, shown, hjudged, hshown, -, -, hgrid⟩ :=
    judged_as_shown (fun _ _ _ => ()) 60 (by norm_num) crouchingPose (by decide +kernel) hearlier
      hlater hlower (by decide +kernel) hfirst hlast hfirst hsent (by rw [hseen]; exact hread)
      (by rw [hseen, hread, hfraction, hdelay]; decide +kernel)
  rw [hseen, hread, hfraction, hdelay] at hjudged
  rw [hseen] at hgrid
  rw [hshown, hgrid hfraction, show (41 / 4 : ℚ) = ((13 : Tick).toNat : ℚ) - 11 / 4 by
    decide +kernel]
  exact (congrArg (Option.map (·.root)) hjudged).symm

/-- Seen a thousandth of a tick short of the middle, it is shown standing and judged crouching. -/
theorem judged_past_the_middle :
    let sampleTime : ℚ := 10499 / 1000 * (1 / 60)
    let seen := seenTimeAt sampleTime (1 / 60) 1 11
    let fraction := receivedFraction seen.fraction
    let delay := shootersDelay 13 (Link.seenRead 10 seen.tick) fraction (maxShootersDelayTicks 60)
    let history := PoseHistory.recorded (hitboxHistoryTicks 60) crouchingPose 1 12
    Link.seenRead 10 seen.tick = seen.tick ∧ fraction < 255 / 256 ∧
      delay < maxShootersDelayTicks 60 ∧
      (sampleRoot crouchingUpdates sampleTime).map (·.stance) = some .standing ∧
      (history.poseAt (fun _ _ _ => ()) (13 - delay)).map (·.root.stance) = some .crouching := by
  decide +kernel

end Augusta.Simulation
