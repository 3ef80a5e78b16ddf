import Augusta.Animation.Locomotion
import Augusta.Lib.Interpolation
import Mathlib.Analysis.SpecialFunctions.Trigonometric.Basic
import Mathlib.Tactic.Positivity

/-! A stance's blend space is a partition of the pose: its weights are some of 1, and as the body's
    velocity turns and quickens none of them jumps.

      circle   -π ── … ── 0 ── … ── π       backward at either end
      hat r     1 at r's own angle, 0 at every other                -/

namespace Augusta.Animation
open Lib (line interp)

section
variable {𝕜 : Type*} [Field 𝕜] [LinearOrder 𝕜]

/-- The directions round the circle: backward again at π. -/
def circle (kPi : 𝕜) (clips : StanceClips (Gait 𝕜)) : List (Direction 𝕜) :=
  directionsOf kPi clips ++ [backwardOf clips kPi]

/-- Two neighbours round the circle with `angle` between them. -/
structure Spans (kPi : 𝕜) (clips : StanceClips (Gait 𝕜)) (angle : 𝕜) (below above : Direction 𝕜) :
    Prop where
  next : ∃ before after, circle kPi clips = before ++ below :: above :: after
  below_le : below.angle ≤ angle
  le_above : angle ≤ above.angle

variable {kPi : 𝕜} {clips : StanceClips (Gait 𝕜)} {angle : 𝕜}

/-! ### The directions -/

omit [LinearOrder 𝕜] in
theorem mem_sidesOf {direction : Direction 𝕜} : direction ∈ sidesOf kPi clips ↔
    ∃ side ∈ sideClips kPi clips, side.2.1 = some direction.clip ∧
      side.1 = direction.role ∧ side.2.2 = direction.angle := by
  rw [sidesOf, List.mem_filterMap]
  constructor
  · rintro ⟨⟨role, clip, angle⟩, hside, hdirection⟩
    obtain ⟨clip, rfl, rfl⟩ := Option.map_eq_some_iff.mp hdirection
    exact ⟨_, hside, rfl, rfl, rfl⟩
  · rintro ⟨⟨role, clip, angle⟩, hside, rfl, rfl, rfl⟩
    exact ⟨_, hside, rfl⟩

omit [LinearOrder 𝕜] in
theorem forward_mem : (⟨.forward, clips.forward, 0⟩ : Direction 𝕜) ∈ sidesOf kPi clips :=
  mem_sidesOf.mpr ⟨(.forward, some clips.forward, 0), by simp [sideClips], rfl, rfl, rfl⟩

omit [LinearOrder 𝕜] in
theorem sides_roles : ∀ side ∈ sidesOf kPi clips, side.role ≠ .backward ∧ side.role ≠ .idle ∧
    side.role ≠ .sprint := by
  intro side hside
  obtain ⟨entry, hentry, -, hrole, -⟩ := mem_sidesOf.mp hside
  rw [← hrole]
  simp only [sideClips, List.mem_cons, List.not_mem_nil, or_false] at hentry
  rcases hentry with rfl | rfl | rfl | rfl | rfl | rfl | rfl <;> simp

omit [LinearOrder 𝕜] in
/-- What holds of the Clips a stance may have, one by one, holds of those it has. -/
theorem sides_pairwise {R : Direction 𝕜 → Direction 𝕜 → Prop}
    (h : (sideClips kPi clips).Pairwise fun a b => ∀ c d,
      R ⟨a.1, c, a.2.2⟩ ⟨b.1, d, b.2.2⟩) : (sidesOf kPi clips).Pairwise R := by
  rw [sidesOf, List.pairwise_filterMap]
  refine h.imp fun {a b} hab c hc d hd => ?_
  obtain ⟨clip, -, rfl⟩ := Option.map_eq_some_iff.mp hc
  obtain ⟨other, -, rfl⟩ := Option.map_eq_some_iff.mp hd
  exact hab clip other

omit [LinearOrder 𝕜] in
theorem sides_nodup : (sidesOf kPi clips).Pairwise fun a b => a.role ≠ b.role := by
  refine sides_pairwise ?_
  simp [sideClips]

variable [IsStrictOrderedRing 𝕜]

theorem sides_between (hPi : 0 < kPi) :
    ∀ side ∈ sidesOf kPi clips, -kPi < side.angle ∧ side.angle < kPi := by
  intro side hside
  obtain ⟨entry, hentry, -, -, hangle⟩ := mem_sidesOf.mp hside
  rw [← hangle]
  simp only [sideClips, List.mem_cons, List.not_mem_nil, or_false] at hentry
  rcases hentry with rfl | rfl | rfl | rfl | rfl | rfl | rfl <;>
    constructor <;> simp only [] <;> linarith

theorem circle_sorted (hPi : 0 < kPi) :
    (circle kPi clips).Pairwise fun a b => a.angle < b.angle := by
  have hsides : (sidesOf kPi clips).Pairwise fun a b => a.angle < b.angle := by
    refine sides_pairwise ?_
    simp only [sideClips, List.pairwise_cons, List.mem_cons, List.not_mem_nil, or_false,
      forall_eq_or_imp, forall_eq, IsEmpty.forall_iff, implies_true, List.Pairwise.nil, and_true]
    refine ⟨⟨?_, ?_, ?_, ?_, ?_, ?_⟩, ⟨?_, ?_, ?_, ?_, ?_⟩, ⟨?_, ?_, ?_, ?_⟩, ⟨?_, ?_, ?_⟩,
      ⟨?_, ?_⟩, ?_⟩ <;> intro _ _ <;> linarith
  rw [circle, directionsOf, List.cons_append, List.pairwise_cons, List.pairwise_append]
  refine ⟨fun direction hdirection => ?_, hsides, List.pairwise_singleton _ _, ?_⟩
  · rcases List.mem_append.mp hdirection with hside | hback
    · exact (sides_between hPi direction hside).1
    · rw [List.mem_singleton.mp hback]
      change -kPi < kPi
      linarith
  · intro side hside back hback
    rw [List.mem_singleton.mp hback]
    exact (sides_between hPi side hside).2

/-! ### The two either side -/

omit [Field 𝕜] [IsStrictOrderedRing 𝕜] in
/-- A search finds two neighbours, or `angle` is past them all. -/
theorem neighbours?_spec (first : Direction 𝕜) (rest : List (Direction 𝕜))
    (hfirst : first.angle ≤ angle) :
    (∃ before below above after, neighbours? angle (first :: rest) = some (below, above) ∧
      first :: rest = before ++ below :: above :: after ∧ below.angle ≤ angle ∧
        angle < above.angle) ∨
    neighbours? angle (first :: rest) = none ∧ (rest.getLastD first).angle ≤ angle := by
  induction rest generalizing first with
  | nil => exact .inr ⟨rfl, hfirst⟩
  | cons next rest ih =>
    rw [neighbours?]
    split_ifs with hhere
    · exact .inl ⟨[], first, next, rest, rfl, rfl, hhere⟩
    · have hnext : next.angle ≤ angle := not_lt.mp fun hlt => hhere ⟨hfirst, hlt⟩
      rcases ih next hnext with ⟨before, below, above, after, hfound, hsplit, hbetween⟩ |
        ⟨hnone, hlast⟩
      · exact .inl ⟨first :: before, below, above, after, hfound, by rw [hsplit]; rfl, hbetween⟩
      · refine .inr ⟨hnone, ?_⟩
        rw [List.getLastD_cons]
        exact hlast

omit [Field 𝕜] [LinearOrder 𝕜] [IsStrictOrderedRing 𝕜] in
theorem exists_append_getLastD {α : Type*} (first : α) (rest : List α) :
    ∃ before, first :: rest = before ++ [rest.getLastD first] := by
  induction rest generalizing first with
  | nil => exact ⟨[], rfl⟩
  | cons next rest ih =>
    obtain ⟨before, hbefore⟩ := ih next
    exact ⟨first :: before, by rw [List.getLastD_cons, List.cons_append, ← hbefore]⟩

omit [IsStrictOrderedRing 𝕜] in
/-- The directions of an angle are neighbours round the circle, and it is between them. -/
theorem neighboursOf_spans (hlow : -kPi ≤ angle) (hhigh : angle ≤ kPi) :
    Spans kPi clips angle (neighboursOf kPi clips angle).1 (neighboursOf kPi clips angle).2 := by
  rcases neighbours?_spec (backwardOf clips (-kPi)) (sidesOf kPi clips) hlow with
    ⟨before, below, above, after, hfound, hsplit, hbelow, habove⟩ | ⟨hnone, hlast⟩
  · have hat : neighboursOf kPi clips angle = (below, above) := by
      rw [neighboursOf, directionsOf, hfound]
      rfl
    rw [hat]
    refine ⟨⟨before, after ++ [backwardOf clips kPi], ?_⟩, hbelow, habove.le⟩
    rw [circle, directionsOf, hsplit, List.append_assoc]
    rfl
  · have hat : neighboursOf kPi clips angle =
        ((sidesOf kPi clips).getLastD (backwardOf clips (-kPi)), backwardOf clips kPi) := by
      rw [neighboursOf, directionsOf, hnone]
      rfl
    rw [hat]
    obtain ⟨before, hbefore⟩ := exists_append_getLastD (backwardOf clips (-kPi)) (sidesOf kPi clips)
    refine ⟨⟨before, [], ?_⟩, hlast, hhigh⟩
    rw [circle, directionsOf, hbefore, List.append_assoc]
    rfl

theorem Spans.lt (hPi : 0 < kPi) {below above : Direction 𝕜}
    (h : Spans kPi clips angle below above) : below.angle < above.angle := by
  obtain ⟨before, after, hsplit⟩ := h.next
  have hsorted := @circle_sorted 𝕜 _ _ kPi clips _ hPi
  rw [hsplit, List.pairwise_append] at hsorted
  exact (List.pairwise_cons.mp hsorted.2.1).1 above (List.mem_cons_self ..)

/-- Every other direction is further round, on one side or the other. -/
theorem Spans.nearest (hPi : 0 < kPi) {below above : Direction 𝕜}
    (h : Spans kPi clips angle below above) :
    ∀ other ∈ circle kPi clips, other.angle ≤ below.angle ∨ above.angle ≤ other.angle := by
  obtain ⟨before, after, hsplit⟩ := h.next
  have hsorted := @circle_sorted 𝕜 _ _ kPi clips _ hPi
  rw [hsplit, List.pairwise_append, List.pairwise_cons, List.pairwise_cons] at hsorted
  intro other hother
  rw [hsplit, List.mem_append, List.mem_cons, List.mem_cons] at hother
  rcases hother with hbefore | rfl | rfl | hafter
  · exact .inl (hsorted.2.2 other hbefore below (List.mem_cons_self ..)).le
  · exact .inl le_rfl
  · exact .inr le_rfl
  · exact .inr (hsorted.2.1.2.1 other hafter).le

omit [LinearOrder 𝕜] [IsStrictOrderedRing 𝕜] in
/-- No Clip is on both sides. -/
theorem Spans.roles_ne [LinearOrder 𝕜] {below above : Direction 𝕜}
    (h : Spans kPi clips angle below above) : below.role ≠ above.role := by
  obtain ⟨before, after, hsplit⟩ := h.next
  have hside : sidesOf kPi clips ≠ [] := List.ne_nil_of_mem forward_mem
  rw [circle, directionsOf, List.cons_append] at hsplit
  cases before with
  | nil =>
    rw [List.nil_append, List.cons.injEq] at hsplit
    obtain ⟨hbelow, hrest⟩ := hsplit
    cases hsides : sidesOf kPi clips with
    | nil => exact absurd hsides hside
    | cons side sides =>
      rw [hsides, List.cons_append, List.cons.injEq] at hrest
      have hne := (sides_roles side (by rw [hsides]; exact List.mem_cons_self ..)).1
      rw [← hbelow, ← hrest.1]
      exact hne.symm
  | cons front before =>
    rw [List.cons_append, List.cons.injEq] at hsplit
    cases after using List.reverseRecOn with
    | nil =>
      have hends : sidesOf kPi clips ++ [backwardOf clips kPi] = (before ++ [below]) ++ [above] := by
        rw [hsplit.2, List.append_assoc]
        rfl
      obtain ⟨hsides, habove⟩ := List.append_inj' hends rfl
      obtain rfl := List.singleton_inj.mp habove
      exact (sides_roles below (by rw [hsides]; simp)).1
    | append_singleton after last _ =>
      have hends : sidesOf kPi clips ++ [backwardOf clips kPi] =
          (before ++ below :: above :: after) ++ [last] := by
        rw [hsplit.2, List.append_assoc]
        rfl
      obtain ⟨hsides, -⟩ := List.append_inj' hends rfl
      have hnodup := @sides_nodup 𝕜 _ kPi clips
      rw [hsides, List.pairwise_append, List.pairwise_cons] at hnodup
      exact hnodup.2.1.1 above (List.mem_cons_self ..)

/-! ### Shares -/

/-- What is asked of a stance's Clips: no stride is negative, no duration is none, and idle takes a
    body nowhere. -/
structure Sound (clips : StanceClips (Gait 𝕜)) : Prop where
  idle : clips.idle.strideLength = 0
  forward : 0 ≤ clips.forward.strideLength ∧ 0 < clips.forward.duration
  backward : 0 ≤ clips.backward.strideLength ∧ 0 < clips.backward.duration
  sides : ∀ entry ∈ sideClips (1 : 𝕜) clips, ∀ clip, entry.2.1 = some clip →
    0 ≤ clip.strideLength ∧ 0 < clip.duration
  sprint : ∀ clip, clips.sprint = some clip → 0 ≤ clip.strideLength ∧ 0 < clip.duration

theorem speedOf_nonneg {clip : Gait 𝕜} (h : 0 ≤ clip.strideLength) : 0 ≤ speedOf clip := by
  rw [speedOf]
  split_ifs with hpos
  · exact div_nonneg h hpos.le
  · exact le_rfl

/-- How far an angle is between its neighbours, and what they move a body at. -/
structure Between (kPi : 𝕜) (clips : StanceClips (Gait 𝕜)) (angle : 𝕜) (below above : Direction 𝕜)
    (toward speed : 𝕜) : Prop where
  spans : Spans kPi clips angle below above
  neighbours : neighboursOf kPi clips angle = (below, above)
  toward_eq : towardAbove kPi clips angle = toward
  speed_eq : clipSpeed kPi clips angle = speed
  ratio : toward = (angle - below.angle) / (above.angle - below.angle)
  toward_nonneg : 0 ≤ toward
  toward_le : toward ≤ 1
  own : speed = (1 - toward) * speedOf below.clip + toward * speedOf above.clip

theorem exists_between (hPi : 0 < kPi) (hlow : -kPi ≤ angle) (hhigh : angle ≤ kPi) :
    ∃ below above toward speed, Between kPi clips angle below above toward speed := by
  obtain ⟨below, above, hneighbours⟩ : ∃ below above, neighboursOf kPi clips angle = (below, above) :=
    ⟨_, _, rfl⟩
  have hspans := @neighboursOf_spans 𝕜 _ _ kPi clips angle hlow hhigh
  rw [hneighbours] at hspans
  have hwide : 0 < above.angle - below.angle := sub_pos.mpr (hspans.lt hPi)
  refine ⟨below, above, (angle - below.angle) / (above.angle - below.angle), _, hspans, hneighbours,
    ?_, ?_, rfl, div_nonneg (sub_nonneg.mpr hspans.below_le) hwide.le, ?_, rfl⟩
  · rw [towardAbove, hneighbours]
  · rw [clipSpeed, towardAbove, hneighbours]
  · rw [div_le_one hwide]
    have := hspans.le_above
    linarith

variable {below above : Direction 𝕜} {toward own speed : 𝕜}

/-- How much of the pose moves, of a body at `speed` between Clips that move at `own`. -/
def movingAt (speed own : 𝕜) : 𝕜 := speed / max speed own

theorem movingAt_bounds (hspeed : 0 < speed) :
    0 < movingAt speed own ∧ movingAt speed own ≤ 1 := by
  have hmax : 0 < max speed own := lt_max_of_lt_left hspeed
  exact ⟨div_pos hspeed hmax, (div_le_one hmax).mpr (le_max_left ..)⟩

omit [IsStrictOrderedRing 𝕜] in
theorem moved_eq (h : Between kPi clips angle below above toward own) (hspeed : 0 < speed) :
    moved kPi clips speed angle = ⟨1 - movingAt speed own, (1 - toward) * movingAt speed own,
      toward * movingAt speed own, 0⟩ := by
  rw [moved, h.toward_eq, h.speed_eq, movingAt]
  simp only
  split_ifs with hslow
  · rw [max_eq_right hslow.2.le]
  · have hmax : max speed own = speed := by
      refine max_eq_left (not_lt.mp fun hlt => hslow ⟨hspeed.trans hlt, hlt⟩)
    rw [hmax, div_self hspeed.ne', sub_self, mul_one, mul_one]

/-- How much of forward's share is sprint's. -/
def sprintingAt (clips : StanceClips (Gait 𝕜)) (speed own : 𝕜) : 𝕜 :=
  match clips.sprint with
  | none => 0
  | some sprint => towardSprint sprint own speed

theorem sprintingAt_bounds (clips : StanceClips (Gait 𝕜)) (speed own : 𝕜) :
    0 ≤ sprintingAt clips speed own ∧ sprintingAt clips speed own ≤ 1 := by
  rw [sprintingAt]
  cases clips.sprint with
  | none => exact ⟨le_rfl, zero_le_one⟩
  | some sprint =>
    simp only [towardSprint]
    split_ifs with hfast
    · exact ⟨le_min (div_nonneg (sub_pos.mpr hfast.1).le (sub_pos.mpr hfast.2).le) zero_le_one,
        min_le_right ..⟩
    · exact ⟨le_rfl, zero_le_one⟩

/-- What sprint leaves of the share of a Clip. -/
def keptOf (role : Role) (sprinting : 𝕜) : 𝕜 := if role = .forward then 1 - sprinting else 1

/-- What sprint takes of it. -/
def givenOf (role : Role) (sprinting : 𝕜) : 𝕜 := if role = .forward then sprinting else 0

omit [IsStrictOrderedRing 𝕜] in
theorem sprinted_eq (h : Between kPi clips angle below above toward own) (hspeed : 0 < speed) :
    sprinted kPi clips speed angle =
      ⟨1 - movingAt speed own,
        (1 - toward) * movingAt speed own * keptOf below.role (sprintingAt clips speed own),
        toward * movingAt speed own * keptOf above.role (sprintingAt clips speed own),
        (1 - toward) * movingAt speed own * givenOf below.role (sprintingAt clips speed own) +
          toward * movingAt speed own * givenOf above.role (sprintingAt clips speed own)⟩ := by
  have hne := h.spans.roles_ne
  rw [sprinted, h.neighbours, moved_eq h hspeed, h.speed_eq, sprintingAt]
  simp only [keptOf, givenOf]
  cases clips.sprint with
  | none => simp
  | some sprint =>
    simp only
    generalize towardSprint sprint own speed = given
    split_ifs with hbelow habove habove
    · exact absurd (hbelow.trans habove.symm) hne
    · simp only [Shares.mk.injEq, true_and]
      refine ⟨by ring, by ring, by ring⟩
    · simp only [Shares.mk.injEq, true_and]
      refine ⟨by ring, by ring, by ring⟩
    · simp

/-! ### The blend -/

/-- The Clips that may make a pose, each by its share. -/
def partsOf (clips : StanceClips (Gait 𝕜)) (below above : Direction 𝕜) (shares : Shares 𝕜) :
    List (ClipWeight 𝕜) :=
  [⟨.idle, clips.idle, shares.idle⟩, ⟨below.role, below.clip, shares.below⟩,
    ⟨above.role, above.clip, shares.above⟩] ++
  (clips.sprint.map fun sprint => ⟨.sprint, sprint, shares.sprint⟩).toList

omit [IsStrictOrderedRing 𝕜] in
theorem add_eq (role : Role) (clip : Gait 𝕜) (weight : 𝕜) (blend : List (ClipWeight 𝕜)) :
    add role clip weight blend =
      blend ++ [(⟨role, clip, weight⟩ : ClipWeight 𝕜)].filter fun each => 0 < each.weight := by
  rw [add]
  split_ifs with hpos
  · rw [List.filter_cons_of_pos (by simpa using hpos), List.filter_nil]
  · rw [List.filter_cons_of_neg (by simpa using hpos), List.filter_nil, List.append_nil]

omit [IsStrictOrderedRing 𝕜] in
/-- A body on the move: of the Clips that may make its pose, those that do. -/
theorem blendSpace_eq (h : Between kPi clips angle below above toward own)
    (hspeed : kStill ≤ speed) : blendSpace kPi clips speed angle =
      (partsOf clips below above (sprinted kPi clips speed angle)).filter
        fun each => 0 < each.weight := by
  rw [blendSpace, if_neg (not_lt.mpr hspeed), h.neighbours, partsOf, List.filter_append]
  simp only [add_eq, List.nil_append]
  cases clips.sprint with
  | none =>
    simp only [Option.map_none, Option.toList_none, List.filter_nil, List.append_nil]
    rw [← List.filter_append, ← List.filter_append]
    rfl
  | some sprint =>
    simp only [Option.map_some, Option.toList_some]
    rw [← List.filter_append, ← List.filter_append]
    rfl

omit [IsStrictOrderedRing 𝕜] in
/-- What makes none of a pose adds nothing to it. -/
theorem sum_filter_pos {parts : List (ClipWeight 𝕜)} (hnonneg : ∀ part ∈ parts, 0 ≤ part.weight)
    (worth : ClipWeight 𝕜 → 𝕜) :
    ((parts.filter fun each => 0 < each.weight).map fun each => each.weight * worth each).sum =
      (parts.map fun each => each.weight * worth each).sum := by
  induction parts with
  | nil => rfl
  | cons part rest ih =>
    have hrest := ih fun other hother => hnonneg other (List.mem_cons_of_mem _ hother)
    by_cases hpos : 0 < part.weight
    · rw [List.filter_cons_of_pos (by simpa using hpos), List.map_cons, List.sum_cons, hrest,
        List.map_cons, List.sum_cons]
    · have hzero : part.weight = 0 :=
        le_antisymm (not_lt.mp hpos) (hnonneg part (List.mem_cons_self ..))
      rw [List.filter_cons_of_neg (by simpa using hpos), hrest, List.map_cons, List.sum_cons, hzero,
        zero_mul, zero_add]

omit [IsStrictOrderedRing 𝕜] [LinearOrder 𝕜] in
theorem weightOf_eq [LinearOrder 𝕜] (blend : List (ClipWeight 𝕜)) (role : Role) :
    weightOf blend role =
      (blend.map fun each => each.weight * if each.role = role then 1 else 0).sum := by
  rw [weightOf]
  induction blend with
  | nil => rfl
  | cons each rest ih =>
    by_cases hrole : each.role = role
    · rw [List.filter_cons_of_pos (by simpa using hrole), List.map_cons, List.sum_cons, ih,
        List.map_cons, List.sum_cons, if_pos hrole, mul_one]
    · rw [List.filter_cons_of_neg (by simpa using hrole), ih, List.map_cons, List.sum_cons,
        if_neg hrole, mul_zero, zero_add]

theorem keptOf_bounds (role : Role) : 0 ≤ keptOf role (sprintingAt clips speed own) ∧
    0 ≤ givenOf role (sprintingAt clips speed own) ∧
    keptOf role (sprintingAt clips speed own) + givenOf role (sprintingAt clips speed own) = 1 := by
  obtain ⟨hnonneg, hle⟩ := sprintingAt_bounds clips speed own
  rw [keptOf, givenOf]
  split_ifs
  · exact ⟨sub_nonneg.mpr hle, hnonneg, sub_add_cancel 1 _⟩
  · exact ⟨zero_le_one, le_rfl, add_zero 1⟩

/-- The shares are parts of 1. -/
theorem shares_whole (h : Between kPi clips angle below above toward own) (hspeed : 0 < speed) :
    let shares := sprinted kPi clips speed angle
    0 ≤ shares.idle ∧ 0 ≤ shares.below ∧ 0 ≤ shares.above ∧ 0 ≤ shares.sprint ∧
      shares.idle + shares.below + shares.above + shares.sprint = 1 := by
  obtain ⟨hmoving, hmost⟩ := @movingAt_bounds 𝕜 _ _ _ own speed hspeed
  obtain ⟨hkeep, hgive, hall⟩ := @keptOf_bounds 𝕜 _ _ clips _ own speed below.role
  obtain ⟨hkeep', hgive', hall'⟩ := @keptOf_bounds 𝕜 _ _ clips _ own speed above.role
  have hleft := sub_nonneg.mpr h.toward_le
  have hright := h.toward_nonneg
  simp only [sprinted_eq h hspeed]
  refine ⟨sub_nonneg.mpr hmost, by positivity, by positivity, by positivity, ?_⟩
  linear_combination (1 - toward) * movingAt speed own * hall + toward * movingAt speed own * hall'

/-- What a blend comes to, part by part. -/
theorem sum_blendSpace (h : Between kPi clips angle below above toward own)
    (hspeed : kStill ≤ speed) (worth : ClipWeight 𝕜 → 𝕜) :
    ((blendSpace kPi clips speed angle).map fun each => each.weight * worth each).sum =
      ((partsOf clips below above (sprinted kPi clips speed angle)).map
        fun each => each.weight * worth each).sum := by
  have hpos : 0 < speed := lt_of_lt_of_le (by rw [kStill]; positivity) hspeed
  obtain ⟨hidle, hbelow, habove, hsprint, -⟩ := shares_whole h hpos
  rw [blendSpace_eq h hspeed, sum_filter_pos]
  intro part hpart
  simp only [partsOf, List.mem_append, List.mem_cons, List.not_mem_nil, or_false,
    Option.mem_toList, Option.map_eq_some_iff] at hpart
  rcases hpart with (rfl | rfl | rfl) | ⟨sprint, -, rfl⟩
  · exact hidle
  · exact hbelow
  · exact habove
  · exact hsprint

/-! ### A partition -/

/-- The Clip of a role a stance has. -/
def clipOf (clips : StanceClips (Gait 𝕜)) : Role → Option (Gait 𝕜)
  | .idle => some clips.idle
  | .forward => some clips.forward
  | .backward => some clips.backward
  | .left => clips.left
  | .right => clips.right
  | .forwardLeft => clips.forwardLeft
  | .forwardRight => clips.forwardRight
  | .backwardLeft => clips.backwardLeft
  | .backwardRight => clips.backwardRight
  | .sprint => clips.sprint

/-- A few of a stance's Clips, each once, that make the whole of a pose between them. -/
structure Partition (clips : StanceClips (Gait 𝕜)) (blend : List (ClipWeight 𝕜)) : Prop where
  few : blend.length ≤ kMaxBlendedClips
  share : ∀ each ∈ blend, 0 < each.weight ∧ each.weight ≤ 1
  whole : (blend.map (·.weight)).sum = 1
  once : (blend.map (·.role)).Nodup
  theirs : ∀ each ∈ blend, clipOf clips each.role = some each.clip

omit [LinearOrder 𝕜] [IsStrictOrderedRing 𝕜] in
theorem circle_theirs [LinearOrder 𝕜] : ∀ direction ∈ circle kPi clips,
    clipOf clips direction.role = some direction.clip ∧ direction.role ≠ .idle ∧
      direction.role ≠ .sprint := by
  intro direction hdirection
  rw [circle, directionsOf, List.cons_append, List.mem_cons, List.mem_append,
    List.mem_singleton] at hdirection
  rcases hdirection with rfl | hside | rfl
  · exact ⟨rfl, by simp [backwardOf], by simp [backwardOf]⟩
  · refine ⟨?_, (sides_roles direction hside).2⟩
    obtain ⟨entry, hentry, hclip, hrole, -⟩ := mem_sidesOf.mp hside
    rw [← hclip, ← hrole]
    simp only [sideClips, List.mem_cons, List.not_mem_nil, or_false] at hentry
    rcases hentry with rfl | rfl | rfl | rfl | rfl | rfl | rfl <;> rfl
  · exact ⟨rfl, by simp [backwardOf], by simp [backwardOf]⟩

omit [IsStrictOrderedRing 𝕜] in
theorem Spans.mem (h : Spans kPi clips angle below above) :
    below ∈ circle kPi clips ∧ above ∈ circle kPi clips := by
  obtain ⟨before, after, hsplit⟩ := h.next
  rw [hsplit]
  exact ⟨by simp, by simp⟩

/-- A weight of a whole is no more than the whole. -/
theorem le_sum_of_mem {blend : List (ClipWeight 𝕜)} (hnonneg : ∀ each ∈ blend, 0 ≤ each.weight)
    {each : ClipWeight 𝕜} (h : each ∈ blend) : each.weight ≤ (blend.map (·.weight)).sum := by
  refine List.single_le_sum (fun weight hweight => ?_) _ (List.mem_map_of_mem h)
  obtain ⟨other, hother, rfl⟩ := List.mem_map.mp hweight
  exact hnonneg other hother

theorem partition_blendSpace (hPi : 0 < kPi) (hlow : -kPi ≤ angle) (hhigh : angle ≤ kPi)
    (speed : 𝕜) : Partition clips (blendSpace kPi clips speed angle) := by
  by_cases hstill : speed < kStill
  · rw [blendSpace, if_pos hstill, add, if_pos zero_lt_one]
    refine ⟨by simp [kMaxBlendedClips], ?_, by simp, by simp, ?_⟩
    · intro each heach
      rw [List.mem_singleton.mp heach]
      exact ⟨zero_lt_one, le_rfl⟩
    · intro each heach
      rw [List.mem_singleton.mp heach]
      rfl
  · have hspeed := not_lt.mp hstill
    have hpos : 0 < speed := lt_of_lt_of_le (by rw [kStill]; positivity) hspeed
    obtain ⟨below, above, toward, own, h⟩ := @exists_between 𝕜 _ _ kPi clips angle _ hPi hlow hhigh
    obtain ⟨hbelow, habove⟩ := h.spans.mem
    obtain ⟨hbelow, hbelowIdle, hbelowSprint⟩ := circle_theirs below hbelow
    obtain ⟨habove, haboveIdle, haboveSprint⟩ := circle_theirs above habove
    have hsublist : (blendSpace kPi clips speed angle).Sublist
        (partsOf clips below above (sprinted kPi clips speed angle)) := by
      rw [blendSpace_eq h hspeed]
      exact List.filter_sublist
    have hweights : ∀ each ∈ blendSpace kPi clips speed angle, 0 < each.weight := by
      intro each heach
      rw [blendSpace_eq h hspeed, List.mem_filter, decide_eq_true_eq] at heach
      exact heach.2
    have hwhole : ((blendSpace kPi clips speed angle).map (·.weight)).sum = 1 := by
      have hsum := sum_blendSpace h hspeed fun _ => 1
      simp only [mul_one] at hsum
      rw [hsum]
      obtain ⟨-, -, -, -, hall⟩ := shares_whole h hpos
      rw [← hall, partsOf]
      cases hsprint : clips.sprint with
      | none =>
        have hnone : (sprinted kPi clips speed angle).sprint = 0 := by
          rw [sprinted_eq h hpos, sprintingAt, hsprint]
          simp [givenOf]
        simp [hnone, add_assoc]
      | some sprint => simp [add_assoc]
    refine ⟨?_, fun each heach => ⟨hweights each heach, ?_⟩, hwhole, ?_, ?_⟩
    · refine hsublist.length_le.trans ?_
      rw [partsOf]
      cases clips.sprint <;> simp [kMaxBlendedClips]
    · rw [← hwhole]
      exact le_sum_of_mem (fun other hother => (hweights other hother).le) heach
    · refine List.Nodup.sublist (hsublist.map _) ?_
      have hne := h.spans.roles_ne
      rw [partsOf]
      cases clips.sprint with
      | none => simp [hbelowIdle.symm, haboveIdle.symm, hne]
      | some sprint => simp [hbelowIdle.symm, haboveIdle.symm, hne, hbelowSprint, haboveSprint]
    · intro each heach
      have hin := hsublist.subset heach
      simp only [partsOf, List.mem_append, List.mem_cons, List.not_mem_nil, or_false,
        Option.mem_toList, Option.map_eq_some_iff] at hin
      rcases hin with (rfl | rfl | rfl) | ⟨sprint, hsprint, rfl⟩
      · rfl
      · exact hbelow
      · exact habove
      · exact hsprint

/-- At a speed the two directions can make up, the blended Clips move a body as fast as it goes. -/
theorem blended_speed (hsound : Sound clips) (h : Between kPi clips angle below above toward own)
    (hspeed : kStill ≤ speed) (hslow : speed ≤ own) :
    ((blendSpace kPi clips speed angle).map fun each => each.weight * speedOf each.clip).sum =
      speed := by
  have hpos : 0 < speed := lt_of_lt_of_le (by rw [kStill]; positivity) hspeed
  have hidle : speedOf clips.idle = 0 := by
    rw [speedOf, hsound.idle, zero_div, ite_self]
  have hsprinting : sprintingAt clips speed own = 0 := by
    rw [sprintingAt]
    cases clips.sprint with
    | none => rfl
    | some sprint => exact if_neg fun hfast => absurd hfast.1 (not_lt.mpr hslow)
  have hmoving : movingAt speed own * own = speed := by
    rw [movingAt, max_eq_right hslow, div_mul_cancel₀ _ (hpos.trans_le hslow).ne']
  have hgiven (role : Role) : givenOf role (0 : 𝕜) = 0 := ite_self _
  have hkept (role : Role) : keptOf role (0 : 𝕜) = 1 := by simp [keptOf]
  rw [sum_blendSpace h hspeed, sprinted_eq h hpos, hsprinting, partsOf]
  simp only [hgiven, hkept, mul_one, mul_zero, add_zero]
  have hsum : (1 - toward) * movingAt speed own * speedOf below.clip +
      toward * movingAt speed own * speedOf above.clip = speed := by
    linear_combination hmoving - movingAt speed own * h.own
  cases clips.sprint with
  | none => simpa [hidle] using hsum
  | some sprint => simpa [hidle] using hsum

/-! ### Nothing jumps -/

/-- How much of the direction of an angle is a Clip's: all of it at its own, none at any other. -/
def hatAt (kPi : 𝕜) (clips : StanceClips (Gait 𝕜)) (role : Role) (angle : 𝕜) : 𝕜 :=
  interp ((circle kPi clips).map fun direction =>
    (direction.angle, if direction.role = role then 1 else 0)) angle

/-- What the directions of an angle move a body at. -/
def ownAt (kPi : 𝕜) (clips : StanceClips (Gait 𝕜)) (angle : 𝕜) : 𝕜 :=
  interp ((circle kPi clips).map fun direction => (direction.angle, speedOf direction.clip)) angle

/-- The weight of a Clip, with no search in it. -/
def smoothAt (kPi : 𝕜) (clips : StanceClips (Gait 𝕜)) (role : Role) (speed angle : 𝕜) : 𝕜 :=
  let moving := movingAt speed (ownAt kPi clips angle)
  let sprinting := sprintingAt clips speed (ownAt kPi clips angle)
  if role = .idle then 1 - moving
  else if role = .sprint then hatAt kPi clips .forward angle * moving * sprinting
  else hatAt kPi clips role angle * moving * keptOf role sprinting

theorem sorted_map (hPi : 0 < kPi) (value : Direction 𝕜 → 𝕜) :
    ((circle kPi clips).map fun direction => (direction.angle, value direction)).Pairwise
      fun a b => a.1 < b.1 :=
  List.pairwise_map.mpr (circle_sorted hPi)

theorem interp_circle (hPi : 0 < kPi) (h : Between kPi clips angle below above toward own)
    (value : Direction 𝕜 → 𝕜) :
    interp ((circle kPi clips).map fun direction => (direction.angle, value direction)) angle =
      (1 - toward) * value below + toward * value above := by
  obtain ⟨before, after, hsplit⟩ := h.spans.next
  have hsorted := @sorted_map 𝕜 _ _ kPi clips _ hPi value
  rw [hsplit, List.map_append, List.map_cons, List.map_cons] at hsorted ⊢
  rw [Lib.interp_between hsorted h.spans.below_le h.spans.le_above, line, h.ratio]

theorem weightOf_blendSpace (hPi : 0 < kPi) (hlow : -kPi ≤ angle) (hhigh : angle ≤ kPi)
    (hspeed : kStill ≤ speed) (role : Role) :
    weightOf (blendSpace kPi clips speed angle) role = smoothAt kPi clips role speed angle := by
  have hpos : 0 < speed := lt_of_lt_of_le (by rw [kStill]; positivity) hspeed
  obtain ⟨below, above, toward, own, h⟩ := @exists_between 𝕜 _ _ kPi clips angle _ hPi hlow hhigh
  obtain ⟨hbelow, habove⟩ := h.spans.mem
  obtain ⟨-, hbelowIdle, hbelowSprint⟩ := circle_theirs below hbelow
  obtain ⟨-, haboveIdle, haboveSprint⟩ := circle_theirs above habove
  have hown : ownAt kPi clips angle = own :=
    (interp_circle hPi h fun direction => speedOf direction.clip).trans h.own.symm
  have hhat (role : Role) : hatAt kPi clips role angle =
      (1 - toward) * (if below.role = role then 1 else 0) +
        toward * (if above.role = role then 1 else 0) :=
    interp_circle hPi h fun direction => if direction.role = role then 1 else 0
  have hparts : weightOf (blendSpace kPi clips speed angle) role =
      (1 - movingAt speed own) * (if Role.idle = role then 1 else 0) +
      (1 - toward) * movingAt speed own * keptOf below.role (sprintingAt clips speed own) *
        (if below.role = role then 1 else 0) +
      toward * movingAt speed own * keptOf above.role (sprintingAt clips speed own) *
        (if above.role = role then 1 else 0) +
      ((1 - toward) * movingAt speed own * givenOf below.role (sprintingAt clips speed own) +
        toward * movingAt speed own * givenOf above.role (sprintingAt clips speed own)) *
          (if Role.sprint = role then 1 else 0) := by
    rw [weightOf_eq, sum_blendSpace h hspeed, sprinted_eq h hpos, partsOf]
    cases hsprint : clips.sprint with
    | none =>
      have hnone : sprintingAt clips speed own = 0 := by rw [sprintingAt, hsprint]
      simp [hnone, givenOf, add_assoc]
    | some sprint => simp [add_assoc]
  rw [hparts, smoothAt, hown, hhat, hhat]
  by_cases hidle : role = .idle
  · rw [hidle]
    simp [hbelowIdle, haboveIdle]
  by_cases hsprint : role = .sprint
  · rw [hsprint]
    simp only [hbelowSprint, haboveSprint, if_false, reduceCtorEq, if_true, mul_zero, mul_one,
      zero_add, givenOf]
    split_ifs <;> ring
  · rw [if_neg hidle, if_neg hsprint, if_neg (Ne.symm hidle), if_neg (Ne.symm hsprint)]
    by_cases hhere : below.role = role
    · have hthere : above.role ≠ role := fun hsame => h.spans.roles_ne (hhere.trans hsame.symm)
      rw [if_pos hhere, if_neg hthere, hhere]
      ring
    · rw [if_neg hhere]
      by_cases hthere : above.role = role
      · rw [if_pos hthere, hthere]
        ring
      · rw [if_neg hthere]
        ring

/-- It is the same Clip, all of it, at either end of the circle. -/
theorem interp_seam (hPi : 0 < kPi) (value : Direction 𝕜 → 𝕜)
    (hback : value (backwardOf clips (-kPi)) = value (backwardOf clips kPi)) :
    interp ((circle kPi clips).map fun direction => (direction.angle, value direction)) (-kPi) =
      interp ((circle kPi clips).map fun direction => (direction.angle, value direction)) kPi := by
  have hsorted := @sorted_map 𝕜 _ _ kPi clips _ hPi value
  obtain ⟨before, hbefore⟩ := exists_append_getLastD (backwardOf clips (-kPi)) (sidesOf kPi clips)
  have hend : circle kPi clips = before ++ (sidesOf kPi clips).getLastD (backwardOf clips (-kPi)) ::
      backwardOf clips kPi :: [] := by
    rw [circle, directionsOf, hbefore, List.append_assoc]
    rfl
  have hlast : ((sidesOf kPi clips).getLastD (backwardOf clips (-kPi))).angle <
      (backwardOf clips kPi).angle := by
    have hall := @circle_sorted 𝕜 _ _ kPi clips _ hPi
    rw [hend, List.pairwise_append] at hall
    exact (List.pairwise_cons.mp hall.2.1).1 _ (List.mem_cons_self ..)
  have hright : interp ((circle kPi clips).map fun direction => (direction.angle, value direction))
      kPi = value (backwardOf clips kPi) := by
    rw [hend, List.map_append, List.map_cons, List.map_cons] at hsorted ⊢
    exact (Lib.interp_between hsorted hlast.le le_rfl).trans
      (@Lib.line_right 𝕜 _ _ (_, value _) (kPi, value (backwardOf clips kPi)) hlast)
  rw [hright, ← hback]
  rw [circle, directionsOf, List.cons_append, List.map_cons] at hsorted ⊢
  exact Lib.interp_left hsorted le_rfl

theorem smoothAt_seam (hPi : 0 < kPi) (role : Role) (speed : 𝕜) :
    smoothAt kPi clips role speed (-kPi) = smoothAt kPi clips role speed kPi := by
  have hown : ownAt kPi clips (-kPi) = ownAt kPi clips kPi :=
    interp_seam hPi (fun direction => speedOf direction.clip) rfl
  have hhat (role : Role) : hatAt kPi clips role (-kPi) = hatAt kPi clips role kPi :=
    interp_seam hPi (fun direction => if direction.role = role then 1 else 0) rfl
  rw [smoothAt, smoothAt, hown, hhat, hhat]

section
variable [TopologicalSpace 𝕜] [OrderTopology 𝕜]

/-- Sprint, where there is one, is faster than every directional Clip. -/
def Outruns (kPi : 𝕜) (clips : StanceClips (Gait 𝕜)) : Prop :=
  ∀ sprint, clips.sprint = some sprint → ∀ direction ∈ directionsOf kPi clips,
    speedOf direction.clip < speedOf sprint

omit [IsStrictOrderedRing 𝕜] [TopologicalSpace 𝕜] [OrderTopology 𝕜] in
theorem Outruns.circle (h : Outruns kPi clips) {sprint : Gait 𝕜} (hsprint : clips.sprint = some sprint) :
    ∀ direction ∈ circle kPi clips, speedOf direction.clip < speedOf sprint := by
  intro direction hdirection
  rcases List.mem_append.mp hdirection with hin | hback
  · exact h sprint hsprint direction hin
  · rw [List.mem_singleton.mp hback]
    exact h sprint hsprint (backwardOf clips (-kPi)) (List.mem_cons_self ..)

/-- The velocities of a body on the move. -/
def onTheMove : Set (𝕜 × 𝕜) := {velocity | kStill ≤ velocity.1}

theorem continuousOn_moving (hPi : 0 < kPi) :
    ContinuousOn (fun velocity : 𝕜 × 𝕜 => movingAt velocity.1 (ownAt kPi clips velocity.2))
      onTheMove := by
  have hown : Continuous fun velocity : 𝕜 × 𝕜 => ownAt kPi clips velocity.2 :=
    (Lib.continuous_interp (sorted_map hPi _)).comp continuous_snd
  refine ContinuousOn.div continuousOn_fst (continuous_fst.max hown).continuousOn fun velocity h => ?_
  have hpos : (0 : 𝕜) < velocity.1 := lt_of_lt_of_le (by rw [kStill]; positivity) h
  exact (lt_max_of_lt_left hpos).ne'

theorem continuous_sprinting (hPi : 0 < kPi) (hsound : Sound clips)
    (hfast : Outruns kPi clips) :
    Continuous fun velocity : 𝕜 × 𝕜 => sprintingAt clips velocity.1 (ownAt kPi clips velocity.2) := by
  have hown : Continuous fun velocity : 𝕜 × 𝕜 => ownAt kPi clips velocity.2 :=
    (Lib.continuous_interp (sorted_map hPi _)).comp continuous_snd
  cases hsprint : clips.sprint with
  | none =>
    have hnone : ∀ velocity : 𝕜 × 𝕜,
        sprintingAt clips velocity.1 (ownAt kPi clips velocity.2) = 0 := by
      intro velocity
      rw [sprintingAt, hsprint]
    rw [funext hnone]
    exact continuous_const
  | some sprint =>
    have hbelow : ∀ angle, ownAt kPi clips angle < speedOf sprint := by
      intro angle
      refine Lib.interp_lt (sorted_map hPi _) (fun knot hknot => ?_)
        (lt_of_le_of_lt (speedOf_nonneg hsound.backward.1)
          (hfast.circle hsprint (backwardOf clips kPi) (by simp [circle]))) angle
      obtain ⟨direction, hdirection, rfl⟩ := List.mem_map.mp hknot
      exact hfast.circle hsprint direction hdirection
    have hclamp : ∀ velocity : 𝕜 × 𝕜,
        sprintingAt clips velocity.1 (ownAt kPi clips velocity.2) =
          max 0 (min ((velocity.1 - ownAt kPi clips velocity.2) /
            (speedOf sprint - ownAt kPi clips velocity.2)) 1) := by
      intro velocity
      have hwide : 0 < speedOf sprint - ownAt kPi clips velocity.2 :=
        sub_pos.mpr (hbelow velocity.2)
      simp only [sprintingAt, hsprint, towardSprint]
      split_ifs with h
      · exact (max_eq_right (le_min (div_nonneg (sub_pos.mpr h.1).le hwide.le) zero_le_one)).symm
      · have hslow : velocity.1 ≤ ownAt kPi clips velocity.2 :=
          not_lt.mp fun hlt => h ⟨hlt, hbelow velocity.2⟩
        refine (max_eq_left ((min_le_left ..).trans ?_)).symm
        exact div_nonpos_of_nonpos_of_nonneg (sub_nonpos.mpr hslow) hwide.le
    rw [funext hclamp]
    refine continuous_const.max (Continuous.min ?_ continuous_const)
    exact (continuous_fst.sub hown).div (continuous_const.sub hown) fun velocity =>
      (sub_pos.mpr (hbelow velocity.2)).ne'

/-- No weight jumps, whichever way the body turns and however it quickens. -/
theorem continuousOn_smoothAt (hPi : 0 < kPi) (hsound : Sound clips) (hfast : Outruns kPi clips)
    (role : Role) :
    ContinuousOn (fun velocity : 𝕜 × 𝕜 => smoothAt kPi clips role velocity.1 velocity.2)
      onTheMove := by
  have hmoving := @continuousOn_moving 𝕜 _ _ kPi clips _ _ _ hPi
  have hsprinting := (continuous_sprinting hPi hsound hfast).continuousOn (s := onTheMove)
  have hhat (role : Role) : ContinuousOn (fun velocity : 𝕜 × 𝕜 => hatAt kPi clips role velocity.2)
      onTheMove :=
    ((Lib.continuous_interp (sorted_map hPi _)).comp continuous_snd).continuousOn
  by_cases hidle : role = .idle
  · simp only [smoothAt, if_pos hidle]
    exact continuousOn_const.sub hmoving
  by_cases hsprint : role = .sprint
  · simp only [smoothAt, if_neg hidle, if_pos hsprint]
    exact ((hhat .forward).mul hmoving).mul hsprinting
  · simp only [smoothAt, if_neg hidle, if_neg hsprint]
    refine ((hhat role).mul hmoving).mul ?_
    by_cases hforward : role = .forward
    · simp only [keptOf, if_pos hforward]
      exact continuousOn_const.sub hsprinting
    · simp only [keptOf, if_neg hforward]
      exact continuousOn_const

end

end

/-! ### A stance's blend space -/

/-- What a blend space is at a velocity. -/
structure Blended (clips : StanceClips (Gait ℝ)) (speed angle : ℝ) : Prop where
  partition : Partition clips (blendSpace Real.pi clips speed angle)
  /-- Its directional Clips are the nearest either side of the angle. -/
  nearest : ∃ below above, Spans Real.pi clips angle below above ∧
    (∀ other ∈ circle Real.pi clips, other.angle ≤ below.angle ∨ above.angle ≤ other.angle) ∧
    ∀ each ∈ blendSpace Real.pi clips speed angle, each.role ≠ .idle → each.role ≠ .sprint →
      each.role = below.role ∨ each.role = above.role
  speed : kStill ≤ speed → speed ≤ clipSpeed Real.pi clips angle →
    ((blendSpace Real.pi clips speed angle).map fun each => each.weight * speedOf each.clip).sum =
      speed

theorem blended (clips : StanceClips (Gait ℝ)) (hsound : Sound clips) (speed : ℝ) {angle : ℝ}
    (hlow : -Real.pi ≤ angle) (hhigh : angle ≤ Real.pi) : Blended clips speed angle := by
  obtain ⟨below, above, toward, own, h⟩ :=
    @exists_between ℝ _ _ Real.pi clips angle _ Real.pi_pos hlow hhigh
  refine ⟨partition_blendSpace Real.pi_pos hlow hhigh speed,
    ⟨below, above, h.spans, h.spans.nearest Real.pi_pos, ?_⟩, fun hspeed hslow => ?_⟩
  · intro each heach hidle hsprint
    by_cases hstill : speed < kStill
    · rw [blendSpace, if_pos hstill, add, if_pos zero_lt_one, List.nil_append,
        List.mem_singleton] at heach
      rw [heach] at hidle
      exact absurd rfl hidle
    · rw [blendSpace_eq h (not_lt.mp hstill)] at heach
      have hin := List.mem_of_mem_filter heach
      simp only [partsOf, List.mem_append, List.mem_cons, List.not_mem_nil, or_false,
        Option.mem_toList, Option.map_eq_some_iff] at hin
      rcases hin with (rfl | rfl | rfl) | ⟨sprint, -, rfl⟩
      · exact absurd rfl hidle
      · exact .inl rfl
      · exact .inr rfl
      · exact absurd rfl hsprint
  · rw [h.speed_eq] at hslow
    exact blended_speed hsound h hspeed hslow

/-- CORRECT: at every velocity a blend space is a partition of the pose between idle, the two
    directions either side and sprint; a body on the move, no faster than they go, moves as fast as
    they make up; and no weight jumps as it turns, all the way round, or quickens. -/
theorem blendSpace_true {clips : StanceClips (Gait ℝ)} (hsound : Sound clips) :
    (∀ speed angle, -Real.pi ≤ angle → angle ≤ Real.pi → Blended clips speed angle) ∧
    (Outruns Real.pi clips → ∀ role,
      ContinuousOn (fun velocity : ℝ × ℝ =>
        weightOf (blendSpace Real.pi clips velocity.1 velocity.2) role)
        (Set.Ici kStill ×ˢ Set.Icc (-Real.pi) Real.pi) ∧
      ∀ speed, weightOf (blendSpace Real.pi clips speed (-Real.pi)) role =
        weightOf (blendSpace Real.pi clips speed Real.pi) role) := by
  refine ⟨fun speed angle hlow hhigh => blended clips hsound speed hlow hhigh,
    fun hfast role => ⟨?_, fun speed => ?_⟩⟩
  · refine ((continuousOn_smoothAt Real.pi_pos hsound hfast role).mono ?_).congr ?_
    · rintro velocity ⟨hspeed, -⟩
      exact hspeed
    · rintro velocity ⟨hspeed, hlow, hhigh⟩
      exact weightOf_blendSpace Real.pi_pos hlow hhigh hspeed role
  · by_cases hstill : speed < kStill
    · rw [blendSpace, if_pos hstill, blendSpace, if_pos hstill]
    · have hbehind : -Real.pi ≤ Real.pi := by linarith [Real.pi_pos]
      rw [weightOf_blendSpace Real.pi_pos le_rfl hbehind (not_lt.mp hstill),
        weightOf_blendSpace Real.pi_pos hbehind le_rfl (not_lt.mp hstill),
        smoothAt_seam Real.pi_pos]

attribute [local instance] Lib.atLeastTwo_three in
/-- A stance that walks, ahead and back, a metre a second, and sprints at three. -/
noncomputable def runAndWalk : StanceClips (Gait ℝ) :=
  let pose : Gait ℝ := ⟨0, 1⟩
  let walk : Gait ℝ := ⟨1, 1⟩
  { idle := pose, forward := walk, backward := walk, left := none, right := none, forwardLeft := none
    forwardRight := none, backwardLeft := none, backwardRight := none, sprint := some ⟨3, 1⟩
    aimDown := pose, aimCenter := pose, aimUp := pose, ads := pose }

theorem sound_runAndWalk : Sound runAndWalk := by
  refine ⟨rfl, ?_, ?_, ?_, ?_⟩
  · simp [runAndWalk]
  · simp [runAndWalk]
  · intro entry hentry clip hclip
    simp only [sideClips, runAndWalk, List.mem_cons, List.not_mem_nil, or_false] at hentry
    rcases hentry with rfl | rfl | rfl | rfl | rfl | rfl | rfl <;> simp_all
    rw [← hclip]
    exact ⟨zero_le_one, zero_lt_one⟩
  · intro clip hclip
    obtain rfl := Option.some.inj hclip
    norm_num

theorem speed_runAndWalk : ∀ direction ∈ circle Real.pi runAndWalk, speedOf direction.clip = 1 := by
  intro direction hdirection
  have hclip : direction.clip = ⟨1, 1⟩ := by
    simp only [circle, directionsOf, sidesOf, sideClips, runAndWalk, backwardOf] at hdirection
    simp at hdirection
    rcases hdirection with rfl | rfl | rfl <;> rfl
  rw [hclip]
  simp [speedOf]

theorem clipSpeed_runAndWalk (angle : ℝ) (hlow : -Real.pi ≤ angle) (hhigh : angle ≤ Real.pi) :
    clipSpeed Real.pi runAndWalk angle = 1 := by
  obtain ⟨below, above, toward, own, h⟩ :=
    @exists_between ℝ _ _ Real.pi runAndWalk angle _ Real.pi_pos hlow hhigh
  obtain ⟨hbelow, habove⟩ := h.spans.mem
  rw [h.speed_eq, h.own, speed_runAndWalk below hbelow, speed_runAndWalk above habove]
  ring

/-- A body that creeps along below the threshold for standing still is posed as it stands. -/
theorem creeping_stands : Sound runAndWalk ∧ (1 / 20000 : ℝ) ≤ clipSpeed Real.pi runAndWalk 0 ∧
    ((blendSpace Real.pi runAndWalk (1 / 20000) 0).map
      fun each => each.weight * speedOf each.clip).sum ≠ 1 / 20000 := by
  have hpi := Real.pi_pos
  refine ⟨sound_runAndWalk, ?_, ?_⟩
  · rw [clipSpeed_runAndWalk 0 (by linarith) (by linarith)]
    norm_num
  · have hstill : (1 / 20000 : ℝ) < kStill := by
      rw [kStill]
      norm_num
    rw [blendSpace, if_pos hstill, add, if_pos zero_lt_one]
    simp [speedOf, runAndWalk]

theorem blendSpace_true_runAndWalk :
    ((blendSpace Real.pi runAndWalk (1 / 2) 0).map
      fun each => each.weight * speedOf each.clip).sum = 1 / 2 ∧
    ContinuousOn (fun velocity : ℝ × ℝ =>
      weightOf (blendSpace Real.pi runAndWalk velocity.1 velocity.2) .sprint)
      (Set.Ici kStill ×ˢ Set.Icc (-Real.pi) Real.pi) := by
  have hpi := Real.pi_pos
  have hfast : Outruns Real.pi runAndWalk := by
    intro sprint hsprint direction hdirection
    obtain rfl := Option.some.inj hsprint
    rw [speed_runAndWalk direction (List.mem_append_left _ hdirection)]
    norm_num [speedOf]
  have h := blendSpace_true sound_runAndWalk
  refine ⟨(h.1 (1 / 2) 0 (by linarith) (by linarith)).speed ?_ ?_, (h.2 hfast .sprint).1⟩
  · rw [kStill]
    norm_num
  · rw [clipSpeed_runAndWalk 0 (by linarith) (by linarith)]
    norm_num

end Augusta.Animation
