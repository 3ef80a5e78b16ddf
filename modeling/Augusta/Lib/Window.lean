import Mathlib.Algebra.Order.Group.Defs
import Mathlib.Algebra.Order.Sub.Defs
import Mathlib.Order.Basic

/-! A window that slides over times as they come, the old ones dropped from the front:

      [ t₁ ≤ t₂ ≤ … ≤ tₙ ]  ──slide to now──▶  [ … those with now - t < width … ] ++ [now]

    What was dropped once is out of every later window, so nothing is lost by it. -/

namespace Lib.Window
variable {Time : Type} [AddCommGroup Time] [LinearOrder Time] [IsOrderedAddMonoid Time]

/-- The times less than `width` before `now`. -/
def within (width now : Time) (times : List Time) : List Time :=
  times.filter fun time => now - time < width

/-- The times without the oldest of them, out of the window at `now`. -/
def dropOld (width now : Time) (times : List Time) : List Time :=
  times.dropWhile fun time => width ≤ now - time

/-- Of times in their order the old ones are at the front. -/
theorem dropOld_eq_within (width now : Time) {times : List Time} (hsorted : times.Pairwise (· ≤ ·)) :
    dropOld width now times = within width now times := by
  induction times with
  | nil => rfl
  | cons first rest ih =>
      obtain ⟨hfirst, hrest⟩ := List.pairwise_cons.mp hsorted
      by_cases hold : width ≤ now - first
      · have hdrop : dropOld width now (first :: rest) = dropOld width now rest :=
          List.dropWhile_cons_of_pos (decide_eq_true hold)
        rw [hdrop, ih hrest, within, within, List.filter_cons_of_neg (by simpa using hold)]
      · have hall : ∀ time ∈ first :: rest, now - time < width := by
          intro time hmem
          have hge : first ≤ time := by
            rcases List.mem_cons.mp hmem with rfl | hin
            · exact le_rfl
            · exact hfirst time hin
          exact lt_of_le_of_lt (sub_le_sub_left hge now) (not_le.mp hold)
        rw [dropOld, List.dropWhile_cons_of_neg (by simpa using hold), within, eq_comm,
          List.filter_eq_self]
        intro time hmem
        exact decide_eq_true (hall time hmem)

/-- A later window needs nothing an earlier one dropped. -/
theorem within_within (width : Time) {earlier now : Time} (hle : earlier ≤ now) (times : List Time) :
    within width now (within width earlier times) = within width now times := by
  rw [within, within, List.filter_filter]
  refine List.filter_congr fun time _ => ?_
  have hin : now - time < width → earlier - time < width := fun h =>
    lt_of_le_of_lt (sub_le_sub_right hle time) h
  by_cases h : now - time < width
  · simp [h, hin h]
  · simp [h]

omit [IsOrderedAddMonoid Time] in
theorem within_append (width now : Time) (times more : List Time) :
    within width now (times ++ more) = within width now times ++ within width now more :=
  List.filter_append ..

omit [IsOrderedAddMonoid Time] in
theorem within_self {width : Time} (hwidth : 0 < width) (now : Time) :
    within width now [now] = [now] := by
  simp [within, hwidth]

omit [IsOrderedAddMonoid Time] in
theorem within_sublist (width now : Time) (times : List Time) :
    (within width now times).Sublist times := List.filter_sublist

/-- The window slid to `now`, which it then holds as its newest. -/
def slide (width now : Time) (times : List Time) : List Time := dropOld width now times ++ [now]

/-- Of what a window holds as its own and what it has dropped no later one tells them apart. -/
theorem slide_eq {width : Time} (hwidth : 0 < width) {now : Time} {kept times : List Time}
    (hsorted : kept.Pairwise (· ≤ ·)) (hkept : within width now kept = within width now times) :
    slide width now kept = within width now (times ++ [now]) := by
  rw [slide, dropOld_eq_within width now hsorted, hkept, within_append, within_self hwidth]

end Lib.Window
