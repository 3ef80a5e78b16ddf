import Mathlib.Topology.Algebra.Order.Field
import Mathlib.Topology.Order.OrderClosed
import Mathlib.Tactic.FieldSimp
import Mathlib.Tactic.Linarith
import Mathlib.Tactic.Ring

/-! Linear interpolation through knots, each further along than the one before it, and level outside
    them.

      y            ●
              ●         ●                 interp knots : one line between two neighbours,
         ─────          ─────                            so nowhere a jump
              x₀   x₁   x₂                                                            -/

namespace Lib

section
variable {𝕜 : Type*} [Field 𝕜] [LinearOrder 𝕜]

/-- The line through two knots. -/
def line (a b : 𝕜 × 𝕜) (x : 𝕜) : 𝕜 :=
  (1 - (x - a.1) / (b.1 - a.1)) * a.2 + (x - a.1) / (b.1 - a.1) * b.2

def interp : List (𝕜 × 𝕜) → 𝕜 → 𝕜
  | [], _ => 0
  | [knot], _ => knot.2
  | a :: b :: rest, x => if b.1 ≤ x then interp (b :: rest) x else
      if x ≤ a.1 then a.2 else line a b x

omit [LinearOrder 𝕜] in
@[simp] theorem line_left (a b : 𝕜 × 𝕜) : line a b a.1 = a.2 := by simp [line]

theorem line_right {a b : 𝕜 × 𝕜} (h : a.1 < b.1) : line a b b.1 = b.2 := by
  have hne : b.1 - a.1 ≠ 0 := sub_ne_zero.mpr h.ne'
  rw [line, div_self hne]
  ring

/-- Left of its knots an interpolation is level. -/
theorem interp_left {a : 𝕜 × 𝕜} {rest : List (𝕜 × 𝕜)}
    (hsorted : (a :: rest).Pairwise fun a b => a.1 < b.1) {x : 𝕜} (h : x ≤ a.1) :
    interp (a :: rest) x = a.2 := by
  cases rest with
  | nil => rfl
  | cons b rest =>
    have hlt : a.1 < b.1 := (List.pairwise_cons.mp hsorted).1 b (List.mem_cons_self ..)
    rw [interp, if_neg (not_le.mpr (h.trans_lt hlt)), if_pos h]

/-- Between two neighbours it is their line. -/
theorem interp_between {before : List (𝕜 × 𝕜)} {a b : 𝕜 × 𝕜} {after : List (𝕜 × 𝕜)}
    (hsorted : (before ++ a :: b :: after).Pairwise fun a b => a.1 < b.1) {x : 𝕜}
    (ha : a.1 ≤ x) (hb : x ≤ b.1) : interp (before ++ a :: b :: after) x = line a b x := by
  induction before with
  | nil =>
    have hlt : a.1 < b.1 := (List.pairwise_cons.mp hsorted).1 b (List.mem_cons_self ..)
    rw [List.nil_append, interp]
    split_ifs with hend hstart
    · obtain rfl := le_antisymm hb hend
      rw [line_right hlt, interp_left (List.pairwise_cons.mp hsorted).2 le_rfl]
    · rw [le_antisymm hstart ha, line_left]
    · rfl
  | cons c before ih =>
    rw [List.cons_append, List.pairwise_cons] at hsorted
    cases before with
    | nil => rw [List.cons_append, List.nil_append, interp, if_pos ha]; exact ih hsorted.2
    | cons d before =>
      have hd : d.1 ≤ x := by
        refine le_trans (le_of_lt ?_) ha
        exact (List.pairwise_cons.mp hsorted.2).1 a (by simp)
      rw [List.cons_append, List.cons_append, interp, if_pos hd]
      exact ih hsorted.2

variable [IsStrictOrderedRing 𝕜]

/-- It stays under what its knots stay under. -/
theorem interp_lt {knots : List (𝕜 × 𝕜)} (hsorted : knots.Pairwise fun a b => a.1 < b.1)
    {bound : 𝕜} (hknots : ∀ knot ∈ knots, knot.2 < bound) (hbound : 0 < bound) (x : 𝕜) :
    interp knots x < bound := by
  induction knots with
  | nil => exact hbound
  | cons a rest ih =>
    cases rest with
    | nil => exact hknots a (List.mem_cons_self ..)
    | cons b rest =>
      have ha : a.2 < bound := hknots a (List.mem_cons_self ..)
      have hb : b.2 < bound := hknots b (List.mem_cons_of_mem _ (List.mem_cons_self ..))
      have hlt : a.1 < b.1 := (List.pairwise_cons.mp hsorted).1 b (List.mem_cons_self ..)
      rw [interp]
      split_ifs with hend hstart
      · exact ih (List.pairwise_cons.mp hsorted).2 fun knot hknot =>
          hknots knot (List.mem_cons_of_mem _ hknot)
      · exact ha
      · rw [not_le] at hend hstart
        have hwide : 0 < b.1 - a.1 := sub_pos.mpr hlt
        have hpos : 0 ≤ (x - a.1) / (b.1 - a.1) := div_nonneg (sub_pos.mpr hstart).le hwide.le
        have hone : (x - a.1) / (b.1 - a.1) < 1 := by
          rw [div_lt_one hwide]
          linarith
        have hmix : line a b x < (1 - (x - a.1) / (b.1 - a.1)) * bound +
            (x - a.1) / (b.1 - a.1) * bound :=
          add_lt_add_of_lt_of_le (mul_lt_mul_of_pos_left ha (sub_pos.mpr hone))
            (mul_le_mul_of_nonneg_left hb.le hpos)
        calc line a b x < _ := hmix
          _ = bound := by ring

variable [TopologicalSpace 𝕜] [OrderTopology 𝕜]

theorem continuous_line (a b : 𝕜 × 𝕜) : Continuous (line a b) := by
  unfold line
  fun_prop

/-- An interpolation nowhere jumps. -/
theorem continuous_interp {knots : List (𝕜 × 𝕜)}
    (hsorted : knots.Pairwise fun a b => a.1 < b.1) : Continuous (interp knots) := by
  induction knots with
  | nil => exact continuous_const
  | cons a rest ih =>
    cases rest with
    | nil => exact continuous_const
    | cons b rest =>
      have hrest := (List.pairwise_cons.mp hsorted).2
      have hlt : a.1 < b.1 := (List.pairwise_cons.mp hsorted).1 b (List.mem_cons_self ..)
      refine Continuous.if_le (ih hrest) ?_ continuous_const continuous_id ?_
      · refine Continuous.if_le continuous_const (continuous_line a b) continuous_id
          continuous_const ?_
        rintro x rfl
        exact (line_left a b).symm
      · rintro x rfl
        rw [interp_left hrest le_rfl, if_neg (not_le.mpr hlt), line_right hlt]

end

end Lib
