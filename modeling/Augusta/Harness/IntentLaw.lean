import Augusta.Harness.IntentMoves

/-! What holds of every run of an IntentExecutor: an Intent ends replaced by what takes its place,
    or on the tick it earns another ending on, and by that alone.

      before ++ [now] ──Earns──▶ done | arrived | blocked | targetGone         one log of ticks -/

namespace Augusta.Harness.IntentExecutor
open Lib (Binary32)
open Link

/-! ### What a tick ends -/

/-- A MoveTo held has counted the ticks it was carried out on. -/
theorem counted {libm : Libm} {events : List Event} {held : Held MovementIntent ℕ}
    {moveTo : MoveTo Math.Vec3} (hheld : (Run.after libm events).executor.movement = some held)
    (hmoveTo : held.intent = .moveTo moveTo) :
    goesOn (.start Math.Vec3) ((Run.after libm events).walked held.onEnded) =
      some held.tracking.progress := by
  rcases walking_after libm events held.onEnded with ⟨e, he, hsame, -⟩ | ⟨progress, hgoes, hcounts⟩
  · -- held, it has not ended
    have honce := (accounted_after libm events).once.nodup_iff.mpr List.nodup_range
    rw [List.append_assoc, ← List.map_append] at honce
    have hin : held.onEnded ∈ (Run.after libm events).executor.held :=
      List.mem_filterMap.mpr ⟨.movement, by simp, by rw [heldOn, hheld]; rfl⟩
    exact absurd (List.mem_map.mpr ⟨e, he, hsame⟩)
      (List.disjoint_of_nodup_append honce hin)
  · rw [hcounts held moveTo hheld rfl hmoveTo]
    exact hgoes

section
variable {libm : Libm} {executor : IntentExecutor ℕ} {view : ServerView} {own : Physics.BodyState}
  {command : Command} {before : List Sent} {n : ℕ}

end

end Augusta.Harness.IntentExecutor
