import Mathlib.Data.List.Rotate

/-! A ring: the newest `cap` of what was pushed, the oldest overwritten in place once it is full.

      slots    a₅ a₆ a₂ a₃ a₄        index i is slots[(oldest + i) % size]
                     └ oldest         toList = a₂ a₃ a₄ a₅ a₆
-/

namespace Lib

/-- Never empty; it wraps once it is full. -/
structure Ring (α : Type) (cap : ℕ) where
  slots : List α
  /-- Where the oldest is in the slots. -/
  oldest : ℕ := 0
  nonempty : slots ≠ []
  bound : slots.length ≤ cap
  wrapped : slots.length < cap → oldest = 0
  inside : oldest < slots.length

namespace Ring
variable {α : Type} {cap : ℕ} (ring : Ring α cap)

def single (a : α) (h : 0 < cap) : Ring α cap where
  slots := [a]
  nonempty := List.cons_ne_nil _ _
  bound := h
  wrapped := fun _ => rfl
  inside := Nat.zero_lt_one

def push (a : α) : Ring α cap :=
  if h : ring.slots.length < cap then
    { slots := ring.slots ++ [a]
      nonempty := by simp
      bound := by rw [List.length_append]; exact h
      wrapped := fun _ => rfl
      inside := by simp }
  else
    { slots := ring.slots.set ring.oldest a
      oldest := (ring.oldest + 1) % ring.slots.length
      nonempty := by simpa using ring.nonempty
      bound := by simpa using ring.bound
      wrapped := fun hlt => absurd hlt (by simpa using h)
      inside := by
        rw [List.length_set]
        exact Nat.mod_lt _ (List.length_pos_iff.mpr ring.nonempty) }

/-- What is kept, oldest first. -/
def toList : List α := ring.slots.rotate ring.oldest

theorem toList_ne_nil : ring.toList ≠ [] := by
  rw [toList, Ne, List.rotate_eq_nil_iff]
  exact ring.nonempty

theorem length_toList : ring.toList.length = ring.slots.length := List.length_rotate _ _

@[simp] theorem toList_single (a : α) (h : 0 < cap) : (single a h).toList = [a] := rfl

/-- The index-th oldest kept. -/
theorem getElem?_toList {i : ℕ} (h : i < ring.slots.length) :
    ring.toList[i]? = ring.slots[(ring.oldest + i) % ring.slots.length]? := by
  rw [toList, List.getElem?_rotate h, Nat.add_comm]

omit ring in
/-- The oldest overwritten, and the ring read from the next one on. -/
theorem rotate_set {slots : List α} {i : ℕ} (h : i < slots.length) (a : α) :
    (slots.set i a).rotate ((i + 1) % slots.length) = (slots.rotate i).tail ++ [a] := by
  have hlength : (slots.set i a).length = slots.length := List.length_set
  rw [← hlength, List.rotate_mod, List.rotate_eq_drop_append_take (by rw [hlength]; exact h),
    List.rotate_eq_drop_append_take (Nat.le_of_lt h), List.take_add_one,
    List.drop_set_of_lt (Nat.lt_succ_self _), List.take_set_of_le (Nat.le_refl _),
    List.getElem?_set_self h, List.drop_eq_getElem_cons h,
    List.cons_append, List.tail_cons, List.append_assoc]
  rfl

/-- A push keeps everything, or drops the oldest. -/
theorem toList_push (a : α) : (ring.push a).toList =
    if ring.slots.length < cap then ring.toList ++ [a] else ring.toList.tail ++ [a] := by
  rw [push]
  split_ifs with h
  · rw [toList, toList, ring.wrapped h, List.rotate_zero, List.rotate_zero]
  · exact rotate_set ring.inside a

/-- What is kept is the newest of it all. -/
theorem toList_push_suffix {all : List α} (h : ring.toList <:+ all) (a : α) :
    (ring.push a).toList <:+ all ++ [a] := by
  rw [toList_push]
  split_ifs
  · exact List.suffix_append_self_iff.mpr h
  · exact List.suffix_append_self_iff.mpr ((List.tail_suffix _).trans h)

end Ring
end Lib
