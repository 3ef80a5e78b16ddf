import Mathlib.Data.Finset.Card
import Mathlib.Data.Finset.Interval
import Mathlib.Order.Interval.Finset.Nat

/-! Handles counted by a `uint32` that wraps: how long ago each was given out.

      handle ──┬────────────────────▶ next          age = next - handle, modulo 2^32
               └─ given out age ago

    No two in use share an age, so a handle younger than 2^32 is not yet given out again, and
    handles of n ages are n at most. -/

namespace Lib

/-- How many handles ago, `next` being the next to give out. -/
def age (next handle : UInt32) : ℕ := (next - handle).toNat

variable {next handle other : UInt32}

theorem age_eq (next handle : UInt32) :
    age next handle = (2 ^ 32 - handle.toNat + next.toNat) % 2 ^ 32 := UInt32.toNat_sub ..

@[simp] theorem age_self (next : UInt32) : age next next = 0 := by
  rw [age, UInt32.sub_self]
  rfl

theorem age_inj : age next handle = age next other ↔ handle = other := by
  refine ⟨fun hsame => UInt32.toNat_inj.mp ?_, fun h => h ▸ rfl⟩
  rw [age_eq, age_eq] at hsame
  have hhandle := handle.toNat_lt
  have hother := other.toNat_lt
  omega

/-- Giving out a handle makes every other one older. -/
theorem age_succ (h : age next handle + 1 < 2 ^ 32) :
    age (next + 1) handle = age next handle + 1 := by
  rw [age_eq] at h ⊢
  rw [age_eq, UInt32.toNat_add]
  have hhandle := handle.toNat_lt
  have hnext := next.toNat_lt
  have hone : (1 : UInt32).toNat = 1 := rfl
  omega

theorem age_given (next : UInt32) : age (next + 1) next = 1 := by
  rw [age_succ] <;> simp

/-- Handles of `n` ages, none the next one, are no more than `n`. -/
theorem length_le_of_age {handles : List UInt32} {n : ℕ} (hnodup : handles.Nodup)
    (h : ∀ handle ∈ handles, 0 < age next handle ∧ age next handle ≤ n) : handles.length ≤ n := by
  have hages : (handles.map (age next)).Nodup :=
    hnodup.map fun a b hsame => age_inj.mp hsame
  have hsub : (handles.map (age next)).toFinset ⊆ Finset.Icc 1 n := by
    intro a ha
    obtain ⟨handle, hmem, rfl⟩ := List.mem_map.mp (List.mem_toFinset.mp ha)
    exact Finset.mem_Icc.mpr ⟨(h handle hmem).1, (h handle hmem).2⟩
  calc handles.length = (handles.map (age next)).toFinset.card := by
        rw [List.toFinset_card_of_nodup hages, List.length_map]
    _ ≤ (Finset.Icc 1 n).card := Finset.card_le_card hsub
    _ = n := by rw [Nat.card_Icc, Nat.add_sub_cancel]

end Lib
