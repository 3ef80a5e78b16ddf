import Mathlib.Data.List.Basic

/-! Logs: what happened, each entry under a key, and what of it is one key's, in order. -/

namespace Lib
variable {κ α β : Type} [DecidableEq κ]

/-- A key's entries. -/
def entriesOf (k : κ) (log : List (κ × α)) : List α :=
  (log.filter fun entry => entry.1 = k).map Prod.snd

@[simp] theorem entriesOf_nil (k : κ) : entriesOf k ([] : List (κ × α)) = [] := rfl

@[simp] theorem entriesOf_append (k : κ) (log later : List (κ × α)) :
    entriesOf k (log ++ later) = entriesOf k log ++ entriesOf k later := by
  simp [entriesOf]

@[simp] theorem entriesOf_same (k : κ) (a : α) : entriesOf k [(k, a)] = [a] := by
  simp [entriesOf]

theorem entriesOf_other {k l : κ} (h : l ≠ k) (a : α) : entriesOf k [(l, a)] = [] := by
  simp [entriesOf, h]

/-- How many of `pieces` are whole in the first `k` items of them all, and whether those end inside
    the next. -/
def wholeBefore : List (List α) → ℕ → ℕ × Bool
  | [], _ => (0, false)
  | piece :: rest, k =>
      if k < piece.length then (0, decide (0 < k))
      else ((wholeBefore rest (k - piece.length)).1 + 1, (wholeBefore rest (k - piece.length)).2)

/-- A cut past the end cuts nothing. -/
theorem wholeBefore_of_le {pieces : List (List α)} {k : ℕ} (h : pieces.flatten.length ≤ k) :
    wholeBefore pieces k = (pieces.length, false) := by
  induction pieces generalizing k with
  | nil => rfl
  | cons piece rest ih =>
      rw [List.flatten_cons, List.length_append] at h
      rw [wholeBefore, if_neg (by omega), ih (by omega), List.length_cons]

end Lib

namespace List
variable {α : Type}

/-- A list that goes on is a prefix of no shorter one: it has what comes next. -/
theorem concat_prefix_of_append_cons {l rest all : List α} {a : α} (h : l ++ a :: rest = all) :
    l ++ [a] <+: all := by
  rw [← h]
  exact ⟨rest, by rw [append_assoc, singleton_append]⟩

/-- An element of a list with one more is an old one, or the new one at the end. -/
theorem getElem?_concat_cases {items : List α} {last item : α} {k : ℕ}
    (h : (items ++ [last])[k]? = some item) :
    (k < items.length ∧ items[k]? = some item) ∨ (k = items.length ∧ last = item) := by
  rcases Nat.lt_or_ge k items.length with hold | hlast
  · rw [getElem?_append_left hold] at h
    exact .inl ⟨hold, h⟩
  · rw [getElem?_append_right hlast] at h
    obtain ⟨hlt, h⟩ := getElem?_eq_some_iff.mp h
    rw [length_singleton] at hlt
    rw [getElem_singleton] at h
    exact .inr ⟨by omega, h⟩

end List
