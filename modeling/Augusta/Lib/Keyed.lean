import Mathlib.Data.List.Sort

/-! Lists made key by key, each key's own entries together: what of them is one key's, and what is
    left of that once they are sorted. -/

namespace List
variable {κ α : Type} [DecidableEq κ] {key : α → κ} {entries : κ → List α}

/-- Of the entries of all keys, those of one. -/
theorem filter_flatMap_key (hkey : ∀ k, ∀ a ∈ entries k, key a = k) {keys : List κ}
    (hkeys : keys.Nodup) (k : κ) :
    (keys.flatMap entries).filter (fun a => key a = k) = if k ∈ keys then entries k else [] := by
  induction keys with
  | nil => rfl
  | cons first rest ih =>
      obtain ⟨hfirst, hrest⟩ := nodup_cons.mp hkeys
      rw [flatMap_cons, filter_append, ih hrest]
      by_cases h : k = first
      · subst h
        rw [if_neg hfirst, if_pos mem_cons_self, append_nil]
        exact filter_eq_self.mpr fun a ha => decide_eq_true (hkey k a ha)
      · have hnone : (entries first).filter (fun a => key a = k) = [] :=
          filter_eq_nil_iff.mpr fun a ha => by simpa [hkey first a ha] using Ne.symm h
        rw [hnone, nil_append]
        simp only [mem_cons, h, false_or]

omit [DecidableEq κ] in
/-- Keys with one entry at most are each there once. -/
theorem nodup_map_flatMap (hone : ∀ k, entries k = [] ∨ ∃ a, entries k = [a] ∧ key a = k)
    {keys : List κ} (hkeys : keys.Nodup) : ((keys.flatMap entries).map key).Nodup := by
  have hmap : (keys.flatMap entries).map key = keys.filter fun k => entries k ≠ [] := by
    clear hkeys
    induction keys with
    | nil => rfl
    | cons first rest ih =>
        rw [flatMap_cons, map_append, ih]
        rcases hone first with hnone | ⟨a, ha, hkey⟩
        · simp [hnone]
        · simp [ha, hkey]
  rw [hmap]
  exact hkeys.filter _

omit [DecidableEq κ] in
/-- Sorting keeps the order of what it may leave as it is. -/
theorem filter_insertionSort {r : α → α → Prop} [DecidableRel r] {p : α → Bool} {l : List α}
    (h : (l.filter p).Pairwise r) : (l.insertionSort r).filter p = l.filter p := by
  have hkept : (l.filter p).Sublist (l.insertionSort r) := sublist_insertionSort h filter_sublist
  have hsub := hkept.filter p
  rw [filter_filter] at hsub
  simp only [Bool.and_self] at hsub
  exact (hsub.eq_of_length ((perm_insertionSort r l).filter p).length_eq.symm).symm

omit [DecidableEq κ] in
/-- Sorted by a linear order, lists are the same when they hold the same. -/
theorem insertionSort_eq_iff {r : α → α → Prop} [DecidableRel r] [Std.Total r] [IsTrans α r]
    [Std.Antisymm r] {l l' : List α} : l.insertionSort r = l'.insertionSort r ↔ l.Perm l' := by
  constructor
  · intro hsame
    exact ((perm_insertionSort r l).symm.trans (Perm.of_eq hsame)).trans (perm_insertionSort r l')
  · intro hperm
    refine Perm.eq_of_pairwise' (pairwise_insertionSort r l) (pairwise_insertionSort r l') ?_
    exact ((perm_insertionSort r l).trans hperm).trans (perm_insertionSort r l').symm

end List
