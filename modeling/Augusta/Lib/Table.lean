import Mathlib.Data.List.AList

/-! Tables: finite maps with their entries in a list, one entry a key (`AList`). A table stands for
    a hash map whose order nobody reads, or for an ordered one with the order read off its keys.

      t  =  [k₁ ↦ a₁, k₂ ↦ a₂, …]      lookup k t : the value at k, none where k has no entry
                                       values t   : a₁, a₂, …
                                       mapEntries : every value rewritten in place, keys kept -/

/-- A finite map from keys to values. -/
abbrev Lib.Table (κ : Type*) (α : Type*) := AList (fun _ : κ => α)

namespace AList
open Lib
variable {κ α β : Type*}

/-- The values, in the order of the entries. -/
def values (t : Table κ α) : List α := t.entries.map Sigma.snd

/-- How many keys have an entry. -/
def size (t : Table κ α) : ℕ := t.entries.length

/-- Every value rewritten, its key at hand; no key comes or goes. -/
def mapEntries (f : κ → α → β) (t : Table κ α) : Table κ β :=
  ⟨t.entries.map fun e => ⟨e.1, f e.1 e.2⟩, by
    rw [List.NodupKeys, List.keys, List.map_map]; exact t.nodupKeys⟩

/-- An entry for a key with none; a key that has one keeps it. -/
def emplace [DecidableEq κ] (k : κ) (a : α) (t : Table κ α) : Table κ α :=
  if k ∈ t then t else t.insert k a

/-- The entries that satisfy `p` (an `erase_if` of the others). -/
def filter (p : κ → α → Bool) (t : Table κ α) : Table κ α :=
  ⟨t.entries.filter fun e => p e.1 e.2,
    t.nodupKeys.sublist List.filter_sublist⟩

/-! ### Keys, values and lookups -/

theorem mem_entries_iff [DecidableEq κ] {t : Table κ α} {k : κ} {a : α} :
    (⟨k, a⟩ : Sigma fun _ : κ => α) ∈ t.entries ↔ t.lookup k = some a :=
  mem_lookup_iff.symm

theorem mem_values_iff [DecidableEq κ] {t : Table κ α} {a : α} :
    a ∈ t.values ↔ ∃ k, t.lookup k = some a := by
  simp only [values, List.mem_map]
  constructor
  · rintro ⟨⟨k, b⟩, hmem, rfl⟩; exact ⟨k, mem_entries_iff.mp hmem⟩
  · rintro ⟨k, h⟩; exact ⟨⟨k, a⟩, mem_entries_iff.mpr h, rfl⟩

theorem mem_iff_lookup [DecidableEq κ] {t : Table κ α} {k : κ} :
    k ∈ t ↔ ∃ a, t.lookup k = some a := by
  rw [← lookup_isSome, Option.isSome_iff_exists]

@[simp] theorem length_values (t : Table κ α) : t.values.length = t.size := by
  simp [values, size]

@[simp] theorem length_keys (t : Table κ α) : t.keys.length = t.size := by
  simp [keys, List.keys, size]

@[simp] theorem size_empty : (∅ : Table κ α).size = 0 := rfl

theorem lookup_of_size_zero [DecidableEq κ] {t : Table κ α} (h : t.size = 0) (k : κ) :
    t.lookup k = none := by
  have hnil : t.entries = [] := List.length_eq_zero_iff.mp h
  simp [lookup, hnil]

/-! ### Insertion and removal -/

variable [DecidableEq κ]

theorem values_insert {t : Table κ α} {k : κ} (h : k ∉ t) (a : α) :
    (t.insert k a).values = a :: t.values := by
  simp only [values, entries_insert_of_notMem h, List.map_cons]

theorem size_insert {t : Table κ α} {k : κ} (h : k ∉ t) (a : α) :
    (t.insert k a).size = t.size + 1 := by
  simp only [size, entries_insert_of_notMem h, List.length_cons]

theorem lookup_insert_eq (t : Table κ α) (k k' : κ) (a : α) :
    (t.insert k a).lookup k' = if k' = k then some a else t.lookup k' := by
  split
  · next h => subst h; exact lookup_insert t
  · next h => exact lookup_insert_ne h

theorem lookup_erase_eq (t : Table κ α) (k k' : κ) :
    (t.erase k).lookup k' = if k' = k then none else t.lookup k' := by
  split
  · next h => subst h; exact lookup_erase k' t
  · next h => exact lookup_erase_ne h

theorem entries_erase_sublist (t : Table κ α) (k : κ) : (t.erase k).entries.Sublist t.entries :=
  List.kerase_sublist k t.entries

theorem size_erase_le (t : Table κ α) (k : κ) : (t.erase k).size ≤ t.size :=
  (entries_erase_sublist t k).length_le

/-! ### Rewriting and filtering -/

omit [DecidableEq κ] in
@[simp] theorem size_mapEntries (f : κ → α → β) (t : Table κ α) :
    (t.mapEntries f).size = t.size := by
  simp [mapEntries, size]

omit [DecidableEq κ] in
@[simp] theorem keys_mapEntries (f : κ → α → β) (t : Table κ α) :
    (t.mapEntries f).keys = t.keys := by
  simp [mapEntries, keys, List.keys, Function.comp_def]

@[simp] theorem lookup_mapEntries (f : κ → α → β) (t : Table κ α) (k : κ) :
    (t.mapEntries f).lookup k = (t.lookup k).map (f k) := by
  cases h : t.lookup k with
  | none =>
      have hk : k ∉ t.mapEntries f := by
        rw [mem_keys, keys_mapEntries, ← mem_keys]; exact lookup_eq_none.mp h
      rw [lookup_eq_none.mpr hk]; rfl
  | some a =>
      refine mem_entries_iff.mp ?_
      exact List.mem_map.mpr ⟨⟨k, a⟩, mem_entries_iff.mpr h, rfl⟩

theorem lookup_filter (p : κ → α → Bool) (t : Table κ α) (k : κ) :
    (t.filter p).lookup k = (t.lookup k).filter (p k) := by
  cases h : (t.filter p).lookup k with
  | some a =>
      obtain ⟨hmem, hp⟩ := List.mem_filter.mp (mem_entries_iff.mpr h)
      rw [mem_entries_iff.mp hmem, Option.filter_some, if_pos hp]
  | none =>
      cases ha : t.lookup k with
      | none => rfl
      | some a =>
          by_cases hp : p k a
          · have : (t.filter p).lookup k = some a :=
              mem_entries_iff.mp (List.mem_filter.mpr ⟨mem_entries_iff.mpr ha, hp⟩)
            rw [h] at this; cases this
          · rw [Option.filter_some, if_neg hp]

end AList
