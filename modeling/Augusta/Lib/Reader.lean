import Mathlib.Data.List.Basic
import Mathlib.Algebra.Group.Nat.Defs
import Mathlib.Tactic.Common

/-! Bytes read left to right, by readers that fail where a byte is missing or a check does not hold.

      run read (what was written ++ rest)  =  what was written, and rest

    Numbers are held their lowest byte first. -/

namespace Lib

/-- A reader of the bytes not read yet. -/
abbrev Reader := StateT (List UInt8) Option

/-! ### Whole numbers -/

/-- The `size` lowest bytes of `n`. -/
def littleEndian : ℕ → ℕ → List UInt8
  | 0, _ => []
  | size + 1, n => UInt8.ofNat n :: littleEndian size (n / 256)

def ofLittleEndian (bytes : List UInt8) : ℕ := bytes.foldr (fun byte n => byte.toNat + 256 * n) 0

@[simp] theorem length_littleEndian (size n : ℕ) : (littleEndian size n).length = size := by
  induction size generalizing n with
  | zero => rfl
  | succ size ih => simp [littleEndian, ih]

/-- A number that fits comes back. -/
theorem ofLittleEndian_littleEndian {size n : ℕ} (h : n < 256 ^ size) :
    ofLittleEndian (littleEndian size n) = n := by
  induction size generalizing n with
  | zero =>
      rw [Nat.pow_zero] at h
      rw [Nat.lt_one_iff.mp h]
      rfl
  | succ size ih =>
      have hrest : n / 256 < 256 ^ size := by
        rw [Nat.div_lt_iff_lt_mul (by omega), ← Nat.pow_succ]
        exact h
      rw [littleEndian, ofLittleEndian, List.foldr_cons]
      have hback := ih hrest
      rw [ofLittleEndian] at hback
      rw [hback, UInt8.toNat_ofNat']
      omega

namespace Reader
variable {α β : Type}

/-! ### Taken apart -/

theorem run_bind_eq_some {read : Reader α} {next : α → Reader β} {bytes rest : List UInt8} {b : β} :
    (read >>= next).run bytes = some (b, rest) ↔
      ∃ a more, read.run bytes = some (a, more) ∧ (next a).run more = some (b, rest) := by
  rw [StateT.run_bind]
  rcases hread : read.run bytes with _ | ⟨a, more⟩ <;> simp

theorem run_map_eq_some {read : Reader α} {f : α → β} {bytes rest : List UInt8} {b : β} :
    (f <$> read).run bytes = some (b, rest) ↔
      ∃ a, read.run bytes = some (a, rest) ∧ f a = b := by
  rw [StateT.run_map]
  rcases hread : read.run bytes with _ | ⟨a, more⟩ <;> simp [and_comm]

@[simp] theorem run_pure_eq_some {a b : α} {bytes rest : List UInt8} :
    (pure a : Reader α).run bytes = some (b, rest) ↔ a = b ∧ bytes = rest := by
  simp [StateT.run_pure]

/-- What has been read of the bytes does not stop the next reader. -/
theorem run_bind_of_run {read : Reader α} {next : α → Reader β} {bytes more : List UInt8} {a : α}
    (h : read.run bytes = some (a, more)) : (read >>= next).run bytes = (next a).run more := by
  rw [StateT.run_bind, h]
  rfl

theorem run_bind_of_fails {read : Reader α} {next : α → Reader β} {bytes : List UInt8}
    (h : read.run bytes = none) : (read >>= next).run bytes = none := by
  rw [StateT.run_bind, h]
  rfl

/-! ### The readers there are -/

/-- The next `count` bytes. -/
def take (count : ℕ) : Reader (List UInt8) := fun bytes =>
  if bytes.length < count then none else some (bytes.take count, bytes.drop count)

/-- Every byte not read yet. -/
def rest : Reader (List UInt8) := fun bytes => some (bytes, [])

/-- Nothing, if `c` holds. -/
def demand (c : Prop) [Decidable c] : Reader Unit := fun bytes => if c then some ((), bytes) else none

/-- `count` items, each read in sight of those before it. -/
def many (read : List α → Reader α) : ℕ → List α → Reader (List α)
  | 0, items => pure items
  | count + 1, items => do
      let item ← read items
      many read count (items ++ [item])

@[simp] theorem run_take (bytes after : List UInt8) :
    (take bytes.length).run (bytes ++ after) = some (bytes, after) := by
  simp [take, StateT.run]

theorem run_take_of_length {count : ℕ} {bytes : List UInt8} (h : bytes.length = count)
    (after : List UInt8) : (take count).run (bytes ++ after) = some (bytes, after) := by
  rw [← h, run_take]

theorem run_take_eq_some {count : ℕ} {bytes taken after : List UInt8} :
    (take count).run bytes = some (taken, after) ↔
      taken.length = count ∧ bytes = taken ++ after := by
  constructor
  · intro h
    simp only [take, StateT.run] at h
    split at h
    · cases h
    · next hlong =>
        cases h
        exact ⟨List.length_take_of_le (Nat.not_lt.mp hlong), (List.take_append_drop _ _).symm⟩
  · rintro ⟨hlength, rfl⟩
    exact run_take_of_length hlength after

@[simp] theorem run_rest (bytes : List UInt8) : rest.run bytes = some (bytes, []) := rfl

@[simp] theorem run_demand {c : Prop} [Decidable c] (bytes : List UInt8) :
    (demand c).run bytes = if c then some ((), bytes) else none := rfl

theorem run_demand_bind {c : Prop} [Decidable c] (next : Unit → Reader β)
    (bytes : List UInt8) :
    (demand c >>= next).run bytes = if c then (next ()).run bytes else none := by
  rw [StateT.run_bind, run_demand]
  split <;> rfl

theorem run_demand_bind_eq_some {c : Prop} [Decidable c] {next : Unit → Reader β}
    {bytes after : List UInt8} {b : β} :
    (demand c >>= next).run bytes = some (b, after) ↔
      c ∧ (next ()).run bytes = some (b, after) := by
  rw [run_demand_bind]
  split <;> simp [*]

/-! ### Many items -/

/-- Whether each item passes, in sight of those before it. -/
def each (ok : List α → α → Bool) : List α → List α → Bool
  | _, [] => true
  | before, item :: after => ok before item && each ok (before ++ [item]) after

/-- Items written one after another are read back, if each passes its reader's check; otherwise none
    is. -/
theorem run_many {read : List α → Reader α} {ok : List α → α → Bool} {items : List α}
    {pieces : List (List UInt8)}
    (h : List.Forall₂ (fun item piece => ∀ before after, (read before).run (piece ++ after) =
      if ok before item then some (item, after) else none) items pieces)
    (before : List α) (after : List UInt8) :
    (many read items.length before).run (pieces.flatten ++ after) =
      if each ok before items then some (before ++ items, after) else none := by
  induction h generalizing before with
  | nil => simp [many, each]
  | @cons item piece others more hitem _ ih =>
      have hfirst := hitem before (more.flatten ++ after)
      rw [List.length_cons, many, List.flatten_cons, List.append_assoc]
      by_cases hok : ok before item = true
      · rw [if_pos hok] at hfirst
        rw [run_bind_of_run hfirst, ih (before ++ [item])]
        simp [each, hok]
      · rw [if_neg hok] at hfirst
        rw [run_bind_of_fails hfirst]
        simp [each, hok]

/-- What is read of each item, in sight of those before it, is so of all. -/
theorem many_gives {read : List α → Reader α} {P : List α → α → Prop}
    (h : ∀ before bytes item after, (read before).run bytes = some (item, after) → P before item) :
    ∀ (count : ℕ) (before : List α) {bytes after : List UInt8} {items : List α},
      (many read count before).run bytes = some (items, after) →
      ∃ added, items = before ++ added ∧ added.length = count ∧
        ∀ i item, added[i]? = some item → P (before ++ added.take i) item
  | 0, before, bytes, after, items, hread => by
      obtain ⟨rfl, rfl⟩ := run_pure_eq_some.mp hread
      exact ⟨[], (List.append_nil _).symm, rfl, fun i item hitem => by simp at hitem⟩
  | count + 1, before, bytes, after, items, hread => by
      obtain ⟨first, more, hfirst, hread⟩ := run_bind_eq_some.mp hread
      obtain ⟨added, rfl, hlength, heach⟩ := many_gives h count _ hread
      refine ⟨first :: added, List.append_assoc _ _ _, by rw [List.length_cons, hlength], ?_⟩
      intro i item hitem
      cases i with
      | zero =>
          rw [List.getElem?_cons_zero, Option.some_inj] at hitem
          rw [← hitem, List.take_zero, List.append_nil]
          exact h before bytes first more hfirst
      | succ i =>
          rw [List.getElem?_cons_succ] at hitem
          have hitem' := heach i item hitem
          rwa [List.append_assoc] at hitem'

/-- As many as were asked for. -/
theorem many_nil_gives {read : List α → Reader α} {P : List α → α → Prop}
    (h : ∀ before bytes item after, (read before).run bytes = some (item, after) → P before item)
    {count : ℕ} {bytes after : List UInt8} {items : List α}
    (hread : (many read count []).run bytes = some (items, after)) :
    items.length = count ∧ ∀ i item, items[i]? = some item → P (items.take i) item := by
  obtain ⟨added, hitems, hlength, heach⟩ := many_gives h count [] hread
  rw [List.nil_append] at hitems
  subst hitems
  exact ⟨hlength, heach⟩

/-- Each passes exactly when each passes at its place. -/
theorem each_iff {ok : List α → α → Bool} {before items : List α} :
    each ok before items = true ↔
      ∀ i item, items[i]? = some item → ok (before ++ items.take i) item = true := by
  induction items generalizing before with
  | nil => simp [each]
  | cons first others ih =>
      rw [each, Bool.and_eq_true, ih]
      constructor
      · rintro ⟨hfirst, hothers⟩ i item hitem
        cases i with
        | zero =>
            rw [List.getElem?_cons_zero, Option.some_inj] at hitem
            rw [← hitem, List.take_zero, List.append_nil]
            exact hfirst
        | succ i =>
            have hitem' := hothers i item (by simpa using hitem)
            rwa [List.append_assoc] at hitem'
      · intro hall
        refine ⟨by simpa using hall 0 first rfl, fun i item hitem => ?_⟩
        rw [List.append_assoc]
        exact hall (i + 1) item (by simpa using hitem)

end Reader
end Lib
