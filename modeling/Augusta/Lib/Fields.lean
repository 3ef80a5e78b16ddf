import Augusta.Lib.Protobuf
import Mathlib.Tactic.SplitIfs

/-! A protobuf message as the run of its fields, each a tag and the value its wire type gives.

      message  =  tag value tag value …        tag  =  varint (number · 8 + type)

    Whoever steps over one field steps over all of them, whatever follows. -/

namespace Lib.Protobuf

/-- The varint at the front as a 32-bit number, its higher bits dropped, and what follows it. -/
def readVarint32 (bytes : Bytes) : Option (ℕ × Bytes) :=
  (readVarint 10 bytes).map fun (n, rest) => (n % 2 ^ 32, rest)

/-- The next field's tag and what follows it; 0, and nothing read, where there is none. -/
def nextTag (bytes : Bytes) : ℕ × Bytes := (readVarint32 bytes).getD (0, bytes)

/-- A value as a field of this wire type holds it. -/
inductive Value : ℕ → Bytes → Prop
  | varint {n : ℕ} (h : n < 2 ^ 64) : Value 0 (varint n)
  | fixed (n : UInt32) : Value 5 (fixed32 n)
  | len {bytes : Bytes} (h : bytes.length < 2 ^ 31) : Value 2 (Protobuf.varint bytes.length ++ bytes)

/-- A run of fields whose numbers are all among `P`. -/
inductive Fields (P : ℕ → Prop) : Bytes → Prop
  | nil : Fields P []
  | cons {number type : ℕ} {value rest : Bytes} (among : P number)
      (bounds : 0 < number ∧ number < 2 ^ 28 ∧ type < 8) (held : Value type value)
      (more : Fields P rest) : Fields P (varint (number * 8 + type) ++ (value ++ rest))

/-! ### Reading -/

theorem readVarint_varint {n : ℕ} (h : n < 2 ^ 64) (rest : Bytes) :
    readVarint 10 (varint n ++ rest) = some (n, rest) :=
  readVarint_varintOf rest 9 9 10 n (Nat.lt_of_lt_of_le h (by decide)) (by decide) (by decide)

theorem readVarint32_varint {n : ℕ} (h : n < 2 ^ 32) (rest : Bytes) :
    readVarint32 (varint n ++ rest) = some (n, rest) := by
  simp only [readVarint32, readVarint_varint (show n < 2 ^ 64 by omega), Option.map_some,
    Nat.mod_eq_of_lt h]

theorem nextTag_varint {n : ℕ} (h : n < 2 ^ 32) (rest : Bytes) :
    nextTag (varint n ++ rest) = (n, rest) := by
  rw [nextTag, readVarint32_varint h, Option.getD_some]

theorem varint_ne_nil (n : ℕ) : varint n ≠ [] := by
  rw [varint, varintOf]
  split_ifs <;> simp

/-! ### What a message serializes to -/

section
variable {P : ℕ → Prop} {number : ℕ}

theorem Fields.append {before after : Bytes} (h : Fields P before) (h' : Fields P after) :
    Fields P (before ++ after) := by
  induction h with
  | nil => exact h'
  | cons among bounds held _ ih =>
      rw [List.append_assoc, List.append_assoc]
      exact .cons among bounds held ih

theorem Fields.one {type : ℕ} {value : Bytes} (among : P number)
    (bounds : 0 < number ∧ number < 2 ^ 28 ∧ type < 8) (held : Value type value) :
    Fields P (Protobuf.varint (number * 8 + type) ++ value) := by
  have h := Fields.cons among bounds held .nil
  rwa [List.append_nil] at h

variable (among : P number) (bounds : 0 < number ∧ number < 2 ^ 28)
include among bounds

theorem fields_uintField {n : ℕ} (h : n < 2 ^ 64) : Fields P (uintField number n) := by
  unfold uintField
  split_ifs with hzero
  · exact .nil
  · exact Fields.one among ⟨bounds.1, bounds.2, by decide⟩ (.varint h)

theorem fields_sintField {n : ℤ} (h : -2 ^ 63 ≤ n ∧ n < 2 ^ 63) : Fields P (sintField number n) := by
  refine fields_uintField among bounds ?_
  unfold zigzag
  split_ifs <;> omega

theorem fields_floatField (x : Binary32) : Fields P (floatField number x) := by
  unfold floatField
  split_ifs with hzero
  · exact .nil
  · exact Fields.one among ⟨bounds.1, bounds.2, by decide⟩ (.fixed x.bits)

theorem fields_lenField {bytes : Bytes} (h : bytes.length < 2 ^ 31) :
    Fields P (lenField number bytes) :=
  Fields.one among ⟨bounds.1, bounds.2, by decide⟩ (.len h)

theorem fields_repeatedField {α : Type*} {bytesOf : α → Bytes} {items : List α}
    (h : ∀ item ∈ items, (bytesOf item).length < 2 ^ 31) :
    Fields P (repeatedField number bytesOf items) := by
  induction items with
  | nil => exact .nil
  | cons item rest ih =>
      rw [repeatedField, List.flatMap_cons]
      refine (fields_lenField among bounds (h item List.mem_cons_self)).append ?_
      exact ih fun other hother => h other (List.mem_cons_of_mem _ hother)

end

end Lib.Protobuf
