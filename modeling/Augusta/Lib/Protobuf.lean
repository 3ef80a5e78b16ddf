import Augusta.Lib.Binary32

/-! The protobuf wire format, as far as proto3 messages without maps, groups or packed lists need it.

      field  =  varint (number · 8 + type)  value
      value  =  varint n  |  four bytes, low first  |  varint length, that many bytes

    A scalar field that holds its default is left out; a message field is there whenever it is set. -/

namespace Lib.Protobuf

abbrev Bytes := List UInt8

/-- The base-128 digits of `n`, low first, the top bit set on all but the last; `fuel` of them. -/
def varintOf : ℕ → ℕ → Bytes
  | 0, _ => []
  | fuel + 1, n =>
      if n < 128 then [UInt8.ofNat n] else UInt8.ofNat (n % 128 + 128) :: varintOf fuel (n / 128)

/-- The varint of a 64-bit number: ten bytes at most. -/
def varint (n : ℕ) : Bytes := varintOf 10 n

/-- The varint `bytes` start with, of at most `fuel` bytes, and what follows it. -/
def readVarint : ℕ → Bytes → Option (ℕ × Bytes)
  | 0, _ => none
  | _ + 1, [] => none
  | fuel + 1, byte :: rest =>
      if byte.toNat < 128 then some (byte.toNat, rest)
      else (readVarint fuel rest).map fun (n, after) => (byte.toNat - 128 + 128 * n, after)

/-- The tag `bytes` start with, a 32-bit number; 0 if there is none. -/
def readTag (bytes : Bytes) : ℕ :=
  match readVarint 5 bytes with
  | some (n, _) => n % 2 ^ 32
  | none => 0

/-- Whole numbers in the order 0, -1, 1, -2, 2, …, so that small ones have short varints. -/
def zigzag (n : ℤ) : ℕ := if 0 ≤ n then (2 * n).toNat else (-2 * n - 1).toNat

/-- The four bytes of a number, low first. -/
def fixed32 (n : UInt32) : Bytes :=
  [n.toUInt8, (n >>> 8).toUInt8, (n >>> 16).toUInt8, (n >>> 24).toUInt8]

/-! ### Fields -/

def uintField (number n : ℕ) : Bytes :=
  if n = 0 then [] else varint (number * 8) ++ varint n

def sintField (number : ℕ) (n : ℤ) : Bytes := uintField number (zigzag n)

/-- A signed number in its 64-bit two's complement. -/
def intField (number : ℕ) (n : Int64) : Bytes := uintField number n.toUInt64.toNat

def floatField (number : ℕ) (x : Binary32) : Bytes :=
  if x = .zero then [] else varint (number * 8 + 5) ++ fixed32 x.bits

/-- A field of as many bytes as it says, present whatever they are. -/
def lenField (number : ℕ) (bytes : Bytes) : Bytes :=
  varint (number * 8 + 2) ++ (varint bytes.length ++ bytes)

def bytesField (number : ℕ) (bytes : Bytes) : Bytes :=
  if bytes = [] then [] else lenField number bytes

/-- One field for each of `items`. -/
def repeatedField {α : Type*} (number : ℕ) (bytesOf : α → Bytes) (items : List α) : Bytes :=
  items.flatMap fun item => lenField number (bytesOf item)

/-! ### Reading back -/

/-- A number of `digits + 1` base-128 digits is read back by whoever has room for as many. -/
theorem readVarint_varintOf (rest : Bytes) : ∀ (digits fuel limit n : ℕ), n < 128 ^ (digits + 1) →
    digits ≤ fuel → digits < limit →
    readVarint limit (varintOf (fuel + 1) n ++ rest) = some (n, rest)
  | _, _, 0, _, _, _, hlt => absurd hlt (Nat.not_lt_zero _)
  | digits, fuel, limit + 1, n, hn, hle, hlt => by
      unfold varintOf
      by_cases hsmall : n < 128
      · have hbyte : (UInt8.ofNat n).toNat = n := by
          rw [UInt8.toNat_ofNat']; omega
        rw [if_pos hsmall, List.singleton_append, readVarint, hbyte, if_pos hsmall]
      · have hbyte : (UInt8.ofNat (n % 128 + 128)).toNat = n % 128 + 128 := by
          rw [UInt8.toNat_ofNat']; omega
        rw [if_neg hsmall, List.cons_append, readVarint, hbyte, if_neg (by omega)]
        match digits, fuel with
        | 0, _ => omega
        | _ + 1, 0 => omega
        | digits + 1, fuel + 1 =>
            have hrest : n / 128 < 128 ^ (digits + 1) := by
              rw [Nat.div_lt_iff_lt_mul (by omega), ← Nat.pow_succ]; exact hn
            rw [readVarint_varintOf rest digits fuel limit (n / 128) hrest (by omega) (by omega),
              Option.map_some, Nat.add_sub_cancel]
            exact congrArg (fun m => some (m, rest)) (Nat.mod_add_div n 128)

/-- A field's tag is read back off the front of it. -/
theorem readTag_lenField (number : ℕ) (bytes : Bytes) (h : number * 8 + 2 < 2 ^ 32) :
    readTag (lenField number bytes) = number * 8 + 2 := by
  rw [readTag, lenField, varint,
    readVarint_varintOf _ 4 9 5 _ (by omega) (by omega) (by omega)]
  exact Nat.mod_eq_of_lt h

/-! ### Lengths -/

theorem length_varintOf_le : ∀ fuel n, (varintOf fuel n).length ≤ fuel
  | 0, _ => Nat.le_refl 0
  | fuel + 1, n => by
      unfold varintOf
      split
      · simp
      · rw [List.length_cons]; exact Nat.succ_le_succ (length_varintOf_le fuel _)

theorem length_varint_le (n : ℕ) : (varint n).length ≤ 10 := length_varintOf_le 10 n

theorem length_varint_of_lt {n : ℕ} (h : n < 128) : (varint n).length = 1 := by
  rw [varint, varintOf, if_pos h, List.length_singleton]

theorem length_uintField_le (number n : ℕ) : (uintField number n).length ≤ 20 := by
  unfold uintField
  split
  · simp
  · rw [List.length_append]
    exact Nat.add_le_add (length_varint_le _) (length_varint_le _)

theorem length_sintField_le (number : ℕ) (n : ℤ) : (sintField number n).length ≤ 20 :=
  length_uintField_le number _

/-- A field numbered below 16 has a tag of one byte. -/
theorem length_uintField_le_of_lt {number : ℕ} (h : number < 16) (n : ℕ) :
    (uintField number n).length ≤ 11 := by
  unfold uintField
  split
  · simp
  · have := length_varint_le n
    rw [List.length_append, length_varint_of_lt (by omega)]
    omega

theorem length_lenField_le_of_lt {number : ℕ} (h : number < 16) (bytes : Bytes) :
    (lenField number bytes).length ≤ bytes.length + 11 := by
  have := length_varint_le bytes.length
  rw [lenField, List.length_append, List.length_append, length_varint_of_lt (by omega)]
  omega

theorem length_bytesField_le_of_lt {number : ℕ} (h : number < 16) (bytes : Bytes) :
    (bytesField number bytes).length ≤ bytes.length + 11 := by
  unfold bytesField
  split
  · simp
  · exact length_lenField_le_of_lt h bytes

theorem length_intField_le (number : ℕ) (n : Int64) : (intField number n).length ≤ 20 :=
  length_uintField_le number _

theorem length_floatField_le (number : ℕ) (x : Binary32) : (floatField number x).length ≤ 20 := by
  unfold floatField
  split
  · simp
  · have := length_varint_le (number * 8 + 5)
    rw [List.length_append, fixed32]
    simp only [List.length_cons, List.length_nil]
    omega

theorem length_lenField_le (number : ℕ) (bytes : Bytes) :
    (lenField number bytes).length ≤ bytes.length + 20 := by
  have htag := length_varint_le (number * 8 + 2)
  have hlength := length_varint_le bytes.length
  rw [lenField, List.length_append, List.length_append]
  omega

theorem length_bytesField_le (number : ℕ) (bytes : Bytes) :
    (bytesField number bytes).length ≤ bytes.length + 20 := by
  unfold bytesField
  split
  · simp
  · exact length_lenField_le number bytes

/-- A list field of items no longer than `max`. -/
theorem length_repeatedField_le {α : Type*} (number max : ℕ) (bytesOf : α → Bytes)
    (items : List α) (h : ∀ item ∈ items, (bytesOf item).length ≤ max) :
    (repeatedField number bytesOf items).length ≤ items.length * (max + 20) := by
  induction items with
  | nil => simp [repeatedField]
  | cons item rest ih =>
      have hitem := h item List.mem_cons_self
      have hrest := ih fun other hother => h other (List.mem_cons_of_mem _ hother)
      have hone := length_lenField_le number (bytesOf item)
      simp only [repeatedField, List.flatMap_cons, List.length_append, List.length_cons] at hrest ⊢
      rw [Nat.succ_mul]
      omega

end Lib.Protobuf
