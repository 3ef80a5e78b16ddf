import Augusta.Protocol.Framing

/-! Readdressing a payload is encoding the state afresh for the other recipient.

    The own fields number above the shared ones, so the encoder's bytes are the shared fields' and
    then the own ones'; the walk over them stops at the first own field, if there is one. -/

namespace Augusta.Protocol
open Lib.Protobuf
open Limits Math

/-! ### The walk over the fields -/

theorem skip_append (value rest : Bytes) : skip value.length (value ++ rest) = some rest := by
  rw [skip, if_neg (by simp), List.drop_left]

/-- A field's value is stepped over whole. -/
theorem skipValue_value {number type : ℕ} {value : Bytes} (h : Value type value) (rest : Bytes) :
    skipValue (value ++ rest) (number * 8 + type) = some rest := by
  cases h with
  | varint hn =>
      rw [skipValue, show (number * 8 + 0) % kTagTypeMask = 0 by simp [kTagTypeMask, kTagTypeBits]]
      simp only [readVarint_varint hn, Option.map_some]
  | fixed n =>
      rw [skipValue, show (number * 8 + 5) % kTagTypeMask = 5 by
        simp only [kTagTypeMask, kTagTypeBits]; omega]
      exact skip_append (fixed32 n) rest
  | @len bytes hlength =>
      rw [skipValue, show (number * 8 + 2) % kTagTypeMask = 2 by
        simp only [kTagTypeMask, kTagTypeBits]; omega]
      simp only [List.append_assoc, readVarint32_varint (show bytes.length < 2 ^ 32 by omega),
        Option.bind_eq_bind, Option.bind_some]
      rw [if_pos (show bytes.length ≤ kMaxParsedSize from Nat.le_pred_of_lt hlength)]
      exact skip_append bytes rest

/-- One field of the walk. -/
theorem ownStartOf_field (size : ℕ) (ownStart : Option ℕ) {fuel number type : ℕ}
    {value rest : Bytes} (bounds : 0 < number ∧ number < 2 ^ 28 ∧ type < 8) (held : Value type value)
    (hfuel : (varint (number * 8 + type) ++ (value ++ rest)).length ≤ fuel) :
    ∃ fuel', rest.length ≤ fuel' ∧
      ownStartOf size fuel (varint (number * 8 + type) ++ (value ++ rest)) ownStart =
        if ownStart.isSome ∧ number ≤ kLastSharedField then none
        else ownStartOf size fuel' rest
          (if ownStart.isNone ∧ kLastSharedField < number
            then some (size - (varint (number * 8 + type) ++ (value ++ rest)).length)
            else ownStart) := by
  obtain ⟨byte, more, hbytes⟩ := List.exists_cons_of_ne_nil (varint_ne_nil (number * 8 + type))
  have htag := nextTag_varint (show number * 8 + type < 2 ^ 32 by omega) (value ++ rest)
  have hfield : (number * 8 + type) / kTagTypeMask = number := by
    simp only [kTagTypeMask, kTagTypeBits]; omega
  rw [hbytes, List.cons_append] at htag hfuel ⊢
  obtain ⟨fuel, rfl⟩ : ∃ less, fuel = less + 1 := ⟨fuel - 1, by simp at hfuel; omega⟩
  refine ⟨fuel, by simp at hfuel; omega, ?_⟩
  rw [ownStartOf]
  simp only [htag, hfield, skipValue_value held]
  have hpos : number ≠ 0 := Nat.ne_of_gt bounds.1
  simp only [hpos, false_or]

/-- The walk passes the shared fields by. -/
theorem ownStartOf_shared (size : ℕ) {shared : Bytes} (own : Bytes)
    (h : Fields (· ≤ kLastSharedField) shared) : ∀ fuel, (shared ++ own).length ≤ fuel →
    ∃ fuel', own.length ≤ fuel' ∧
      ownStartOf size fuel (shared ++ own) none = ownStartOf size fuel' own none := by
  induction h with
  | nil => exact fun fuel hfuel => ⟨fuel, hfuel, rfl⟩
  | cons among bounds held _ ih =>
      intro fuel hfuel
      rw [List.append_assoc, List.append_assoc] at hfuel ⊢
      obtain ⟨fuel', hrest, hstep⟩ := ownStartOf_field size none bounds held hfuel
      obtain ⟨fuel'', hown, hwalk⟩ := ih fuel' hrest
      refine ⟨fuel'', hown, ?_⟩
      rw [hstep, if_neg (by simp), if_neg (by simp [Nat.not_lt.mpr among]), hwalk]

/-- Once in the own fields, the walk only goes to their end. -/
theorem ownStartOf_own {size start : ℕ} {own : Bytes} (h : Fields (kLastSharedField < ·) own) :
    ∀ fuel, own.length ≤ fuel → ownStartOf size fuel own (some start) = some (some start) := by
  induction h with
  | nil => intro fuel _; rw [ownStartOf]
  | cons among bounds held _ ih =>
      intro fuel hfuel
      obtain ⟨fuel', hrest, hstep⟩ := ownStartOf_field size (some start) bounds held hfuel
      rw [hstep, if_neg (by simp [Nat.not_le.mpr among]), if_neg (by simp), ih fuel' hrest]

/-- The shared fields of a payload are found, whatever own fields come after them. -/
theorem sharedFieldsOf_payload {shared own : Bytes} (hshared : Fields (· ≤ kLastSharedField) shared)
    (hown : Fields (kLastSharedField < ·) own)
    (hsize : (lenField 5 (shared ++ own)).length ≤ kMaxParsedSize) :
    sharedFieldsOf (lenField 5 (shared ++ own)) = some shared := by
  have hlength : (shared ++ own).length < 2 ^ 32 := by
    simp only [lenField, List.length_append, kMaxParsedSize] at hsize ⊢
    omega
  rw [sharedFieldsOf, if_neg (Nat.not_lt.mpr hsize), lenField,
    nextTag_varint (by decide) (varint (shared ++ own).length ++ (shared ++ own))]
  have htag : 5 * 8 + 2 = kAuthoritativeStateTag := rfl
  simp only [htag, ne_eq, not_true_eq_false, if_false, readVarint32_varint hlength]
  obtain ⟨fuel, hfuel, hwalk⟩ := ownStartOf_shared (shared ++ own).length own hshared _
    (Nat.le_refl _)
  rw [hwalk]
  cases hown with
  | nil => rw [ownStartOf]; simp
  | cons among bounds held more =>
      obtain ⟨fuel', hrest, hstep⟩ := ownStartOf_field _ none bounds held hfuel
      rw [hstep, if_neg (by simp), if_pos ⟨rfl, among⟩, ownStartOf_own more fuel' hrest]
      simp

/-! ### The encoder's bytes -/

def sharedBytes (tick : Tick) (bodies : List Pb.Body) : Bytes :=
  uintField 1 tick.toNat ++ repeatedField 2 Pb.Body.bytes bodies

theorem fields_shared (tick : Tick) (bodies : List Pb.Body) :
    Fields (· ≤ kLastSharedField) (sharedBytes tick bodies) := by
  refine (fields_uintField (by decide) (by decide) tick.toNat_lt).append ?_
  refine fields_repeatedField (by decide) (by decide) fun body _ => ?_
  have := body.length_bytes_le
  omega

/-- A value on a grid is a whole number an `sint32` carries. -/
theorem steps_bounds (value : Lib.Binary32) (grid : Grid) :
    -2 ^ 63 ≤ steps value grid ∧ steps value grid < 2 ^ 63 := by
  have := toSteps_mem value grid
  have := grid.narrow
  rw [steps]
  omega

theorem fields_own (wire : AuthoritativeStateWire) :
    Fields (kLastSharedField < ·) wire.writeOwn.bytes := by
  have hnarrow (n : UInt32) : n.toNat < 2 ^ 64 := by
    have := n.toNat_lt
    omega
  simp only [AuthoritativeStateWire.writeOwn, Pb.AuthoritativeState.bytes]
  refine Fields.append ?_ (fields_floatField (by decide) (by decide) _)
  refine Fields.append ?_ (fields_sintField (by decide) (by decide) (steps_bounds _ _))
  refine Fields.append ?_ (fields_sintField (by decide) (by decide) (steps_bounds _ _))
  refine Fields.append ?_ (fields_uintField (by decide) (by decide) (hnarrow _))
  refine Fields.append ?_ (fields_floatField (by decide) (by decide) _)
  refine Fields.append ?_ (fields_floatField (by decide) (by decide) _)
  refine Fields.append ?_ (fields_uintField (by decide) (by decide) (hnarrow _))
  refine Fields.append ?_ (fields_uintField (by decide) (by decide) (hnarrow _))
  exact fields_uintField (by decide) (by decide) wire.acknowledgedSequence.toNat_lt

/-- The state as another recipient is told it. -/
def AuthoritativeStateWire.addressed (state recipient : AuthoritativeStateWire) :
    AuthoritativeStateWire :=
  { recipient with tick := state.tick, bodies := state.bodies }

/-- What is written of a state: its shared fields' bytes, then its own ones'. -/
theorem AuthoritativeStateWire.write_addressed {state : AuthoritativeStateWire}
    {written : Pb.AuthoritativeState} (h : state.write = .ok written)
    (recipient : AuthoritativeStateWire) : ∃ other,
      (state.addressed recipient).write = .ok other ∧
      other.bytes = sharedBytes state.tick written.bodies ++ recipient.writeOwn.bytes := by
  obtain ⟨bodies, hbodies, h⟩ := Except.bind_eq_ok.mp h
  rw [← Except.pure_eq_ok.mp h]
  refine ⟨_, by rw [write, addressed, hbodies]; rfl, ?_⟩
  have hzero : uintField 1 (UInt64.toNat 0) = [] := rfl
  have hnone : repeatedField 2 Pb.Body.bytes [] = [] := rfl
  simp only [Pb.AuthoritativeState.bytes, writeOwn, sharedBytes, hzero, hnone,
    List.nil_append, List.append_assoc]

section
variable {isUtf8 : Text → Bool}

/-- CORRECT: readdressing the payload of any state the encoder accepts gives, byte for byte, the
    payload the encoder makes of that state with the other recipient's own fields; and a payload
    that cannot be readdressed is left as it was. -/
theorem readdress_encode {state : AuthoritativeStateWire} {payload : Bytes}
    (h : encode isUtf8 (.authoritativeState state) = .ok payload) :
    (∀ recipient, ∃ readdressed,
      encode isUtf8 (.authoritativeState (state.addressed recipient)) = .ok readdressed ∧
        readdress payload recipient = (.ok (), readdressed)) ∧
    ∀ payload recipient error, (readdress payload recipient).1 = .error error →
      (readdress payload recipient).2 = payload := by
  obtain ⟨message, hmessage, rfl⟩ := Except.map_eq_ok.mp h
  obtain ⟨written, hwritten, rfl⟩ := Except.map_eq_ok.mp hmessage
  constructor
  · intro recipient
    obtain ⟨same, hsame, hbefore⟩ := state.write_addressed hwritten state
    obtain ⟨other, hother, hafter⟩ := state.write_addressed hwritten recipient
    have hpayload : written.bytes = sharedBytes state.tick written.bodies ++ state.writeOwn.bytes := by
      rw [← hbefore]
      rw [show state.addressed state = state from rfl, hwritten] at hsame
      cases hsame
      rfl
    refine ⟨lenField 5 other.bytes, ?_, ?_⟩
    · rw [encode, MessageWire.write, hother]
      rfl
    · have hsize := MessageWire.length_write_le hmessage
      rw [Pb.Message.bytes, hpayload] at hsize
      have hshared := sharedFieldsOf_payload (fields_shared state.tick written.bodies)
        (fields_own state) (Nat.le_trans hsize (by decide))
      have hlength : (sharedBytes state.tick written.bodies).length +
          recipient.writeOwn.bytes.length < 2 ^ 32 := by
        have hother := AuthoritativeStateWire.length_write_le hother
        rw [hafter, List.length_append] at hother
        omega
      rw [Pb.Message.bytes, hpayload, readdress, hshared]
      simp only [Nat.mod_eq_of_lt hlength]
      rw [hafter, lenField, List.length_append]
      rfl
  · intro payload recipient error herror
    unfold readdress at herror ⊢
    cases hshared : sharedFieldsOf payload with
    | none => rfl
    | some shared => simp [hshared] at herror

end

/-- Tick 300 with one body, as its owner and as a dead player is told it. -/
def toldOwner : AuthoritativeStateWire where
  tick := 300
  bodies := [{ entity := 9, body := {}, yaw := .one, pitch := .zero }]
  rifle := { rounds := 30 }
  health := .one
  acknowledgedSequence := 5

def toldDead : AuthoritativeStateWire where acknowledgedSequence := 200

def ownerPayload : Bytes :=
  [42, 25, 8, 172, 2, 18, 11, 8, 9, 72, 128, 128, 2, 80, 128, 128, 128, 2, 24, 5, 40, 30, 93, 0, 0,
    128, 63]

def deadPayload : Bytes :=
  [42, 19, 8, 172, 2, 18, 11, 8, 9, 72, 128, 128, 2, 80, 128, 128, 128, 2, 24, 200, 1]

theorem readdress_encode_dead : readdress ownerPayload toldDead = (.ok (), deadPayload) := by
  have howner : encode (fun _ => true) (.authoritativeState toldOwner) = .ok ownerPayload := by rfl
  obtain ⟨payload, hencode, hreaddress⟩ := (readdress_encode howner).1 toldDead
  have hdead : encode (fun _ => true) (.authoritativeState (toldOwner.addressed toldDead)) =
      .ok deadPayload := by rfl
  rw [hdead] at hencode
  cases hencode
  exact hreaddress

end Augusta.Protocol
