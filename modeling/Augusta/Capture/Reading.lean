import Augusta.Capture.Order
import Augusta.Lib.Log

/-! What is read of a run of frames, whole or cut short.

      frame 1 │ frame 2 │ … │ frame n │ fra           n frames, torn
                                        └── the cut

    Each frame says how long it is, so a cut is seen where a frame ends early, and nowhere else. -/

namespace Augusta.Capture
open Lib.Protobuf
open Protocol Link

/-- A payload's frame. -/
def frameOf (payload : Bytes) : Bytes := UInt8.ofNat payload.length :: payload

theorem framed_eq_ok {payload : Except Protocol.EncodeError Bytes} {frame : Bytes} :
    framed payload = .ok frame ↔
      ∃ bytes, payload = .ok bytes ∧ bytes.length ≤ kMaxFramePayload ∧ frame = frameOf bytes := by
  unfold framed
  cases payload with
  | error e => simp
  | ok bytes =>
      simp only [Except.ok.injEq, exists_eq_left']
      split_ifs with hlong
      · simp [Nat.not_le.mpr hlong]
      · simp [Nat.not_lt.mp hlong, frameOf, eq_comm]

/-! ### One frame -/

theorem readFrame_nil {failed : Bool} : readFrame ⟨[], false, failed⟩ = .end_ := rfl

theorem readFrame_frame {payload : Bytes} (h : payload.length ≤ kMaxFramePayload) (rest : Bytes)
    (failed : Bool) :
    readFrame ⟨frameOf payload ++ rest, false, failed⟩ = .read payload ⟨rest, false, failed⟩ := by
  have hlength : (UInt8.ofNat payload.length).toNat = payload.length := by
    rw [kMaxFramePayload] at h
    rw [UInt8.toNat_ofNat']
    omega
  simp [readFrame, Stream.read, frameOf, hlength]

/-- A frame cut anywhere past its start is torn. -/
theorem readFrame_cut {payload : Bytes} (h : payload.length ≤ kMaxFramePayload) {k : ℕ}
    (hpos : 0 < k) (hcut : k < (frameOf payload).length) (failed : Bool) :
    readFrame ⟨(frameOf payload).take k, false, failed⟩ = .torn := by
  have hlength : (UInt8.ofNat payload.length).toNat = payload.length := by
    rw [kMaxFramePayload] at h
    rw [UInt8.toNat_ofNat']
    omega
  obtain ⟨k, rfl⟩ : ∃ less, k = less + 1 := ⟨k - 1, by omega⟩
  simp only [frameOf, List.length_cons] at hcut
  have hshort : min k payload.length ≠ payload.length := by omega
  have hread : (payload.take k).take payload.length = payload.take k := by
    rw [List.take_take, Nat.min_eq_right (by omega)]
  simp [readFrame, Stream.read, frameOf, List.take_succ_cons, hlength, hread, hshort]

/-! ### The records -/

section
variable {parse : Bytes → Option Pb.CaptureRecord}

/-- The records of payloads that all decode. -/
def Decoded (parse : Bytes → Option Pb.CaptureRecord) (payloads : List Bytes)
    (records : List CaptureRecord) : Prop :=
  List.Forall₂ (fun payload record => decodeCapture parse payload = some record ∧
    payload.length ≤ kMaxFramePayload) payloads records

/-- Of frames cut anywhere, the whole ones are read, and whether the cut is inside one. -/
theorem readRecords_cut {payloads : List Bytes} {records : List CaptureRecord}
    (h : Decoded parse payloads records) (failed : Bool) : ∀ {order : RecordOrder} {fuel k : ℕ},
    (order.admitsAll records).isSome → ((payloads.map frameOf).flatten.take k).length < fuel →
    readRecords parse fuel order ⟨(payloads.map frameOf).flatten.take k, false, failed⟩ =
      .ok (records.take (Lib.wholeBefore (payloads.map frameOf) k).1,
        (Lib.wholeBefore (payloads.map frameOf) k).2) := by
  induction h with
  | nil =>
      intro order fuel k _ hfuel
      obtain ⟨fuel, rfl⟩ : ∃ less, fuel = less + 1 := ⟨fuel - 1, by omega⟩
      simp [readRecords, readFrame_nil, Lib.wholeBefore]
  | @cons payload record payloads records hfirst _ ih =>
      intro order fuel k hadmits hfuel
      obtain ⟨hdecode, hlength⟩ := hfirst
      obtain ⟨order', hadmit, hrest⟩ := RecordOrder.admitsAll_cons.mp hadmits
      obtain ⟨fuel, rfl⟩ : ∃ less, fuel = less + 1 := ⟨fuel - 1, by omega⟩
      rw [List.map_cons, List.flatten_cons] at hfuel ⊢
      rw [Lib.wholeBefore]
      split_ifs with hcut
      · -- The cut is in this frame, or right before it.
        rw [List.take_append_of_le_length (Nat.le_of_lt hcut)]
        rcases Nat.eq_zero_or_pos k with rfl | hpos
        · simp [readRecords, readFrame_nil]
        · rw [readRecords, readFrame_cut hlength hpos hcut]
          simp [hpos]
      · have hle := Nat.not_lt.mp hcut
        have htake : (frameOf payload ++ (payloads.map frameOf).flatten).take k =
            frameOf payload ++ (payloads.map frameOf).flatten.take (k - (frameOf payload).length) := by
          rw [List.take_append, List.take_of_length_le hle]
        rw [htake] at hfuel ⊢
        have hless : ((payloads.map frameOf).flatten.take
            (k - (frameOf payload).length)).length < fuel := by
          rw [List.length_append] at hfuel
          simp only [frameOf, List.length_cons] at hfuel ⊢
          omega
        rw [readRecords, readFrame_frame hlength]
        simp only [hdecode, hadmit, ih hrest hless, Except.ok_bind]
        rfl

/-- Whatever is read, its records may follow one another. -/
theorem readRecords_admits : ∀ {fuel : ℕ} {order : RecordOrder} {s : Stream}
    {read : List CaptureRecord × Bool}, readRecords parse fuel order s = .ok read →
      (order.admitsAll read.1).isSome := by
  intro fuel
  induction fuel with
  | zero => intro order s read hread; cases hread
  | succ fuel ih =>
      intro order s read hread
      rw [readRecords] at hread
      cases hframe : readFrame s with
      | end_ => rw [hframe] at hread; cases hread; rfl
      | torn => rw [hframe] at hread; cases hread; rfl
      | unreadable => rw [hframe] at hread; cases hread
      | read payload after =>
          rw [hframe] at hread
          cases hdecode : decodeCapture parse payload with
          | none => simp [hdecode] at hread
          | some record =>
              cases hadmit : order.admits record with
              | none => simp [hdecode, hadmit] at hread
              | some order' =>
                  simp only [hdecode, hadmit] at hread
                  obtain ⟨rest, hrest, hread⟩ := Except.bind_eq_ok.mp hread
                  rw [← Except.pure_eq_ok.mp hread]
                  exact RecordOrder.admitsAll_cons.mpr ⟨order', hadmit, ih hrest⟩

/-- What is read of whole frames is what each of them decodes to. -/
theorem readRecords_decoded {payloads : List Bytes} {failed : Bool}
    (hlengths : ∀ payload ∈ payloads, payload.length ≤ kMaxFramePayload) :
    ∀ {order : RecordOrder} {fuel : ℕ} {read : List CaptureRecord × Bool},
    readRecords parse fuel order ⟨(payloads.map frameOf).flatten, false, failed⟩ = .ok read →
    Decoded parse payloads read.1 := by
  induction payloads with
  | nil =>
      intro order fuel read hread
      cases fuel with
      | zero => cases hread
      | succ fuel => cases hread; exact .nil
  | cons payload payloads ih =>
      intro order fuel read hread
      cases fuel with
      | zero => cases hread
      | succ fuel =>
          have hlength := hlengths payload List.mem_cons_self
          rw [List.map_cons, List.flatten_cons, readRecords, readFrame_frame hlength] at hread
          cases hdecode : decodeCapture parse payload with
          | none => simp [hdecode] at hread
          | some record =>
              cases hadmit : order.admits record with
              | none => simp [hdecode, hadmit] at hread
              | some order' =>
                  simp only [hdecode, hadmit] at hread
                  obtain ⟨rest, hrest, hread⟩ := Except.bind_eq_ok.mp hread
                  rw [← Except.pure_eq_ok.mp hread]
                  exact .cons ⟨hdecode, hlength⟩ (ih
                    (fun other hother => hlengths other (List.mem_cons_of_mem _ hother)) hrest)

end

end Augusta.Capture
