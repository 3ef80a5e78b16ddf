import Augusta.Capture.Records
import Augusta.Protocol.Canonical
import Augusta.Protocol.CaptureRoundTrip

/-! How a capture's file holds one record: its length in one byte, then its payload.

    The codec accepts no record longer than that byte says, and no message longer than the transport
    sends, and what it reads it writes as it is. -/

namespace Augusta.Capture
open Lib.Protobuf
open Protocol

def kFrameLengthSize : ℕ := 1

/-- The longest payload a frame holds. -/
def kMaxFramePayload : ℕ := 255

/-- A record's frame, of its encoding. -/
def framed (payload : Except Protocol.EncodeError Bytes) : Except EncodeError Bytes :=
  match payload with
  | .error _ => .error .failure
  | .ok payload =>
      if kMaxFramePayload < payload.length then .error .recordTooLong
      else .ok (UInt8.ofNat payload.length :: payload)

section
variable {isUtf8 : Text → Bool}

theorem length_encodeCaptureRecord_le {record : CaptureRecordWire} {payload : Bytes}
    (h : encodeCaptureRecord isUtf8 record = .ok payload) : payload.length ≤ kMaxFramePayload := by
  obtain ⟨written, hwritten, rfl⟩ := Except.map_eq_ok.mp h
  exact Nat.le_trans (CaptureRecordWire.length_write_le hwritten) (by decide)

/-- A record the codec accepts has its frame. -/
theorem framed_encodeCaptureRecord {record : CaptureRecordWire} {payload : Bytes}
    (h : encodeCaptureRecord isUtf8 record = .ok payload) :
    framed (encodeCaptureRecord isUtf8 record) = .ok (UInt8.ofNat payload.length :: payload) := by
  rw [h, framed, if_neg (Nat.not_lt.mpr (length_encodeCaptureRecord_le h))]

/-- CORRECT: a message the decoder made of any bytes is one the encoder accepts, and its encoding
    decodes to that message; no payload and no capture's record is ever too long. Protobuf is only
    asked to parse what it serialized. -/
theorem decode_canonical (parse : Bytes → Option Pb.Message) {payload : Bytes}
    {message : MessageWire} (h : decode isUtf8 parse payload = .ok message)
    (hparse : ∀ written, message.write isUtf8 = .ok written → parse written.bytes = some written) :
    (∃ encoded, encode isUtf8 message = .ok encoded ∧
      decode isUtf8 parse encoded = .ok message) ∧
    (∀ message encoded, encode isUtf8 message = .ok encoded →
      encoded.length ≤ kMaxPayloadSize) ∧
    ∀ record encoded, encodeCaptureRecord isUtf8 record = .ok encoded →
      encoded.length ≤ kMaxFramePayload ∧
        framed (encodeCaptureRecord isUtf8 record) =
          .ok (UInt8.ofNat encoded.length :: encoded) := by
  refine ⟨?_, ?_, fun _ _ hencode =>
    ⟨length_encodeCaptureRecord_le hencode, framed_encodeCaptureRecord hencode⟩⟩
  · unfold decode at h
    split_ifs at h with hsize
    cases hpb : parse payload with
    | none => simp [hpb] at h
    | some pb =>
      simp only [hpb] at h
      obtain ⟨hsnapped, written, hwritten⟩ := MessageWire.canonical h
      have hencode : encode isUtf8 message = .ok written.bytes := by
        rw [encode, hwritten, Except.ok_map]
      refine ⟨written.bytes, hencode, ?_⟩
      rw [(decode_encode parse message hparse hencode).1, hsnapped]
  · rintro message encoded hencode
    obtain ⟨written, hwritten, rfl⟩ := Except.map_eq_ok.mp hencode
    exact MessageWire.length_write_le hwritten

end

/-- A Ready message with a field this build does not know, which parsing leaves out. -/
def strangeReady : Bytes := [58, 4, 8, 3, 16, 1]

def parseReady (payload : Bytes) : Option Pb.Message :=
  if payload = strangeReady ∨ payload = [58, 2, 8, 3] then some (.ready { version := 3 }) else none

theorem decode_canonical_ready :
    ∃ encoded, encode (fun _ => true) (.ready { version := 3 }) = .ok encoded ∧
      decode (fun _ => true) parseReady encoded = .ok (.ready { version := 3 }) := by
  refine (@decode_canonical _ parseReady strangeReady _ (by rfl) ?_).1
  rintro written hwritten
  cases hwritten
  rfl

end Augusta.Capture
