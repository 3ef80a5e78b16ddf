import Augusta.Protocol.CaptureRecords

/-! What becomes of a capture's record on the wire: it comes back as it was but for what travels on
    a grid, and it is short: none of its texts, lists or numbers is long. -/

namespace Augusta.Protocol
open Lib.Protobuf
open Limits Math

/-! ### What comes back -/

def CapturedJoinWire.snapped (wire : CapturedJoinWire) : CapturedJoinWire :=
  { wire with spawn := snapPosition wire.spawn }

def CapturedCommandWire.snapped (wire : CapturedCommandWire) : CapturedCommandWire :=
  { wire with command := wire.command.snapped }

def CaptureRecordWire.snapped : CaptureRecordWire → CaptureRecordWire
  | .join wire => .join wire.snapped
  | .command wire => .command wire.snapped
  | record => record

section
variable {isUtf8 : Text → Bool}

theorem CaptureHeaderWire.read_write {wire : CaptureHeaderWire} {written : Pb.CaptureHeader}
    (h : wire.write isUtf8 = .ok written) : written.read isUtf8 = .ok wire := by
  obtain ⟨version, hversion, h⟩ := Except.bind_eq_ok.mp h
  obtain ⟨versionFits, rfl⟩ := Outbound.text_eq_ok.mp hversion
  rw [← Except.pure_eq_ok.mp h]
  simp only [Pb.CaptureHeader.read, Inbound.packHash, Inbound.uuid, Inbound.bytesOf_toList,
    Inbound.text_of_fits versionFits, Inbound.narrow_toUInt32, Except.ok_bind]
  rfl

theorem CapturedJoinWire.read_write {wire : CapturedJoinWire} {written : Pb.CapturedJoin}
    (h : wire.write isUtf8 = .ok written) : written.read isUtf8 = .ok wire.snapped := by
  obtain ⟨character, hcharacter, h⟩ := Except.bind_eq_ok.mp h
  obtain ⟨characterFits, rfl⟩ := Outbound.text_eq_ok.mp hcharacter
  rw [← Except.pure_eq_ok.mp h]
  simp only [Pb.CapturedJoin.read, Inbound.vecFromSteps_steps, Inbound.uuid, Inbound.bytesOf_toList,
    Inbound.text_of_fits characterFits, Inbound.narrow_toUInt32, Except.ok_bind]
  rfl

theorem CapturedCommandWire.read_write {wire : CapturedCommandWire}
    {written : Pb.CapturedCommand} (h : wire.write = .ok written) :
    written.read = .ok wire.snapped := by
  obtain ⟨command, hcommand, h⟩ := Except.bind_eq_ok.mp h
  have hread : command.read = .ok wire.command.snapped :=
    CommandWire.read_write hcommand command.sequence
  rw [← Except.pure_eq_ok.mp h]
  simp only [Pb.CapturedCommand.read, Option.getD_some, hread, Inbound.narrow_toUInt32,
    Int32.ofInt_toInt, Except.ok_bind]
  rfl

theorem CaptureRecordWire.read_write {record : CaptureRecordWire} {written : Pb.CaptureRecord}
    (h : record.write isUtf8 = .ok written) : written.read isUtf8 = .ok record.snapped := by
  cases record with
  | header wire =>
      obtain ⟨body, hbody, rfl⟩ := Except.map_eq_ok.mp h
      rw [Pb.CaptureRecord.read, CaptureHeaderWire.read_write hbody]
      rfl
  | join wire =>
      obtain ⟨body, hbody, rfl⟩ := Except.map_eq_ok.mp h
      rw [Pb.CaptureRecord.read, CapturedJoinWire.read_write hbody]
      rfl
  | command wire =>
      obtain ⟨body, hbody, rfl⟩ := Except.map_eq_ok.mp h
      rw [Pb.CaptureRecord.read, CapturedCommandWire.read_write hbody]
      rfl
  | leave wire =>
      cases h
      simp only [Pb.CaptureRecord.read, Inbound.narrow_toUInt32, Except.ok_bind]
      rfl
  | death wire =>
      cases h
      simp only [Pb.CaptureRecord.read, Inbound.narrow_toUInt32, Except.ok_bind]
      rfl
  | matchEnd wire =>
      cases h
      simp only [Pb.CaptureRecord.read, Inbound.narrow_toUInt32, Except.ok_bind]
      rfl

/-! ### How long a record is -/

theorem Pb.Command.length_bytes_le_of_lt (m : Pb.Command) : m.bytes.length ≤ 99 := by
  simp only [Pb.Command.bytes, sintField, List.length_append]
  grind [length_uintField_le_of_lt]

theorem CaptureHeaderWire.length_write_le {wire : CaptureHeaderWire} {written : Pb.CaptureHeader}
    (h : wire.write isUtf8 = .ok written) : written.bytes.length ≤ 178 := by
  obtain ⟨version, hversion, h⟩ := Except.bind_eq_ok.mp h
  have := length_text_le hversion
  rw [← Except.pure_eq_ok.mp h]
  simp only [Pb.CaptureHeader.bytes, intField, List.length_append]
  grind [length_uintField_le_of_lt, length_bytesField_le_of_lt, Vector.length_toList,
    kMaxEngineVersionLength]

theorem CapturedJoinWire.length_write_le {wire : CapturedJoinWire} {written : Pb.CapturedJoin}
    (h : wire.write isUtf8 = .ok written) : written.bytes.length ≤ 157 := by
  obtain ⟨character, hcharacter, h⟩ := Except.bind_eq_ok.mp h
  have := length_text_le hcharacter
  rw [← Except.pure_eq_ok.mp h]
  simp only [Pb.CapturedJoin.bytes, sintField, List.length_append]
  grind [length_uintField_le_of_lt, length_bytesField_le_of_lt, Vector.length_toList,
    kMaxCharacterNameLength]

theorem CapturedCommandWire.length_write_le {wire : CapturedCommandWire}
    {written : Pb.CapturedCommand} (h : wire.write = .ok written) :
    written.bytes.length ≤ 143 := by
  obtain ⟨command, hcommand, h⟩ := Except.bind_eq_ok.mp h
  have := command.length_bytes_le_of_lt
  rw [← Except.pure_eq_ok.mp h]
  simp only [Pb.CapturedCommand.bytes, sintField, List.length_append, Option.map_some,
    Option.getD_some]
  grind [length_uintField_le_of_lt, length_lenField_le_of_lt]

/-- No record the encoder accepts is longer than the one byte of its frame's length says. -/
theorem CaptureRecordWire.length_write_le {record : CaptureRecordWire}
    {written : Pb.CaptureRecord} (h : record.write isUtf8 = .ok written) :
    written.bytes.length ≤ 198 := by
  cases record with
  | header wire =>
      obtain ⟨body, hbody, rfl⟩ := Except.map_eq_ok.mp h
      have := CaptureHeaderWire.length_write_le hbody
      grind [Pb.CaptureRecord.bytes, length_lenField_le]
  | join wire =>
      obtain ⟨body, hbody, rfl⟩ := Except.map_eq_ok.mp h
      have := CapturedJoinWire.length_write_le hbody
      grind [Pb.CaptureRecord.bytes, length_lenField_le]
  | command wire =>
      obtain ⟨body, hbody, rfl⟩ := Except.map_eq_ok.mp h
      have := CapturedCommandWire.length_write_le hbody
      grind [Pb.CaptureRecord.bytes, length_lenField_le]
  | leave wire =>
      cases h
      grind [Pb.CaptureRecord.bytes, Pb.CapturedLeave.bytes, length_lenField_le,
        length_uintField_le]
  | death wire =>
      cases h
      grind [Pb.CaptureRecord.bytes, Pb.CapturedDeath.bytes, length_lenField_le,
        length_uintField_le]
  | matchEnd wire =>
      cases h
      grind [Pb.CaptureRecord.bytes, Pb.CapturedMatchEnd.bytes, length_lenField_le,
        length_uintField_le]

end

end Augusta.Protocol
