import Augusta.Protocol.RoundTrip

/-! What the decoder accepts, the encoder carries as it is.

      payload ──decode──▶ message ──encode──▶ payload' ──decode──▶ message

    Each check of the decoder is as strict as the encoder's of the same field, and each value it
    makes is on its grid: a decoded message snaps to itself, and encodes. -/

namespace Augusta.Protocol
open Lib (Binary32)
open Lib.Protobuf
open Limits Math

/-! ### The decoder's checks, passed -/

namespace Inbound

theorem snap_of_fromSteps {count : ℤ} {grid : Grid} {x : Binary32}
    (h : fromSteps count grid = .ok x) : snap x grid = x := by
  unfold fromSteps at h
  split_ifs at h with hout
  cases h
  rw [snap, toSteps_fromSteps (by omega)]

theorem snap_of_vecFromSteps {x y z : ℤ} {grid : Grid} {v : Vec3}
    (h : vecFromSteps x y z grid = .ok v) : v.snap grid = v := by
  obtain ⟨x, hx, h⟩ := Except.bind_eq_ok.mp h
  obtain ⟨y, hy, h⟩ := Except.bind_eq_ok.mp h
  obtain ⟨z, hz, h⟩ := Except.bind_eq_ok.mp h
  rw [← Except.pure_eq_ok.mp h, Vec3.snap]
  simp only [snap_of_fromSteps hx, snap_of_fromSteps hy, snap_of_fromSteps hz]

theorem text_fits {isUtf8 : Text → Bool} {bytes : Bytes} {max : ℕ} {t : Text}
    (h : text isUtf8 bytes max = .ok t) : t.length ≤ max ∧ isUtf8 t = true := by
  unfold text at h
  split_ifs at h with hlong hbad
  cases h
  exact ⟨by omega, by simpa using hbad⟩

theorem toEnum_bounds {value : ℤ} {first last e : UInt8} (h : toEnum value first last = .ok e) :
    first ≤ e ∧ e ≤ last := by
  unfold toEnum at h
  split_ifs at h with hout
  cases h
  have hlast := last.toNat_lt
  have hsame : (UInt8.ofInt value).toNat = value.toNat := by
    rw [UInt8.ofInt, UInt8.toNat_ofNat']
    omega
  rw [UInt8.le_iff_toNat_le, UInt8.le_iff_toNat_le, hsame]
  omega

theorem toBits_mask {bits mask read : UInt32} (h : toBits bits mask = .ok read) :
    read &&& ~~~mask = 0 := by
  unfold toBits at h
  split_ifs at h with hbits
  cases h
  exact not_not.mp hbits

end Inbound

/-! ### The bitfields -/

/-- Flags read through their mask have no other bit. -/
theorem masked_flags (bits : UInt32) (mask : UInt8) :
    (bits &&& mask.toUInt32).toUInt8 &&& ~~~mask = 0 := by
  rw [← UInt8.toBitVec_inj]
  refine BitVec.eq_of_getLsbD_eq fun i hi => ?_
  simp only [UInt8.toBitVec_and, UInt8.toBitVec_not, UInt32.toBitVec_toUInt8, UInt32.toBitVec_and,
    UInt8.toBitVec_toUInt32, BitVec.getLsbD_and, BitVec.getLsbD_not, BitVec.getLsbD_setWidth]
  cases hbit : mask.toBitVec.getLsbD i <;> simp

theorem le_of_and_not_mask32 {bits mask : UInt32} (h : bits &&& ~~~mask = 0) : bits ≤ mask := by
  have hsplit : bits = (bits &&& mask) ||| (bits &&& ~~~mask) := by
    rw [← UInt32.toBitVec_inj]
    ext i
    simp only [UInt32.toBitVec_or, UInt32.toBitVec_and, UInt32.toBitVec_not, BitVec.getElem_or,
      BitVec.getElem_and, BitVec.getElem_not]
    cases bits.toBitVec[i] <;> cases mask.toBitVec[i] <;> rfl
  rw [h, UInt32.or_zero] at hsplit
  rw [hsplit, UInt32.le_iff_toNat_le, UInt32.toNat_and]
  exact Nat.and_le_right

/-- What a round struck and the judgement's flags, of any bits within the mask. -/
theorem judgement_masked : ∀ n : Fin 32,
    let bits := UInt32.ofNat n
    (bits >>> kJudgementFlagsShift).toUInt8 &&& ~~~kJudgementFlagsMask = 0 ∧
      StruckWire.nothing.value ≤ (bits &&& kStruckMask).toUInt8 ∧
      (bits &&& kStruckMask).toUInt8 ≤ StruckWire.hitbox.value := by
  decide

theorem masked_judgement {bits : UInt32} (h : bits &&& ~~~kJudgementBitsMask = 0) :
    (bits >>> kJudgementFlagsShift).toUInt8 &&& ~~~kJudgementFlagsMask = 0 ∧
      StruckWire.nothing.value ≤ (bits &&& kStruckMask).toUInt8 ∧
      (bits &&& kStruckMask).toUInt8 ≤ StruckWire.hitbox.value := by
  have hle := UInt32.le_iff_toNat_le.mp (le_of_and_not_mask32 h)
  have hmask : kJudgementBitsMask.toNat = 31 := by decide
  have hlt : bits.toNat < 32 := by omega
  have hbits := judgement_masked ⟨bits.toNat, hlt⟩
  rwa [UInt32.ofNat_toNat] at hbits

/-! ### Lists -/

/-- Elements that each come back as they are, and that the encoder carries, do so in a list. -/
theorem canonical_list {α β : Type} {items : List α} {values : List β} {max : ℕ}
    {read : α → Except DecodeError β} {write : β → Except EncodeError α} {snapped : β → β}
    (one : ∀ {item value}, read item = .ok value →
      snapped value = value ∧ ∃ written, write value = .ok written)
    (h : readList items max read = .ok values) :
    values.map snapped = values ∧ ∃ written, writeList values max write = .ok written := by
  obtain ⟨⟨⟩, hfits, hmap⟩ := Except.bind_eq_ok.mp h
  have hmax : items.length ≤ max := by
    unfold Inbound.fits at hfits
    split_ifs at hfits
    omega
  have hone : ∀ value ∈ values, snapped value = value ∧ ∃ written, write value = .ok written := by
    intro value hvalue
    obtain ⟨item, _, hread⟩ := Except.exists_of_mem_mapM hmap value hvalue
    exact one hread
  obtain ⟨written, hwritten⟩ := Except.mapM_ok_of_forall fun value hvalue => (hone value hvalue).2
  refine ⟨?_, written, writeList_eq_ok.mpr ⟨?_, hwritten⟩⟩
  · calc values.map snapped = values.map id :=
          List.map_congr_left fun value hvalue => (hone value hvalue).1
      _ = values := List.map_id values
  · rw [Except.length_mapM hmap]
    exact hmax

/-! ### One message after another -/

theorem Outbound.text_writes {isUtf8 : Text → Bool} {t : Text} {max : ℕ}
    (h : t.length ≤ max ∧ isUtf8 t = true) : Outbound.text isUtf8 t max = .ok t :=
  Outbound.text_eq_ok.mpr ⟨h, rfl⟩

section
variable {isUtf8 : Text → Bool}

theorem CommandWire.canonical {pb : Pb.Command} {wire : CommandWire} (h : pb.read = .ok wire) :
    wire.snapped = wire ∧ ∃ written, wire.write = .ok written := by
  obtain ⟨direction, hdirection, h⟩ := Except.bind_eq_ok.mp h
  obtain ⟨yaw, hyaw, h⟩ := Except.bind_eq_ok.mp h
  obtain ⟨pitch, hpitch, h⟩ := Except.bind_eq_ok.mp h
  obtain ⟨bits, hbits, h⟩ := Except.bind_eq_ok.mp h
  obtain ⟨stance, hstance, h⟩ := Except.bind_eq_ok.mp h
  obtain ⟨seenAge, _, h⟩ := Except.bind_eq_ok.mp h
  obtain ⟨seenFraction, hfraction, h⟩ := Except.bind_eq_ok.mp h
  rw [← Except.pure_eq_ok.mp h]
  constructor
  · simp only [snapped, snapDirection, snapAngle, snapFraction,
      Inbound.snap_of_vecFromSteps hdirection, Inbound.snap_of_fromSteps hyaw,
      Inbound.snap_of_fromSteps hpitch, Inbound.snap_of_fromSteps hfraction]
  · rw [write, Outbound.fromFlags_eq_ok.mpr ⟨masked_flags bits _, rfl⟩, Except.ok_bind,
      Outbound.fromEnum_eq_ok.mpr ⟨Inbound.toEnum_bounds hstance, rfl⟩]
    exact ⟨_, rfl⟩

theorem EntityStateWire.canonical {pb : Pb.Body} {wire : EntityStateWire} (h : pb.read = .ok wire) :
    wire.snapped = wire ∧ ∃ written, wire.write = .ok written := by
  obtain ⟨position, hposition, h⟩ := Except.bind_eq_ok.mp h
  obtain ⟨velocity, hvelocity, h⟩ := Except.bind_eq_ok.mp h
  obtain ⟨bits, hbits, h⟩ := Except.bind_eq_ok.mp h
  obtain ⟨stance, hstance, h⟩ := Except.bind_eq_ok.mp h
  obtain ⟨previous, hprevious, h⟩ := Except.bind_eq_ok.mp h
  obtain ⟨stamina, hstamina, h⟩ := Except.bind_eq_ok.mp h
  obtain ⟨yaw, hyaw, h⟩ := Except.bind_eq_ok.mp h
  obtain ⟨pitch, hpitch, h⟩ := Except.bind_eq_ok.mp h
  obtain ⟨stride, _, h⟩ := Except.bind_eq_ok.mp h
  obtain ⟨toGo, _, h⟩ := Except.bind_eq_ok.mp h
  rw [← Except.pure_eq_ok.mp h]
  constructor
  · simp only [snapped, snapPosition, snapVelocity, snapStamina, snapAngle,
      Inbound.snap_of_vecFromSteps hposition, Inbound.snap_of_vecFromSteps hvelocity,
      Inbound.snap_of_fromSteps hstamina, Inbound.snap_of_fromSteps hyaw,
      Inbound.snap_of_fromSteps hpitch]
  · rw [write, Outbound.fromEnum_eq_ok.mpr ⟨Inbound.toEnum_bounds hstance, rfl⟩, Except.ok_bind,
      Outbound.fromFlags_eq_ok.mpr ⟨masked_flags _ _, rfl⟩, Except.ok_bind,
      Outbound.fromEnum_eq_ok.mpr ⟨Inbound.toEnum_bounds hprevious, rfl⟩]
    exact ⟨_, rfl⟩

theorem JudgedPlayerWire.canonical {pb : Pb.JudgedPlayer} {wire : JudgedPlayerWire}
    (h : pb.read = .ok wire) : wire.snapped = wire ∧ ∃ written, wire.write = .ok written := by
  obtain ⟨position, hposition, h⟩ := Except.bind_eq_ok.mp h
  obtain ⟨yaw, hyaw, h⟩ := Except.bind_eq_ok.mp h
  obtain ⟨bits, hbits, h⟩ := Except.bind_eq_ok.mp h
  obtain ⟨stance, hstance, h⟩ := Except.bind_eq_ok.mp h
  rw [← Except.pure_eq_ok.mp h]
  constructor
  · simp only [snapped, snapPosition, snapAngle, Inbound.snap_of_vecFromSteps hposition,
      Inbound.snap_of_fromSteps hyaw]
  · rw [write, Outbound.fromEnum_eq_ok.mpr ⟨Inbound.toEnum_bounds hstance, rfl⟩]
    exact ⟨_, rfl⟩

theorem JoinRequestWire.writes {pb : Pb.JoinRequest} {wire : JoinRequestWire}
    (h : pb.read isUtf8 = .ok wire) : ∃ written, wire.write isUtf8 = .ok written := by
  obtain ⟨version, hversion, h⟩ := Except.bind_eq_ok.mp h
  obtain ⟨clientPack, _, h⟩ := Except.bind_eq_ok.mp h
  obtain ⟨character, hcharacter, h⟩ := Except.bind_eq_ok.mp h
  obtain ⟨run, _, h⟩ := Except.bind_eq_ok.mp h
  rw [← Except.pure_eq_ok.mp h, write, Outbound.text_writes (Inbound.text_fits hversion),
    Except.ok_bind, Outbound.text_writes (Inbound.text_fits hcharacter)]
  exact ⟨_, rfl⟩

theorem ReplayRequestWire.writes {pb : Pb.ReplayRequest} {wire : ReplayRequestWire}
    (h : pb.read isUtf8 = .ok wire) : ∃ written, wire.write isUtf8 = .ok written := by
  obtain ⟨version, hversion, h⟩ := Except.bind_eq_ok.mp h
  obtain ⟨clientPack, _, h⟩ := Except.bind_eq_ok.mp h
  obtain ⟨capture, hcapture, h⟩ := Except.bind_eq_ok.mp h
  obtain ⟨run, _, h⟩ := Except.bind_eq_ok.mp h
  rw [← Except.pure_eq_ok.mp h, write, Outbound.text_writes (Inbound.text_fits hversion),
    Except.ok_bind, Outbound.text_writes (Inbound.text_fits hcapture)]
  exact ⟨_, rfl⟩

theorem ReenactRequestWire.canonical {pb : Pb.ReenactRequest} {wire : ReenactRequestWire}
    (h : pb.read isUtf8 = .ok wire) :
    wire.snapped = wire ∧ ∃ written, wire.write isUtf8 = .ok written := by
  obtain ⟨version, hversion, h⟩ := Except.bind_eq_ok.mp h
  obtain ⟨clientPack, _, h⟩ := Except.bind_eq_ok.mp h
  obtain ⟨character, hcharacter, h⟩ := Except.bind_eq_ok.mp h
  obtain ⟨spawn, hspawn, h⟩ := Except.bind_eq_ok.mp h
  obtain ⟨run, _, h⟩ := Except.bind_eq_ok.mp h
  rw [← Except.pure_eq_ok.mp h]
  constructor
  · simp only [snapped, snapPosition, Inbound.snap_of_vecFromSteps hspawn]
  · rw [write, Outbound.text_writes (Inbound.text_fits hversion), Except.ok_bind,
      Outbound.text_writes (Inbound.text_fits hcharacter)]
    exact ⟨_, rfl⟩

theorem RecoilKickWire.canonical {pb : Pb.RecoilKick} {wire : RecoilKickWire}
    (_ : pb.read = .ok wire) : id wire = wire ∧ ∃ written, wire.write = .ok written :=
  ⟨rfl, _, rfl⟩

theorem RifleWire.writes {pb : Pb.Rifle} {wire : RifleWire} (h : pb.read = .ok wire) :
    ∃ written, wire.write = .ok written := by
  obtain ⟨pattern, hpattern, h⟩ := Except.bind_eq_ok.mp h
  obtain ⟨capacity, _, h⟩ := Except.bind_eq_ok.mp h
  obtain ⟨-, written, hwritten⟩ := canonical_list RecoilKickWire.canonical hpattern
  rw [← Except.pure_eq_ok.mp h, write, hwritten]
  exact ⟨_, rfl⟩

theorem ParametersWire.writes {pb : Pb.Parameters} {wire : ParametersWire}
    (h : pb.read = .ok wire) : ∃ written, wire.write = .ok written := by
  obtain ⟨rifle, hrifle, h⟩ := Except.bind_eq_ok.mp h
  obtain ⟨count, _, h⟩ := Except.bind_eq_ok.mp h
  obtain ⟨written, hwritten⟩ := RifleWire.writes hrifle
  rw [← Except.pure_eq_ok.mp h, write, hwritten]
  exact ⟨_, rfl⟩

theorem JoinAcceptedWire.writes {pb : Pb.JoinAccepted} {wire : JoinAcceptedWire}
    (h : pb.read isUtf8 = .ok wire) : ∃ written, wire.write isUtf8 = .ok written := by
  obtain ⟨session, _, h⟩ := Except.bind_eq_ok.mp h
  obtain ⟨rate, _, h⟩ := Except.bind_eq_ok.mp h
  obtain ⟨parameters, hparameters, h⟩ := Except.bind_eq_ok.mp h
  obtain ⟨character, hcharacter, h⟩ := Except.bind_eq_ok.mp h
  obtain ⟨written, hwritten⟩ := ParametersWire.writes hparameters
  rw [← Except.pure_eq_ok.mp h, write, hwritten, Except.ok_bind,
    Outbound.text_writes (Inbound.text_fits hcharacter)]
  exact ⟨_, rfl⟩

theorem JoinRefusedWire.writes {pb : Pb.JoinRefused} {wire : JoinRefusedWire}
    (h : pb.read = .ok wire) : ∃ written, wire.write = .ok written := by
  obtain ⟨reason, hreason, h⟩ := Except.bind_eq_ok.mp h
  rw [← Except.pure_eq_ok.mp h, write,
    Outbound.fromEnum_eq_ok.mpr ⟨Inbound.toEnum_bounds hreason, rfl⟩]
  exact ⟨_, rfl⟩

theorem SequencedCommandWire.canonical {pb : Pb.Command} {wire : SequencedCommandWire}
    (h : pb.readSequenced = .ok wire) :
    wire.snapped = wire ∧ ∃ written, wire.write = .ok written := by
  obtain ⟨command, hcommand, h⟩ := Except.bind_eq_ok.mp h
  obtain ⟨hsnapped, written, hwritten⟩ := CommandWire.canonical hcommand
  rw [← Except.pure_eq_ok.mp h]
  constructor
  · simp only [snapped, hsnapped]
  · rw [write, hwritten]
    exact ⟨_, rfl⟩

theorem CommandsWire.canonical {pb : Pb.Commands} {wire : CommandsWire}
    (h : pb.read = .ok wire) : wire.snapped = wire ∧ ∃ written, wire.write = .ok written := by
  obtain ⟨commands, hcommands, h⟩ := Except.bind_eq_ok.mp h
  obtain ⟨hsnapped, written, hwritten⟩ := canonical_list SequencedCommandWire.canonical hcommands
  rw [← Except.pure_eq_ok.mp h]
  constructor
  · simp only [snapped, hsnapped]
  · rw [write, hwritten]
    exact ⟨_, rfl⟩

theorem AuthoritativeStateWire.canonical {pb : Pb.AuthoritativeState}
    {wire : AuthoritativeStateWire} (h : pb.read = .ok wire) :
    wire.snapped = wire ∧ ∃ written, wire.write = .ok written := by
  obtain ⟨bodies, hbodies, h⟩ := Except.bind_eq_ok.mp h
  obtain ⟨pitch, hpitch, h⟩ := Except.bind_eq_ok.mp h
  obtain ⟨yaw, hyaw, h⟩ := Except.bind_eq_ok.mp h
  obtain ⟨rounds, _, h⟩ := Except.bind_eq_ok.mp h
  obtain ⟨burst, _, h⟩ := Except.bind_eq_ok.mp h
  obtain ⟨queued, _, h⟩ := Except.bind_eq_ok.mp h
  obtain ⟨hsnapped, written, hwritten⟩ := canonical_list EntityStateWire.canonical hbodies
  rw [← Except.pure_eq_ok.mp h]
  constructor
  · simp only [snapped, snapAngle, hsnapped, Inbound.snap_of_fromSteps hpitch,
      Inbound.snap_of_fromSteps hyaw]
  · rw [write, hwritten]
    exact ⟨_, rfl⟩

theorem RosterEntryWire.canonical {pb : Pb.RosterEntry} {wire : RosterEntryWire}
    (h : pb.read isUtf8 = .ok wire) :
    id wire = wire ∧ ∃ written, wire.write isUtf8 = .ok written := by
  obtain ⟨session, _, h⟩ := Except.bind_eq_ok.mp h
  obtain ⟨character, hcharacter, h⟩ := Except.bind_eq_ok.mp h
  rw [← Except.pure_eq_ok.mp h, write, Outbound.text_writes (Inbound.text_fits hcharacter)]
  exact ⟨rfl, _, rfl⟩

theorem LobbyWire.writes {pb : Pb.Lobby} {wire : LobbyWire} (h : pb.read isUtf8 = .ok wire) :
    ∃ written, wire.write isUtf8 = .ok written := by
  obtain ⟨roster, hroster, h⟩ := Except.bind_eq_ok.mp h
  obtain ⟨-, written, hwritten⟩ := canonical_list RosterEntryWire.canonical hroster
  rw [← Except.pure_eq_ok.mp h, write, hwritten]
  exact ⟨_, rfl⟩

theorem MatchPlayerWire.canonical {pb : Pb.MatchPlayer} {wire : MatchPlayerWire}
    (h : pb.read isUtf8 = .ok wire) :
    wire.snapped = wire ∧ ∃ written, wire.write isUtf8 = .ok written := by
  obtain ⟨spawn, hspawn, h⟩ := Except.bind_eq_ok.mp h
  obtain ⟨session, _, h⟩ := Except.bind_eq_ok.mp h
  obtain ⟨character, hcharacter, h⟩ := Except.bind_eq_ok.mp h
  rw [← Except.pure_eq_ok.mp h]
  constructor
  · simp only [snapped, snapPosition, Inbound.snap_of_vecFromSteps hspawn]
  · rw [write, Outbound.text_writes (Inbound.text_fits hcharacter)]
    exact ⟨_, rfl⟩

theorem MatchStartWire.canonical {pb : Pb.MatchStart} {wire : MatchStartWire}
    (h : pb.read isUtf8 = .ok wire) :
    wire.snapped = wire ∧ ∃ written, wire.write isUtf8 = .ok written := by
  obtain ⟨players, hplayers, h⟩ := Except.bind_eq_ok.mp h
  obtain ⟨name, _, h⟩ := Except.bind_eq_ok.mp h
  obtain ⟨hsnapped, written, hwritten⟩ := canonical_list MatchPlayerWire.canonical hplayers
  rw [← Except.pure_eq_ok.mp h]
  constructor
  · simp only [snapped, hsnapped]
  · rw [write, hwritten]
    exact ⟨_, rfl⟩

theorem ShotWire.snapped_read {pb : Pb.Shot} {wire : ShotWire} (h : pb.read = .ok wire) :
    wire.snapped = wire := by
  obtain ⟨origin, horigin, h⟩ := Except.bind_eq_ok.mp h
  obtain ⟨yaw, hyaw, h⟩ := Except.bind_eq_ok.mp h
  obtain ⟨pitch, hpitch, h⟩ := Except.bind_eq_ok.mp h
  rw [← Except.pure_eq_ok.mp h]
  simp only [snapped, snapPosition, snapAngle, Inbound.snap_of_vecFromSteps horigin,
    Inbound.snap_of_fromSteps hyaw, Inbound.snap_of_fromSteps hpitch]

theorem HitConfirmationWire.writes {pb : Pb.HitConfirmation} {wire : HitConfirmationWire}
    (h : pb.read = .ok wire) : ∃ written, wire.write = .ok written := by
  obtain ⟨part, hpart, h⟩ := Except.bind_eq_ok.mp h
  rw [← Except.pure_eq_ok.mp h, write,
    Outbound.fromEnum_eq_ok.mpr ⟨Inbound.toEnum_bounds hpart, rfl⟩]
  exact ⟨_, rfl⟩

theorem DeathWire.canonical {pb : Pb.Death} {wire : DeathWire} (h : pb.read = .ok wire) :
    wire.snapped = wire ∧ ∃ written, wire.write = .ok written := by
  obtain ⟨yaw, hyaw, h⟩ := Except.bind_eq_ok.mp h
  obtain ⟨pitch, hpitch, h⟩ := Except.bind_eq_ok.mp h
  obtain ⟨part, hpart, h⟩ := Except.bind_eq_ok.mp h
  rw [← Except.pure_eq_ok.mp h]
  constructor
  · simp only [snapped, snapAngle, Inbound.snap_of_fromSteps hyaw,
      Inbound.snap_of_fromSteps hpitch]
  · rw [write, Outbound.fromEnum_eq_ok.mpr ⟨Inbound.toEnum_bounds hpart, rfl⟩]
    exact ⟨_, rfl⟩

theorem text_canonical {max : ℕ} {bytes : Bytes} {t : Text}
    (h : Inbound.text isUtf8 bytes max = .ok t) :
    id t = t ∧ ∃ written, Outbound.text isUtf8 t max = .ok written :=
  ⟨rfl, t, Outbound.text_writes (Inbound.text_fits h)⟩

theorem ReplayListingWire.canonical {pb : Pb.ReplayListing} {wire : ReplayListingWire}
    (h : pb.read isUtf8 = .ok wire) :
    id wire = wire ∧ ∃ written, wire.write isUtf8 = .ok written := by
  obtain ⟨characters, hcharacters, h⟩ := Except.bind_eq_ok.mp h
  obtain ⟨name, hname, h⟩ := Except.bind_eq_ok.mp h
  obtain ⟨rate, _, h⟩ := Except.bind_eq_ok.mp h
  obtain ⟨-, written, hwritten⟩ := @canonical_list _ _ _ _ _ _
    (fun character => Outbound.text isUtf8 character kMaxCharacterNameLength) id
    (fun hread => text_canonical hread) hcharacters
  rw [← Except.pure_eq_ok.mp h]
  refine ⟨rfl, ?_⟩
  rw [write, Outbound.text_writes (Inbound.text_fits hname), Except.ok_bind]
  simp only [hwritten]
  exact ⟨_, rfl⟩

theorem ReplayListWire.writes {pb : Pb.ReplayList} {wire : ReplayListWire}
    (h : pb.read isUtf8 = .ok wire) : ∃ written, wire.write isUtf8 = .ok written := by
  obtain ⟨replays, hreplays, h⟩ := Except.bind_eq_ok.mp h
  obtain ⟨-, written, hwritten⟩ := canonical_list ReplayListingWire.canonical hreplays
  rw [← Except.pure_eq_ok.mp h, write, hwritten]
  exact ⟨_, rfl⟩

theorem ShotJudgementEntryWire.canonical {pb : Pb.ShotJudgementEntry}
    {wire : ShotJudgementEntryWire} (h : pb.read = .ok wire) :
    wire.snapped = wire ∧ ∃ written, wire.write = .ok written := by
  obtain ⟨players, hplayers, h⟩ := Except.bind_eq_ok.mp h
  obtain ⟨after, _, h⟩ := Except.bind_eq_ok.mp h
  obtain ⟨hsnapped, written, hwritten⟩ := canonical_list JudgedPlayerWire.canonical hplayers
  rw [← Except.pure_eq_ok.mp h]
  constructor
  · simp only [snapped, hsnapped]
  · rw [write, hwritten]
    exact ⟨_, rfl⟩

theorem ShotJudgementWire.canonical {pb : Pb.ShotJudgement} {wire : ShotJudgementWire}
    (h : pb.read = .ok wire) : wire.snapped = wire ∧ ∃ written, wire.write = .ok written := by
  obtain ⟨bits, hbits, h⟩ := Except.bind_eq_ok.mp h
  obtain ⟨entries, hentries, h⟩ := Except.bind_eq_ok.mp h
  obtain ⟨point, hpoint, h⟩ := Except.bind_eq_ok.mp h
  obtain ⟨fraction, hfraction, h⟩ := Except.bind_eq_ok.mp h
  obtain ⟨ticks, _, h⟩ := Except.bind_eq_ok.mp h
  obtain ⟨part, hpart, h⟩ := Except.bind_eq_ok.mp h
  obtain ⟨hsnapped, written, hwritten⟩ := canonical_list ShotJudgementEntryWire.canonical hentries
  obtain ⟨hflags, hstruck⟩ := masked_judgement (Inbound.toBits_mask hbits)
  rw [← Except.pure_eq_ok.mp h]
  constructor
  · simp only [snapped, snapPosition, snapFraction, hsnapped, Inbound.snap_of_vecFromSteps hpoint,
      Inbound.snap_of_fromSteps hfraction]
  · rw [write, Outbound.fromEnum_eq_ok.mpr ⟨hstruck, rfl⟩, Except.ok_bind,
      Outbound.fromEnum_eq_ok.mpr ⟨Inbound.toEnum_bounds hpart, rfl⟩, Except.ok_bind,
      Outbound.fromFlags_eq_ok.mpr ⟨hflags, rfl⟩, Except.ok_bind, hwritten]
    exact ⟨_, rfl⟩

/-- A message read is on its grids, and the encoder carries it. -/
theorem MessageWire.canonical {pb : Pb.Message} {message : MessageWire}
    (h : pb.read isUtf8 = .ok message) :
    message.snapped = message ∧ ∃ written, message.write isUtf8 = .ok written := by
  cases pb with
  | notSet => cases h
  | replayListRequest => cases h; exact ⟨rfl, _, rfl⟩
  | joinRequest body =>
      obtain ⟨wire, hwire, rfl⟩ := Except.map_eq_ok.mp h
      obtain ⟨written, hwritten⟩ := JoinRequestWire.writes hwire
      exact ⟨rfl, _, by rw [write, hwritten, Except.ok_map]⟩
  | joinAccepted body =>
      obtain ⟨wire, hwire, rfl⟩ := Except.map_eq_ok.mp h
      obtain ⟨written, hwritten⟩ := JoinAcceptedWire.writes hwire
      exact ⟨rfl, _, by rw [write, hwritten, Except.ok_map]⟩
  | joinRefused body =>
      obtain ⟨wire, hwire, rfl⟩ := Except.map_eq_ok.mp h
      obtain ⟨written, hwritten⟩ := JoinRefusedWire.writes hwire
      exact ⟨rfl, _, by rw [write, hwritten, Except.ok_map]⟩
  | commands body =>
      obtain ⟨wire, hwire, rfl⟩ := Except.map_eq_ok.mp h
      obtain ⟨hsnapped, written, hwritten⟩ := CommandsWire.canonical hwire
      exact ⟨by rw [snapped, hsnapped], _, by rw [write, hwritten, Except.ok_map]⟩
  | authoritativeState body =>
      obtain ⟨wire, hwire, rfl⟩ := Except.map_eq_ok.mp h
      obtain ⟨hsnapped, written, hwritten⟩ := AuthoritativeStateWire.canonical hwire
      exact ⟨by rw [snapped, hsnapped], _, by rw [write, hwritten, Except.ok_map]⟩
  | lobby body =>
      obtain ⟨wire, hwire, rfl⟩ := Except.map_eq_ok.mp h
      obtain ⟨written, hwritten⟩ := LobbyWire.writes hwire
      exact ⟨rfl, _, by rw [write, hwritten, Except.ok_map]⟩
  | ready body =>
      obtain ⟨wire, -, rfl⟩ := Except.map_eq_ok.mp h
      exact ⟨rfl, _, rfl⟩
  | matchStart body =>
      obtain ⟨wire, hwire, rfl⟩ := Except.map_eq_ok.mp h
      obtain ⟨hsnapped, written, hwritten⟩ := MatchStartWire.canonical hwire
      exact ⟨by rw [snapped, hsnapped], _, by rw [write, hwritten, Except.ok_map]⟩
  | matchEnd body =>
      obtain ⟨wire, -, rfl⟩ := Except.map_eq_ok.mp h
      exact ⟨rfl, _, rfl⟩
  | shot body =>
      obtain ⟨wire, hwire, rfl⟩ := Except.map_eq_ok.mp h
      exact ⟨by rw [snapped, ShotWire.snapped_read hwire], _, rfl⟩
  | hitConfirmation body =>
      obtain ⟨wire, hwire, rfl⟩ := Except.map_eq_ok.mp h
      obtain ⟨written, hwritten⟩ := HitConfirmationWire.writes hwire
      exact ⟨rfl, _, by rw [write, hwritten, Except.ok_map]⟩
  | death body =>
      obtain ⟨wire, hwire, rfl⟩ := Except.map_eq_ok.mp h
      obtain ⟨hsnapped, written, hwritten⟩ := DeathWire.canonical hwire
      exact ⟨by rw [snapped, hsnapped], _, by rw [write, hwritten, Except.ok_map]⟩
  | replayList body =>
      obtain ⟨wire, hwire, rfl⟩ := Except.map_eq_ok.mp h
      obtain ⟨written, hwritten⟩ := ReplayListWire.writes hwire
      exact ⟨rfl, _, by rw [write, hwritten, Except.ok_map]⟩
  | replayRequest body =>
      obtain ⟨wire, hwire, rfl⟩ := Except.map_eq_ok.mp h
      obtain ⟨written, hwritten⟩ := ReplayRequestWire.writes hwire
      exact ⟨rfl, _, by rw [write, hwritten, Except.ok_map]⟩
  | reenactRequest body =>
      obtain ⟨wire, hwire, rfl⟩ := Except.map_eq_ok.mp h
      obtain ⟨hsnapped, written, hwritten⟩ := ReenactRequestWire.canonical hwire
      exact ⟨by rw [snapped, hsnapped], _, by rw [write, hwritten, Except.ok_map]⟩
  | debugSubscribe body =>
      obtain ⟨wire, -, rfl⟩ := Except.map_eq_ok.mp h
      exact ⟨rfl, _, rfl⟩
  | shotJudgement body =>
      obtain ⟨wire, hwire, rfl⟩ := Except.map_eq_ok.mp h
      obtain ⟨hsnapped, written, hwritten⟩ := ShotJudgementWire.canonical hwire
      exact ⟨by rw [snapped, hsnapped], _, by rw [write, hwritten, Except.ok_map]⟩

end

end Augusta.Protocol
