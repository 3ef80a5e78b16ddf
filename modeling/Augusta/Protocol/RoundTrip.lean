import Augusta.Protocol.Decoder
import Augusta.Protocol.Size
import Mathlib.Algebra.GroupWithZero.Nat

/-! What the encoder accepts, the decoder reads back.

      message ──write──▶ envelope ──bytes──▶ payload
                                                │ parse
      snapped ◀──read─── envelope ◀─────────────┘

    Each mapping of the decoder undoes the encoder's of the same message, but for the fields that
    travel on a grid: those come back snapped to it. -/

namespace Augusta.Protocol
open Lib (Binary32)
open Lib.Protobuf
open Limits Math

/-! ### The decoder's checks, of what the encoder wrote -/

namespace Inbound

@[simp] theorem fromSteps_steps (value : Binary32) (grid : Grid) :
    fromSteps (steps value grid) grid = .ok (snap value grid) := by
  have := toSteps_mem value grid
  rw [fromSteps, steps, if_neg (by omega), snap]

theorem toNat_unsignedSteps {value : Binary32} {grid : Grid} (hmin : 0 ≤ grid.min) :
    ((unsignedSteps value grid).toNat : ℤ) = toSteps value grid := by
  have hnarrow := grid.narrow
  have hmem := toSteps_mem value grid
  rw [unsignedSteps, UInt32.ofInt, UInt32.toNat_ofNat']
  omega

@[simp] theorem fromSteps_unsignedSteps_stamina (value : Binary32) :
    fromSteps (unsignedSteps value kStaminaGrid).toNat kStaminaGrid = .ok (snapStamina value) := by
  rw [toNat_unsignedSteps (by decide)]
  exact fromSteps_steps value kStaminaGrid

@[simp] theorem fromSteps_unsignedSteps_fraction (value : Binary32) :
    fromSteps (unsignedSteps value kFractionGrid).toNat kFractionGrid =
      .ok (snapFraction value) := by
  rw [toNat_unsignedSteps (by decide)]
  exact fromSteps_steps value kFractionGrid

@[simp] theorem vecFromSteps_steps (value : Vec3) (grid : Grid) :
    vecFromSteps (steps value.x grid) (steps value.y grid) (steps value.z grid) grid =
      .ok (value.snap grid) := by
  simp [vecFromSteps, Vec3.snap, pure, Except.pure]

@[simp] theorem narrow_toUInt32 (value : UInt8) : narrow value.toUInt32 = .ok value := by
  have hlt := value.toNat_lt
  have hle : ¬ value.toUInt32 > 255 := by
    rw [gt_iff_lt, UInt32.lt_iff_toNat_lt, UInt8.toNat_toUInt32]
    simp
    omega
  rw [narrow, if_neg hle, UInt8.toUInt8_toUInt32]

@[simp] theorem narrow16_toUInt32 (value : UInt16) : narrow16 value.toUInt32 = .ok value := by
  have hlt := value.toNat_lt
  have hle : ¬ value.toUInt32 > 65535 := by
    rw [gt_iff_lt, UInt32.lt_iff_toNat_lt, UInt16.toNat_toUInt32]
    simp
    omega
  rw [narrow16, if_neg hle, UInt16.toUInt16_toUInt32]

theorem toEnum_of_le {value first last : UInt8} (h : first ≤ value ∧ value ≤ last) :
    toEnum value.toNat first last = .ok value := by
  have hfirst := UInt8.le_iff_toNat_le.mp h.1
  have hlast := UInt8.le_iff_toNat_le.mp h.2
  rw [toEnum, if_neg (by omega)]
  have hsame : UInt8.ofInt value.toNat = value := by
    have := value.toNat_lt
    rw [← UInt8.toNat_inj, UInt8.ofInt, UInt8.toNat_ofNat']
    omega
  rw [hsame]

theorem toBits_of_mask {bits mask : UInt32} (h : bits &&& ~~~mask = 0) :
    toBits bits mask = .ok bits := by
  rw [toBits, if_neg (not_not_intro h)]

theorem text_of_fits {isUtf8 : Text → Bool} {t : Text} {max : ℕ}
    (h : t.length ≤ max ∧ isUtf8 t = true) : text isUtf8 t max = .ok t := by
  rw [text, if_neg (by omega), h.2]
  rfl

@[simp] theorem bytesOf_toList {size : ℕ} [NeZero size] (v : Vector UInt8 size) :
    bytesOf v.toList size = .ok v := by
  have hne : v.toList.isEmpty = false := by
    have := Nat.pos_of_neZero size
    rw [List.isEmpty_eq_false_iff, ← List.length_pos_iff, Vector.length_toList]
    exact this
  rw [bytesOf, hne, if_neg Bool.false_ne_true, dif_pos v.length_toList]
  simp [Vector.toList]

end Inbound

theorem readList_of_writeList {α β γ : Type} {items : List α} {max : ℕ}
    {write : α → Except EncodeError β} {f : β → Except DecodeError γ} {g : α → γ}
    {written : List β}
    (one : ∀ {item value}, write item = .ok value → f value = .ok (g item))
    (h : writeList items max write = .ok written) :
    readList written max f = .ok (items.map g) := by
  obtain ⟨hlength, hmap⟩ := writeList_eq_ok.mp h
  have hwritten := Except.length_mapM hmap
  rw [readList, Inbound.fits, if_neg (by omega), Except.ok_bind,
    Except.mapM_round_trip one hmap]

/-! ### The bitfields -/

theorem exists_fin_of_le {value : UInt8} {m : ℕ} (hm : m < 256)
    (h : value ≤ UInt8.ofNat m) : ∃ n : Fin (m + 1), value = UInt8.ofNat n := by
  have hle : value.toNat ≤ m := by
    have := UInt8.le_iff_toNat_le.mp h
    rw [UInt8.toNat_ofNat'] at this
    omega
  exact ⟨⟨value.toNat, by omega⟩, by simp⟩

theorem le_of_and_not_mask {flags mask : UInt8} (h : flags &&& ~~~mask = 0) : flags ≤ mask := by
  have hsplit : flags = (flags &&& mask) ||| (flags &&& ~~~mask) := by
    rw [← UInt8.toBitVec_inj]
    ext i
    simp only [UInt8.toBitVec_or, UInt8.toBitVec_and, UInt8.toBitVec_not, BitVec.getElem_or,
      BitVec.getElem_and, BitVec.getElem_not]
    cases flags.toBitVec[i] <;> cases mask.toBitVec[i] <;> rfl
  rw [h, UInt8.or_zero] at hsplit
  rw [hsplit, UInt8.le_iff_toNat_le, UInt8.toNat_and]
  exact Nat.and_le_right

/-- A command's flags and stance come out of the bits they went in. -/
theorem command_bits : ∀ (flags : Fin 16) (stance : Fin 3),
    let bits := (UInt8.ofNat flags).toUInt32 |||
      (UInt8.ofNat stance).toUInt32 <<< kCommandStanceShift
    bits &&& ~~~kCommandBitsMask = 0 ∧
      (bits >>> kCommandStanceShift).toNat = (UInt8.ofNat stance).toNat ∧
      (bits &&& kCommandFlagsMask.toUInt32).toUInt8 = UInt8.ofNat flags := by
  decide

/-- A body's stances and flags come out of the bits they went in. -/
theorem body_bits : ∀ (stance : Fin 3) (flags : Fin 8) (previous : Fin 3),
    let bits := (UInt8.ofNat stance).toUInt32 ||| (UInt8.ofNat flags).toUInt32 <<< kBodyFlagsShift |||
      (UInt8.ofNat previous).toUInt32 <<< kPreviousStanceShift
    bits &&& ~~~kBodyBitsMask = 0 ∧
      (bits &&& kStanceMask).toNat = (UInt8.ofNat stance).toNat ∧
      ((bits >>> kPreviousStanceShift) &&& kStanceMask).toNat = (UInt8.ofNat previous).toNat ∧
      ((bits >>> kBodyFlagsShift) &&& kBodyFlagsMask.toUInt32).toUInt8 = UInt8.ofNat flags := by
  decide

/-- What a round struck, where, and the judgement's flags come out of the bits they went in. -/
theorem judgement_bits : ∀ (struck part : Fin 4) (flags : Fin 2),
    let bits := (UInt8.ofNat struck).toUInt32 |||
      (UInt8.ofNat part).toUInt32 <<< kJudgementPartShift |||
      (UInt8.ofNat flags).toUInt32 <<< kJudgementFlagsShift
    bits &&& ~~~kJudgementBitsMask = 0 ∧
      (bits &&& kStruckMask).toUInt8 = UInt8.ofNat struck ∧
      ((bits >>> kJudgementPartShift) &&& kPartMask).toNat = (UInt8.ofNat part).toNat ∧
      (bits >>> kJudgementFlagsShift).toUInt8 = UInt8.ofNat flags := by
  decide

theorem stance_bits : ∀ stance : Fin 3,
    (UInt8.ofNat stance).toUInt32 &&& ~~~kStanceMask = 0 ∧
      (UInt8.ofNat stance).toUInt32.toNat = (UInt8.ofNat stance).toNat := by
  decide

theorem read_command_bits {flags stance : UInt8} (hflags : flags &&& ~~~kCommandFlagsMask = 0)
    (hstance : StanceWire.standing.value ≤ stance ∧ stance ≤ StanceWire.prone.value) :
    let bits := flags.toUInt32 ||| stance.toUInt32 <<< kCommandStanceShift
    Inbound.toBits bits kCommandBitsMask = .ok bits ∧
      Inbound.toEnum (bits >>> kCommandStanceShift).toNat StanceWire.standing.value
        StanceWire.prone.value = .ok stance ∧
      (bits &&& kCommandFlagsMask.toUInt32).toUInt8 = flags := by
  obtain ⟨f, rfl⟩ := exists_fin_of_le (m := 15) (by decide) (le_of_and_not_mask hflags)
  obtain ⟨s, rfl⟩ := exists_fin_of_le (m := 2) (by decide) hstance.2
  obtain ⟨hmask, hread, hback⟩ := command_bits f s
  intro bits
  exact ⟨Inbound.toBits_of_mask hmask, by rw [hread]; exact Inbound.toEnum_of_le hstance, hback⟩

theorem read_body_bits {stance flags previous : UInt8}
    (hstance : StanceWire.standing.value ≤ stance ∧ stance ≤ StanceWire.prone.value)
    (hflags : flags &&& ~~~kBodyFlagsMask = 0)
    (hprevious : StanceWire.standing.value ≤ previous ∧ previous ≤ StanceWire.prone.value) :
    let bits := stance.toUInt32 ||| flags.toUInt32 <<< kBodyFlagsShift |||
      previous.toUInt32 <<< kPreviousStanceShift
    Inbound.toBits bits kBodyBitsMask = .ok bits ∧
      Inbound.toEnum (bits &&& kStanceMask).toNat StanceWire.standing.value
        StanceWire.prone.value = .ok stance ∧
      Inbound.toEnum ((bits >>> kPreviousStanceShift) &&& kStanceMask).toNat
        StanceWire.standing.value StanceWire.prone.value = .ok previous ∧
      ((bits >>> kBodyFlagsShift) &&& kBodyFlagsMask.toUInt32).toUInt8 = flags := by
  obtain ⟨s, rfl⟩ := exists_fin_of_le (m := 2) (by decide) hstance.2
  obtain ⟨f, rfl⟩ := exists_fin_of_le (m := 7) (by decide) (le_of_and_not_mask hflags)
  obtain ⟨p, rfl⟩ := exists_fin_of_le (m := 2) (by decide) hprevious.2
  obtain ⟨hmask, hread, hreadPrevious, hback⟩ := body_bits s f p
  intro bits
  exact ⟨Inbound.toBits_of_mask hmask, by rw [hread]; exact Inbound.toEnum_of_le hstance,
    by rw [hreadPrevious]; exact Inbound.toEnum_of_le hprevious, hback⟩

theorem read_judgement_bits {struck part flags : UInt8}
    (hstruck : StruckWire.nothing.value ≤ struck ∧ struck ≤ StruckWire.hitbox.value)
    (hpart : BodyPartWire.head.value ≤ part ∧ part ≤ BodyPartWire.limb.value)
    (hflags : flags &&& ~~~kJudgementFlagsMask = 0) :
    let bits := struck.toUInt32 ||| part.toUInt32 <<< kJudgementPartShift |||
      flags.toUInt32 <<< kJudgementFlagsShift
    Inbound.toBits bits kJudgementBitsMask = .ok bits ∧
      (bits &&& kStruckMask).toUInt8 = struck ∧
      Inbound.toEnum ((bits >>> kJudgementPartShift) &&& kPartMask).toNat
        BodyPartWire.head.value BodyPartWire.limb.value = .ok part ∧
      (bits >>> kJudgementFlagsShift).toUInt8 = flags := by
  obtain ⟨s, rfl⟩ := exists_fin_of_le (m := 3) (by decide) hstruck.2
  obtain ⟨p, rfl⟩ := exists_fin_of_le (m := 3) (by decide) hpart.2
  obtain ⟨f, rfl⟩ := exists_fin_of_le (m := 1) (by decide) (le_of_and_not_mask hflags)
  obtain ⟨hmask, hstruckBack, hread, hback⟩ := judgement_bits s p f
  intro bits
  exact ⟨Inbound.toBits_of_mask hmask, hstruckBack,
    by rw [hread]; exact Inbound.toEnum_of_le hpart, hback⟩

theorem read_stance_bits {stance : UInt8}
    (hstance : StanceWire.standing.value ≤ stance ∧ stance ≤ StanceWire.prone.value) :
    Inbound.toBits stance.toUInt32 kStanceMask = .ok stance.toUInt32 ∧
      Inbound.toEnum stance.toUInt32.toNat StanceWire.standing.value StanceWire.prone.value =
        .ok stance := by
  obtain ⟨s, rfl⟩ := exists_fin_of_le (m := 2) (by decide) hstance.2
  obtain ⟨hmask, hread⟩ := stance_bits s
  exact ⟨Inbound.toBits_of_mask hmask, by rw [hread]; exact Inbound.toEnum_of_le hstance⟩

/-- An enumerator travels as a signed number. -/
theorem toInt_toInt64 (value : UInt8) : value.toUInt32.toUInt64.toInt64.toInt = value.toNat := by
  have hlt := value.toNat_lt
  have hsame : value.toUInt32.toUInt64.toInt64 = Int64.ofNat value.toNat := by
    rw [← Int64.toBitVec_inj]
    apply BitVec.eq_of_toNat_eq
    simp
  rw [hsame, Int64.toInt_ofNat_of_lt (by omega)]

theorem text_read_write {isUtf8 : Text → Bool} {max : ℕ} {text written : Text}
    (h : Outbound.text isUtf8 text max = .ok written) :
    Inbound.text isUtf8 written max = .ok (id text) := by
  obtain ⟨hfits, rfl⟩ := Outbound.text_eq_ok.mp h
  exact Inbound.text_of_fits hfits

/-- The progress travels as how far it has to go. -/
theorem stanceProgress_back (progress : UInt8) :
    kStanceProgressOver - (kStanceProgressOver - progress) = progress := by
  rw [kStanceProgressOver, ← UInt8.toBitVec_inj, UInt8.toBitVec_sub, UInt8.toBitVec_sub]
  bv_omega

/-! ### What comes back -/

def CommandWire.snapped (wire : CommandWire) : CommandWire :=
  { wire with
    direction := snapDirection wire.direction
    yaw := snapAngle wire.yaw
    pitch := snapAngle wire.pitch
    seenFraction := snapFraction wire.seenFraction }

def EntityStateWire.snapped (wire : EntityStateWire) : EntityStateWire :=
  { wire with
    body := { wire.body with
      position := snapPosition wire.body.position
      velocity := snapVelocity wire.body.velocity
      stamina := snapStamina wire.body.stamina }
    yaw := snapAngle wire.yaw
    pitch := snapAngle wire.pitch }

def SequencedCommandWire.snapped (wire : SequencedCommandWire) : SequencedCommandWire :=
  { wire with command := wire.command.snapped }

def CommandsWire.snapped (wire : CommandsWire) : CommandsWire :=
  { wire with commands := wire.commands.map SequencedCommandWire.snapped }

def AuthoritativeStateWire.snapped (wire : AuthoritativeStateWire) : AuthoritativeStateWire :=
  { wire with
    bodies := wire.bodies.map EntityStateWire.snapped
    rifle := { wire.rifle with
      recoilPitch := snapAngle wire.rifle.recoilPitch
      recoilYaw := snapAngle wire.rifle.recoilYaw } }

def MatchPlayerWire.snapped (wire : MatchPlayerWire) : MatchPlayerWire :=
  { wire with spawn := snapPosition wire.spawn }

def MatchStartWire.snapped (wire : MatchStartWire) : MatchStartWire :=
  { wire with players := wire.players.map MatchPlayerWire.snapped }

def ShotWire.snapped (wire : ShotWire) : ShotWire :=
  { wire with
    origin := snapPosition wire.origin
    yaw := snapAngle wire.yaw
    pitch := snapAngle wire.pitch }

def DeathWire.snapped (wire : DeathWire) : DeathWire :=
  { wire with yaw := snapAngle wire.yaw, pitch := snapAngle wire.pitch }

def ReenactRequestWire.snapped (wire : ReenactRequestWire) : ReenactRequestWire :=
  { wire with spawn := snapPosition wire.spawn }

def JudgedPlayerWire.snapped (wire : JudgedPlayerWire) : JudgedPlayerWire :=
  { wire with position := snapPosition wire.position, yaw := snapAngle wire.yaw }

def ShotJudgementEntryWire.snapped (wire : ShotJudgementEntryWire) : ShotJudgementEntryWire :=
  { wire with players := wire.players.map JudgedPlayerWire.snapped }

def ShotJudgementWire.snapped (wire : ShotJudgementWire) : ShotJudgementWire :=
  { wire with
    entries := wire.entries.map ShotJudgementEntryWire.snapped
    point := snapPosition wire.point
    delayFraction := snapFraction wire.delayFraction }

/-- The message with each field that travels on a grid snapped to it, and no other changed. -/
def MessageWire.snapped : MessageWire → MessageWire
  | .commands wire => .commands wire.snapped
  | .authoritativeState wire => .authoritativeState wire.snapped
  | .matchStart wire => .matchStart wire.snapped
  | .shot wire => .shot wire.snapped
  | .death wire => .death wire.snapped
  | .reenactRequest wire => .reenactRequest wire.snapped
  | .shotJudgement wire => .shotJudgement wire.snapped
  | message => message

theorem typeOf_snapped (message : MessageWire) : typeOf message.snapped = typeOf message := by
  cases message <;> rfl

/-! ### One round trip a message -/

section
variable {isUtf8 : Text → Bool}

theorem CommandWire.read_write {wire : CommandWire} {written : Pb.Command}
    (h : wire.write = .ok written) (sequence : Sequence) :
    ({ written with sequence } : Pb.Command).read = .ok wire.snapped := by
  rw [CommandWire.write, Except.bind_eq_ok] at h
  obtain ⟨flags, hflags, h⟩ := h
  obtain ⟨stance, hstance, h⟩ := Except.bind_eq_ok.mp h
  obtain ⟨hmask, rfl⟩ := Outbound.fromFlags_eq_ok.mp hflags
  obtain ⟨hrange, rfl⟩ := Outbound.fromEnum_eq_ok.mp hstance
  obtain ⟨hbits, hread, hback⟩ := read_command_bits hmask hrange
  rw [← Except.pure_eq_ok.mp h]
  simp only [Pb.Command.read, Inbound.vecFromSteps_steps, Inbound.fromSteps_steps, hbits, hread,
    hback, Inbound.narrow_toUInt32, Inbound.fromSteps_unsignedSteps_fraction, Except.ok_bind]
  rfl

theorem EntityStateWire.read_write {wire : EntityStateWire} {written : Pb.Body}
    (h : wire.write = .ok written) : written.read = .ok wire.snapped := by
  rw [EntityStateWire.write, Except.bind_eq_ok] at h
  obtain ⟨stance, hstance, h⟩ := h
  obtain ⟨flags, hflags, h⟩ := Except.bind_eq_ok.mp h
  obtain ⟨previous, hprevious, h⟩ := Except.bind_eq_ok.mp h
  obtain ⟨hrange, rfl⟩ := Outbound.fromEnum_eq_ok.mp hstance
  obtain ⟨hmask, rfl⟩ := Outbound.fromFlags_eq_ok.mp hflags
  obtain ⟨hbefore, rfl⟩ := Outbound.fromEnum_eq_ok.mp hprevious
  obtain ⟨hbits, hread, hreadPrevious, hback⟩ := read_body_bits hrange hmask hbefore
  rw [← Except.pure_eq_ok.mp h]
  simp only [Pb.Body.read, Inbound.vecFromSteps_steps, Inbound.fromSteps_steps, hbits, hread,
    hreadPrevious, hback, Inbound.narrow_toUInt32, Inbound.fromSteps_unsignedSteps_stamina,
    Except.ok_bind, stanceProgress_back]
  rfl

theorem JudgedPlayerWire.read_write {wire : JudgedPlayerWire} {written : Pb.JudgedPlayer}
    (h : wire.write = .ok written) : written.read = .ok wire.snapped := by
  rw [JudgedPlayerWire.write, Except.bind_eq_ok] at h
  obtain ⟨stance, hstance, h⟩ := h
  obtain ⟨hrange, rfl⟩ := Outbound.fromEnum_eq_ok.mp hstance
  obtain ⟨hbits, hread⟩ := read_stance_bits hrange
  rw [← Except.pure_eq_ok.mp h]
  simp only [Pb.JudgedPlayer.read, Inbound.vecFromSteps_steps, Inbound.fromSteps_steps, hbits,
    hread, Except.ok_bind]
  rfl

theorem JoinRequestWire.read_write {wire : JoinRequestWire} {written : Pb.JoinRequest}
    (h : wire.write isUtf8 = .ok written) : written.read isUtf8 = .ok wire := by
  rw [JoinRequestWire.write, Except.bind_eq_ok] at h
  obtain ⟨version, hversion, h⟩ := h
  obtain ⟨character, hcharacter, h⟩ := Except.bind_eq_ok.mp h
  obtain ⟨versionFits, rfl⟩ := Outbound.text_eq_ok.mp hversion
  obtain ⟨characterFits, rfl⟩ := Outbound.text_eq_ok.mp hcharacter
  rw [← Except.pure_eq_ok.mp h]
  simp only [Pb.JoinRequest.read, Inbound.text_of_fits versionFits, Inbound.text_of_fits characterFits,
    Inbound.packHash, Inbound.uuid, Inbound.bytesOf_toList, Except.ok_bind]
  rfl

theorem ReplayRequestWire.read_write {wire : ReplayRequestWire} {written : Pb.ReplayRequest}
    (h : wire.write isUtf8 = .ok written) : written.read isUtf8 = .ok wire := by
  rw [ReplayRequestWire.write, Except.bind_eq_ok] at h
  obtain ⟨version, hversion, h⟩ := h
  obtain ⟨capture, hcapture, h⟩ := Except.bind_eq_ok.mp h
  obtain ⟨versionFits, rfl⟩ := Outbound.text_eq_ok.mp hversion
  obtain ⟨captureFits, rfl⟩ := Outbound.text_eq_ok.mp hcapture
  rw [← Except.pure_eq_ok.mp h]
  simp only [Pb.ReplayRequest.read, Inbound.text_of_fits versionFits, Inbound.text_of_fits captureFits,
    Inbound.packHash, Inbound.uuid, Inbound.bytesOf_toList, Except.ok_bind]
  rfl

theorem ReenactRequestWire.read_write {wire : ReenactRequestWire} {written : Pb.ReenactRequest}
    (h : wire.write isUtf8 = .ok written) : written.read isUtf8 = .ok wire.snapped := by
  rw [ReenactRequestWire.write, Except.bind_eq_ok] at h
  obtain ⟨version, hversion, h⟩ := h
  obtain ⟨character, hcharacter, h⟩ := Except.bind_eq_ok.mp h
  obtain ⟨versionFits, rfl⟩ := Outbound.text_eq_ok.mp hversion
  obtain ⟨characterFits, rfl⟩ := Outbound.text_eq_ok.mp hcharacter
  rw [← Except.pure_eq_ok.mp h]
  simp only [Pb.ReenactRequest.read, Inbound.text_of_fits versionFits,
    Inbound.text_of_fits characterFits, Inbound.packHash, Inbound.uuid, Inbound.bytesOf_toList,
    Inbound.vecFromSteps_steps, Except.ok_bind]
  rfl

theorem RecoilKickWire.read_write {wire : RecoilKickWire} {written : Pb.RecoilKick}
    (h : wire.write = .ok written) : written.read = .ok wire := by
  rw [← Except.pure_eq_ok.mp h]
  rfl

theorem RifleWire.read_write {wire : RifleWire} {written : Pb.Rifle}
    (h : wire.write = .ok written) : written.read = .ok wire := by
  rw [RifleWire.write, Except.bind_eq_ok] at h
  obtain ⟨pattern, hpattern, h⟩ := h
  have hread := readList_of_writeList (g := id) RecoilKickWire.read_write hpattern
  rw [← Except.pure_eq_ok.mp h]
  simp only [Pb.Rifle.read, hread, Inbound.narrow_toUInt32, Except.ok_bind, List.map_id]
  rfl

theorem ParametersWire.read_write {wire : ParametersWire} {written : Pb.Parameters}
    (h : wire.write = .ok written) : written.read = .ok wire := by
  rw [ParametersWire.write, Except.bind_eq_ok] at h
  obtain ⟨rifle, hrifle, h⟩ := h
  rw [← Except.pure_eq_ok.mp h]
  simp only [Pb.Parameters.read, Option.getD_some, RifleWire.read_write hrifle,
    Inbound.narrow_toUInt32, Except.ok_bind]
  rfl

theorem JoinAcceptedWire.read_write {wire : JoinAcceptedWire} {written : Pb.JoinAccepted}
    (h : wire.write isUtf8 = .ok written) : written.read isUtf8 = .ok wire := by
  rw [JoinAcceptedWire.write, Except.bind_eq_ok] at h
  obtain ⟨parameters, hparameters, h⟩ := h
  obtain ⟨character, hcharacter, h⟩ := Except.bind_eq_ok.mp h
  obtain ⟨characterFits, rfl⟩ := Outbound.text_eq_ok.mp hcharacter
  rw [← Except.pure_eq_ok.mp h]
  simp only [Pb.JoinAccepted.read, Inbound.uuid, Inbound.bytesOf_toList, Option.getD_some,
    Inbound.narrow_toUInt32, ParametersWire.read_write hparameters,
    Inbound.text_of_fits characterFits, Except.ok_bind]
  rfl

theorem JoinRefusedWire.read_write {wire : JoinRefusedWire} {written : Pb.JoinRefused}
    (h : wire.write = .ok written) : written.read = .ok wire := by
  rw [JoinRefusedWire.write, Except.bind_eq_ok] at h
  obtain ⟨reason, hreason, h⟩ := h
  obtain ⟨hrange, rfl⟩ := Outbound.fromEnum_eq_ok.mp hreason
  rw [← Except.pure_eq_ok.mp h]
  simp only [Pb.JoinRefused.read, toInt_toInt64, Inbound.toEnum_of_le hrange, Except.ok_bind]
  rfl

theorem SequencedCommandWire.read_write {wire : SequencedCommandWire} {written : Pb.Command}
    (h : wire.write = .ok written) : written.readSequenced = .ok wire.snapped := by
  rw [SequencedCommandWire.write, Except.bind_eq_ok] at h
  obtain ⟨command, hcommand, h⟩ := h
  rw [← Except.pure_eq_ok.mp h]
  simp only [Pb.Command.readSequenced, CommandWire.read_write hcommand, Except.ok_bind]
  rfl

theorem CommandsWire.read_write {wire : CommandsWire} {written : Pb.Commands}
    (h : wire.write = .ok written) : written.read = .ok wire.snapped := by
  rw [CommandsWire.write, Except.bind_eq_ok] at h
  obtain ⟨commands, hcommands, h⟩ := h
  have hread := readList_of_writeList SequencedCommandWire.read_write hcommands
  rw [← Except.pure_eq_ok.mp h]
  simp only [Pb.Commands.read, hread, Except.ok_bind]
  rfl

theorem AuthoritativeStateWire.read_write {wire : AuthoritativeStateWire}
    {written : Pb.AuthoritativeState} (h : wire.write = .ok written) :
    written.read = .ok wire.snapped := by
  rw [AuthoritativeStateWire.write, Except.bind_eq_ok] at h
  obtain ⟨bodies, hbodies, h⟩ := h
  have hread := readList_of_writeList EntityStateWire.read_write hbodies
  rw [← Except.pure_eq_ok.mp h]
  simp only [Pb.AuthoritativeState.read, hread, Inbound.fromSteps_steps, Inbound.narrow_toUInt32,
    Except.ok_bind]
  rfl

theorem RosterEntryWire.read_write {wire : RosterEntryWire} {written : Pb.RosterEntry}
    (h : wire.write isUtf8 = .ok written) : written.read isUtf8 = .ok wire := by
  rw [RosterEntryWire.write, Except.bind_eq_ok] at h
  obtain ⟨character, hcharacter, h⟩ := h
  obtain ⟨characterFits, rfl⟩ := Outbound.text_eq_ok.mp hcharacter
  rw [← Except.pure_eq_ok.mp h]
  simp only [Pb.RosterEntry.read, Inbound.uuid, Inbound.bytesOf_toList,
    Inbound.text_of_fits characterFits, Except.ok_bind]
  rfl

theorem LobbyWire.read_write {wire : LobbyWire} {written : Pb.Lobby}
    (h : wire.write isUtf8 = .ok written) : written.read isUtf8 = .ok wire := by
  rw [LobbyWire.write, Except.bind_eq_ok] at h
  obtain ⟨roster, hroster, h⟩ := h
  have hread := readList_of_writeList (g := id) RosterEntryWire.read_write hroster
  rw [← Except.pure_eq_ok.mp h]
  simp only [Pb.Lobby.read, hread, List.map_id, Except.ok_bind]
  rfl

theorem ReadyWire.read_write {wire : ReadyWire} {written : Pb.Ready}
    (h : wire.write = .ok written) : written.read = .ok wire := by
  rw [← Except.pure_eq_ok.mp h]
  rfl

theorem MatchPlayerWire.read_write {wire : MatchPlayerWire} {written : Pb.MatchPlayer}
    (h : wire.write isUtf8 = .ok written) : written.read isUtf8 = .ok wire.snapped := by
  rw [MatchPlayerWire.write, Except.bind_eq_ok] at h
  obtain ⟨character, hcharacter, h⟩ := h
  obtain ⟨characterFits, rfl⟩ := Outbound.text_eq_ok.mp hcharacter
  rw [← Except.pure_eq_ok.mp h]
  simp only [Pb.MatchPlayer.read, Inbound.vecFromSteps_steps, Inbound.uuid,
    Inbound.bytesOf_toList, Inbound.text_of_fits characterFits, Except.ok_bind]
  rfl

theorem MatchStartWire.read_write {wire : MatchStartWire} {written : Pb.MatchStart}
    (h : wire.write isUtf8 = .ok written) : written.read isUtf8 = .ok wire.snapped := by
  rw [MatchStartWire.write, Except.bind_eq_ok] at h
  obtain ⟨players, hplayers, h⟩ := h
  have hread := readList_of_writeList MatchPlayerWire.read_write hplayers
  rw [← Except.pure_eq_ok.mp h]
  simp only [Pb.MatchStart.read, hread, Inbound.uuid, Inbound.bytesOf_toList, Except.ok_bind]
  rfl

theorem MatchEndWire.read_write {wire : MatchEndWire} {written : Pb.MatchEnd}
    (h : wire.write = .ok written) : written.read = .ok wire := by
  rw [← Except.pure_eq_ok.mp h]
  simp only [Pb.MatchEnd.read, Inbound.uuid, Inbound.bytesOf_toList, Except.ok_bind]
  rfl

theorem ShotWire.read_write {wire : ShotWire} {written : Pb.Shot}
    (h : wire.write = .ok written) : written.read = .ok wire.snapped := by
  rw [← Except.pure_eq_ok.mp h]
  simp only [Pb.Shot.read, Inbound.vecFromSteps_steps, Inbound.fromSteps_steps, Except.ok_bind]
  rfl

theorem HitConfirmationWire.read_write {wire : HitConfirmationWire}
    {written : Pb.HitConfirmation} (h : wire.write = .ok written) : written.read = .ok wire := by
  rw [HitConfirmationWire.write, Except.bind_eq_ok] at h
  obtain ⟨part, hpart, h⟩ := h
  obtain ⟨hrange, rfl⟩ := Outbound.fromEnum_eq_ok.mp hpart
  rw [← Except.pure_eq_ok.mp h]
  simp only [Pb.HitConfirmation.read, toInt_toInt64, Inbound.toEnum_of_le hrange, Except.ok_bind]
  rfl

theorem DeathWire.read_write {wire : DeathWire} {written : Pb.Death}
    (h : wire.write = .ok written) : written.read = .ok wire.snapped := by
  rw [DeathWire.write, Except.bind_eq_ok] at h
  obtain ⟨part, hpart, h⟩ := h
  obtain ⟨hrange, rfl⟩ := Outbound.fromEnum_eq_ok.mp hpart
  rw [← Except.pure_eq_ok.mp h]
  simp only [Pb.Death.read, Inbound.fromSteps_steps, toInt_toInt64, Inbound.toEnum_of_le hrange,
    Except.ok_bind]
  rfl

theorem ReplayListingWire.read_write {wire : ReplayListingWire} {written : Pb.ReplayListing}
    (h : wire.write isUtf8 = .ok written) : written.read isUtf8 = .ok wire := by
  rw [ReplayListingWire.write, Except.bind_eq_ok] at h
  obtain ⟨name, hname, h⟩ := h
  obtain ⟨characters, hcharacters, h⟩ := Except.bind_eq_ok.mp h
  obtain ⟨nameFits, rfl⟩ := Outbound.text_eq_ok.mp hname
  have hread := readList_of_writeList (g := id)
    (f := fun character => Inbound.text isUtf8 character kMaxCharacterNameLength)
    text_read_write hcharacters
  rw [← Except.pure_eq_ok.mp h]
  simp only [Pb.ReplayListing.read, hread, Inbound.text_of_fits nameFits, Inbound.narrow_toUInt32,
    List.map_id, Except.ok_bind]
  rfl

theorem ReplayListWire.read_write {wire : ReplayListWire} {written : Pb.ReplayList}
    (h : wire.write isUtf8 = .ok written) : written.read isUtf8 = .ok wire := by
  rw [ReplayListWire.write, Except.bind_eq_ok] at h
  obtain ⟨replays, hreplays, h⟩ := h
  have hread := readList_of_writeList (g := id) ReplayListingWire.read_write hreplays
  rw [← Except.pure_eq_ok.mp h]
  simp only [Pb.ReplayList.read, hread, List.map_id, Except.ok_bind]
  rfl

theorem DebugSubscribeWire.read_write {wire : DebugSubscribeWire} {written : Pb.DebugSubscribe}
    (h : wire.write = .ok written) : written.read = .ok wire := by
  rw [← Except.pure_eq_ok.mp h]
  simp only [Pb.DebugSubscribe.read, Inbound.narrow_toUInt32, Except.ok_bind]
  rfl

theorem ShotJudgementEntryWire.read_write {wire : ShotJudgementEntryWire}
    {written : Pb.ShotJudgementEntry} (h : wire.write = .ok written) :
    written.read = .ok wire.snapped := by
  rw [ShotJudgementEntryWire.write, Except.bind_eq_ok] at h
  obtain ⟨players, hplayers, h⟩ := h
  have hread := readList_of_writeList JudgedPlayerWire.read_write hplayers
  rw [← Except.pure_eq_ok.mp h]
  simp only [Pb.ShotJudgementEntry.read, hread, Inbound.narrow16_toUInt32, Except.ok_bind]
  rfl

theorem ShotJudgementWire.read_write {wire : ShotJudgementWire} {written : Pb.ShotJudgement}
    (h : wire.write = .ok written) : written.read = .ok wire.snapped := by
  rw [ShotJudgementWire.write, Except.bind_eq_ok] at h
  obtain ⟨struck, hstruck, h⟩ := h
  obtain ⟨part, hpart, h⟩ := Except.bind_eq_ok.mp h
  obtain ⟨flags, hflags, h⟩ := Except.bind_eq_ok.mp h
  obtain ⟨entries, hentries, h⟩ := Except.bind_eq_ok.mp h
  obtain ⟨struckRange, rfl⟩ := Outbound.fromEnum_eq_ok.mp hstruck
  obtain ⟨partRange, rfl⟩ := Outbound.fromEnum_eq_ok.mp hpart
  obtain ⟨hmask, rfl⟩ := Outbound.fromFlags_eq_ok.mp hflags
  obtain ⟨hbits, hstruckBack, hread, hback⟩ := read_judgement_bits struckRange partRange hmask
  have hreadEntries := readList_of_writeList ShotJudgementEntryWire.read_write hentries
  rw [← Except.pure_eq_ok.mp h]
  simp only [Pb.ShotJudgement.read, hbits, hreadEntries, Inbound.vecFromSteps_steps,
    Inbound.fromSteps_unsignedSteps_fraction, Inbound.narrow_toUInt32, hread, hstruckBack, hback,
    Except.ok_bind]
  rfl

theorem MessageWire.read_write {message : MessageWire} {written : Pb.Message}
    (h : message.write isUtf8 = .ok written) : written.read isUtf8 = .ok message.snapped := by
  cases message with
  | replayListRequest => cases h; rfl
  | joinRequest wire =>
      obtain ⟨body, hbody, rfl⟩ := Except.map_eq_ok.mp h
      rw [Pb.Message.read, JoinRequestWire.read_write hbody]; rfl
  | joinAccepted wire =>
      obtain ⟨body, hbody, rfl⟩ := Except.map_eq_ok.mp h
      rw [Pb.Message.read, JoinAcceptedWire.read_write hbody]; rfl
  | joinRefused wire =>
      obtain ⟨body, hbody, rfl⟩ := Except.map_eq_ok.mp h
      rw [Pb.Message.read, JoinRefusedWire.read_write hbody]; rfl
  | commands wire =>
      obtain ⟨body, hbody, rfl⟩ := Except.map_eq_ok.mp h
      rw [Pb.Message.read, CommandsWire.read_write hbody]; rfl
  | authoritativeState wire =>
      obtain ⟨body, hbody, rfl⟩ := Except.map_eq_ok.mp h
      rw [Pb.Message.read, AuthoritativeStateWire.read_write hbody]; rfl
  | lobby wire =>
      obtain ⟨body, hbody, rfl⟩ := Except.map_eq_ok.mp h
      rw [Pb.Message.read, LobbyWire.read_write hbody]; rfl
  | ready wire =>
      obtain ⟨body, hbody, rfl⟩ := Except.map_eq_ok.mp h
      rw [Pb.Message.read, ReadyWire.read_write hbody]; rfl
  | matchStart wire =>
      obtain ⟨body, hbody, rfl⟩ := Except.map_eq_ok.mp h
      rw [Pb.Message.read, MatchStartWire.read_write hbody]; rfl
  | matchEnd wire =>
      obtain ⟨body, hbody, rfl⟩ := Except.map_eq_ok.mp h
      rw [Pb.Message.read, MatchEndWire.read_write hbody]; rfl
  | shot wire =>
      obtain ⟨body, hbody, rfl⟩ := Except.map_eq_ok.mp h
      rw [Pb.Message.read, ShotWire.read_write hbody]; rfl
  | hitConfirmation wire =>
      obtain ⟨body, hbody, rfl⟩ := Except.map_eq_ok.mp h
      rw [Pb.Message.read, HitConfirmationWire.read_write hbody]; rfl
  | death wire =>
      obtain ⟨body, hbody, rfl⟩ := Except.map_eq_ok.mp h
      rw [Pb.Message.read, DeathWire.read_write hbody]; rfl
  | replayList wire =>
      obtain ⟨body, hbody, rfl⟩ := Except.map_eq_ok.mp h
      rw [Pb.Message.read, ReplayListWire.read_write hbody]; rfl
  | replayRequest wire =>
      obtain ⟨body, hbody, rfl⟩ := Except.map_eq_ok.mp h
      rw [Pb.Message.read, ReplayRequestWire.read_write hbody]; rfl
  | reenactRequest wire =>
      obtain ⟨body, hbody, rfl⟩ := Except.map_eq_ok.mp h
      rw [Pb.Message.read, ReenactRequestWire.read_write hbody]; rfl
  | debugSubscribe wire =>
      obtain ⟨body, hbody, rfl⟩ := Except.map_eq_ok.mp h
      rw [Pb.Message.read, DebugSubscribeWire.read_write hbody]; rfl
  | shotJudgement wire =>
      obtain ⟨body, hbody, rfl⟩ := Except.map_eq_ok.mp h
      rw [Pb.Message.read, ShotJudgementWire.read_write hbody]; rfl

/-! ### The type a payload reports -/

theorem typeOfPayload_lenField (number : ℕ) (bytes : Bytes) (h : number * 8 + 2 < 2 ^ 32) :
    typeOfPayload (lenField number bytes) = UInt8.ofNat number := by
  rw [typeOfPayload, readTag_lenField number bytes h, show (number * 8 + 2) / 8 = number by omega]

theorem MessageWire.type_write {message : MessageWire} {written : Pb.Message}
    (h : message.write isUtf8 = .ok written) : typeOfPayload written.bytes = typeOf message := by
  cases message with
  | replayListRequest =>
      cases h
      exact typeOfPayload_lenField 13 [] (by decide)
  | _ =>
      obtain ⟨body, _, rfl⟩ := Except.map_eq_ok.mp h
      exact typeOfPayload_lenField _ body.bytes (by decide)

/-- CORRECT: a payload the encoder makes decodes to the message it was made from, every field the
    same but for those snapped to their grids, and reports that message's type. Protobuf is only
    asked to parse what it serialized. -/
theorem decode_encode (parse : Bytes → Option Pb.Message) (message : MessageWire)
    (hparse : ∀ written, message.write isUtf8 = .ok written → parse written.bytes = some written)
    {payload : Bytes} (h : encode isUtf8 message = .ok payload) :
    decode isUtf8 parse payload = .ok message.snapped ∧
      typeOfPayload payload = typeOf message ∧ typeOf message.snapped = typeOf message := by
  obtain ⟨written, hwritten, rfl⟩ := Except.map_eq_ok.mp h
  have hsize : ¬ kMaxParsedSize < written.bytes.length :=
    Nat.not_lt.mpr (Nat.le_trans (MessageWire.length_write_le hwritten) (by decide))
  refine ⟨?_, MessageWire.type_write hwritten, typeOf_snapped message⟩
  rw [decode, if_neg hsize, hparse written hwritten]
  exact MessageWire.read_write hwritten

end

/-- A command that runs ahead without bound and looks nowhere. -/
def runawayCommands : CommandsWire where
  commands :=
    [{ sequence := 7
       command :=
        { direction := ⟨⟨0x7F800000⟩, .zero, ⟨0xBF800000⟩⟩, yaw := ⟨0x7FC00001⟩, flags := 5
          desiredStance := .prone, seenAge := 3 } }]
  seenTick := 40

/-- What travels for it: its direction held to the grid, its not-a-number yaw straight ahead. -/
def runawayWritten : Pb.Commands where
  commands :=
    [{ sequence := 7, directionX := 32767, directionZ := -16384, bits := 37, seenAge := 3 }]
  seenTick := 40

theorem runaway_write : runawayCommands.write = .ok runawayWritten := by rfl

theorem decode_encode_runaway :
    let payload := (Pb.Message.commands runawayWritten).bytes
    let parse := fun bytes => if bytes = payload then some (.commands runawayWritten) else none
    decode (fun _ => true) parse payload = .ok (.commands runawayCommands.snapped) ∧
      typeOfPayload payload = 4 ∧ typeOf (.commands runawayCommands.snapped) = 4 := by
  intro payload parse
  have hwritten : (MessageWire.commands runawayCommands).write (fun _ => true) =
      .ok (.commands runawayWritten) := by
    rw [MessageWire.write, runaway_write, Except.ok_map]
  refine decode_encode parse (.commands runawayCommands) (fun other hother => ?_) ?_
  · rw [hwritten] at hother
    cases hother
    exact if_pos rfl
  · rw [encode, hwritten, Except.ok_map]

end Augusta.Protocol
