import Augusta.Protocol.Encoder

/-! The size of what the encoder accepts. Its texts, lists and numbers are all bounded, so each
    message is: a Replay list of full listings is the largest. -/

namespace Augusta.Protocol
open Lib.Protobuf
open Limits

/-- A list the encoder accepts, of elements it accepts. -/
theorem length_writeList_le {α β : Type} {items : List α} {max : ℕ}
    {write : α → Except EncodeError β} {written : List β} (number each : ℕ) (bytesOf : β → Bytes)
    (one : ∀ {item value}, write item = .ok value → (bytesOf value).length ≤ each)
    (h : writeList items max write = .ok written) :
    (repeatedField number bytesOf written).length ≤ max * (each + 20) := by
  obtain ⟨hitems, hmap⟩ := writeList_eq_ok.mp h
  have hlength := Except.length_mapM hmap
  have hbound := length_repeatedField_le number each bytesOf written fun value hvalue =>
    let ⟨_, _, hitem⟩ := Except.exists_of_mem_mapM hmap value hvalue
    one hitem
  exact Nat.le_trans hbound (Nat.mul_le_mul_right _ (by omega))

theorem length_text_le {isUtf8 : Text → Bool} {text written : Text} {max : ℕ}
    (h : Outbound.text isUtf8 text max = .ok written) : written.length ≤ max := by
  obtain ⟨hfits, rfl⟩ := Outbound.text_eq_ok.mp h
  exact hfits.1

/-- An envelope's member of at most `max` bytes, where those and the field's own fit. -/
theorem length_member_le {number max : ℕ} {bytes : Bytes} (h : bytes.length ≤ max)
    (hmax : max + 20 ≤ kMaxPayloadSize) : (lenField number bytes).length ≤ kMaxPayloadSize := by
  have := length_lenField_le number bytes
  omega

/-! ### Messages of numbers -/

theorem Pb.Body.length_bytes_le (m : Pb.Body) : m.bytes.length ≤ 260 := by
  simp only [Pb.Body.bytes, List.length_append]
  grind [length_uintField_le, length_sintField_le]

theorem Pb.Command.length_bytes_le (m : Pb.Command) : m.bytes.length ≤ 180 := by
  simp only [Pb.Command.bytes, List.length_append]
  grind [length_uintField_le, length_sintField_le]

theorem Pb.RecoilKick.length_bytes_le (m : Pb.RecoilKick) : m.bytes.length ≤ 40 := by
  simp only [Pb.RecoilKick.bytes, List.length_append]
  grind [length_floatField_le]

theorem Pb.Stamina.length_bytes_le (m : Pb.Stamina) : m.bytes.length ≤ 60 := by
  simp only [Pb.Stamina.bytes, List.length_append]
  grind [length_floatField_le]

theorem Pb.Ammo.length_bytes_le (m : Pb.Ammo) : m.bytes.length ≤ 100 := by
  simp only [Pb.Ammo.bytes, List.length_append]
  grind [length_floatField_le]

theorem Pb.Shot.length_bytes_le (m : Pb.Shot) : m.bytes.length ≤ 140 := by
  simp only [Pb.Shot.bytes, List.length_append]
  grind [length_uintField_le, length_sintField_le]

theorem Pb.HitConfirmation.length_bytes_le (m : Pb.HitConfirmation) : m.bytes.length ≤ 60 := by
  simp only [Pb.HitConfirmation.bytes, List.length_append]
  grind [length_uintField_le, length_intField_le, length_floatField_le]

theorem Pb.Death.length_bytes_le (m : Pb.Death) : m.bytes.length ≤ 100 := by
  simp only [Pb.Death.bytes, List.length_append]
  grind [length_uintField_le, length_intField_le, length_sintField_le]

theorem Pb.JudgedPlayer.length_bytes_le (m : Pb.JudgedPlayer) : m.bytes.length ≤ 120 := by
  simp only [Pb.JudgedPlayer.bytes, List.length_append]
  grind [length_uintField_le, length_sintField_le]

/-! ### Messages with texts and lists -/

section
variable {isUtf8 : Text → Bool}

theorem JoinRequestWire.length_write_le {wire : JoinRequestWire} {written : Pb.JoinRequest}
    (h : wire.write isUtf8 = .ok written) : written.bytes.length ≤ 224 := by
  obtain ⟨version, hversion, h⟩ := Except.bind_eq_ok.mp h
  obtain ⟨character, hcharacter, h⟩ := Except.bind_eq_ok.mp h
  have := length_text_le hversion
  have := length_text_le hcharacter
  rw [← Except.pure_eq_ok.mp h]
  simp only [Pb.JoinRequest.bytes, List.length_append]
  grind [length_bytesField_le, Vector.length_toList, kMaxEngineVersionLength,
    kMaxCharacterNameLength]

theorem ReplayRequestWire.length_write_le {wire : ReplayRequestWire} {written : Pb.ReplayRequest}
    (h : wire.write isUtf8 = .ok written) : written.bytes.length ≤ 224 := by
  obtain ⟨version, hversion, h⟩ := Except.bind_eq_ok.mp h
  obtain ⟨capture, hcapture, h⟩ := Except.bind_eq_ok.mp h
  have := length_text_le hversion
  have := length_text_le hcapture
  rw [← Except.pure_eq_ok.mp h]
  simp only [Pb.ReplayRequest.bytes, List.length_append]
  grind [length_bytesField_le, Vector.length_toList, kMaxEngineVersionLength,
    kMaxCaptureNameLength]

theorem ReenactRequestWire.length_write_le {wire : ReenactRequestWire}
    {written : Pb.ReenactRequest} (h : wire.write isUtf8 = .ok written) :
    written.bytes.length ≤ 284 := by
  obtain ⟨version, hversion, h⟩ := Except.bind_eq_ok.mp h
  obtain ⟨character, hcharacter, h⟩ := Except.bind_eq_ok.mp h
  have := length_text_le hversion
  have := length_text_le hcharacter
  rw [← Except.pure_eq_ok.mp h]
  simp only [Pb.ReenactRequest.bytes, List.length_append]
  grind [length_bytesField_le, length_sintField_le, Vector.length_toList,
    kMaxEngineVersionLength, kMaxCharacterNameLength]

theorem RifleWire.length_write_le {wire : RifleWire} {written : Pb.Rifle}
    (h : wire.write = .ok written) : written.bytes.length ≤ 3980 := by
  obtain ⟨pattern, hpattern, h⟩ := Except.bind_eq_ok.mp h
  have := length_writeList_le 7 40 Pb.RecoilKick.bytes
    (fun {_ kick} _ => kick.length_bytes_le) hpattern
  rw [← Except.pure_eq_ok.mp h]
  simp only [Pb.Rifle.bytes, List.length_append]
  grind [length_uintField_le, length_floatField_le, kMaxRecoilKicks]

theorem ParametersWire.length_write_le {wire : ParametersWire} {written : Pb.Parameters}
    (h : wire.write = .ok written) : written.bytes.length ≤ 4240 := by
  obtain ⟨rifle, hrifle, h⟩ := Except.bind_eq_ok.mp h
  have := RifleWire.length_write_le hrifle
  rw [← Except.pure_eq_ok.mp h]
  simp only [Pb.Parameters.bytes, Option.map_some, Option.getD_some, List.length_append]
  grind [length_lenField_le, length_uintField_le, length_floatField_le,
    Pb.Stamina.length_bytes_le, Pb.Ammo.length_bytes_le]

theorem JoinAcceptedWire.length_write_le {wire : JoinAcceptedWire} {written : Pb.JoinAccepted}
    (h : wire.write isUtf8 = .ok written) : written.bytes.length ≤ 4400 := by
  obtain ⟨parameters, hparameters, h⟩ := Except.bind_eq_ok.mp h
  obtain ⟨character, hcharacter, h⟩ := Except.bind_eq_ok.mp h
  have := ParametersWire.length_write_le hparameters
  have := length_text_le hcharacter
  rw [← Except.pure_eq_ok.mp h]
  simp only [Pb.JoinAccepted.bytes, Option.map_some, Option.getD_some, List.length_append]
  grind [length_lenField_le, length_uintField_le, length_bytesField_le, Vector.length_toList,
    kMaxCharacterNameLength]

theorem CommandsWire.length_write_le {wire : CommandsWire} {written : Pb.Commands}
    (h : wire.write = .ok written) : written.bytes.length ≤ 1620 := by
  obtain ⟨commands, hcommands, h⟩ := Except.bind_eq_ok.mp h
  have := length_writeList_le 1 180 Pb.Command.bytes
    (fun {_ command} _ => command.length_bytes_le) hcommands
  rw [← Except.pure_eq_ok.mp h]
  simp only [Pb.Commands.bytes, List.length_append]
  grind [length_uintField_le, kMaxCommandsPerMessage]

theorem AuthoritativeStateWire.length_write_le {wire : AuthoritativeStateWire}
    {written : Pb.AuthoritativeState} (h : wire.write = .ok written) :
    written.bytes.length ≤ 2440 := by
  obtain ⟨bodies, hbodies, h⟩ := Except.bind_eq_ok.mp h
  have := length_writeList_le 2 260 Pb.Body.bytes
    (fun {_ body} _ => body.length_bytes_le) hbodies
  rw [← Except.pure_eq_ok.mp h]
  simp only [Pb.AuthoritativeState.bytes, List.length_append]
  grind [length_uintField_le, length_sintField_le, length_floatField_le, kMaxPlayers]

theorem RosterEntryWire.length_write_le {wire : RosterEntryWire} {written : Pb.RosterEntry}
    (h : wire.write isUtf8 = .ok written) : written.bytes.length ≤ 120 := by
  obtain ⟨character, hcharacter, h⟩ := Except.bind_eq_ok.mp h
  have := length_text_le hcharacter
  rw [← Except.pure_eq_ok.mp h]
  simp only [Pb.RosterEntry.bytes, List.length_append]
  grind [length_bytesField_le, Vector.length_toList, kMaxCharacterNameLength]

theorem LobbyWire.length_write_le {wire : LobbyWire} {written : Pb.Lobby}
    (h : wire.write isUtf8 = .ok written) : written.bytes.length ≤ 1140 := by
  obtain ⟨roster, hroster, h⟩ := Except.bind_eq_ok.mp h
  have := length_writeList_le 2 120 Pb.RosterEntry.bytes RosterEntryWire.length_write_le hroster
  rw [← Except.pure_eq_ok.mp h]
  simp only [Pb.Lobby.bytes, List.length_append]
  grind [length_uintField_le, kMaxPlayers]

theorem MatchPlayerWire.length_write_le {wire : MatchPlayerWire} {written : Pb.MatchPlayer}
    (h : wire.write isUtf8 = .ok written) : written.bytes.length ≤ 200 := by
  obtain ⟨character, hcharacter, h⟩ := Except.bind_eq_ok.mp h
  have := length_text_le hcharacter
  rw [← Except.pure_eq_ok.mp h]
  simp only [Pb.MatchPlayer.bytes, List.length_append]
  grind [length_uintField_le, length_sintField_le, length_bytesField_le, Vector.length_toList,
    kMaxCharacterNameLength]

theorem MatchStartWire.length_write_le {wire : MatchStartWire} {written : Pb.MatchStart}
    (h : wire.write isUtf8 = .ok written) : written.bytes.length ≤ 1816 := by
  obtain ⟨players, hplayers, h⟩ := Except.bind_eq_ok.mp h
  have := length_writeList_le 1 200 Pb.MatchPlayer.bytes MatchPlayerWire.length_write_le hplayers
  rw [← Except.pure_eq_ok.mp h]
  simp only [Pb.MatchStart.bytes, List.length_append]
  grind [length_uintField_le, length_bytesField_le, Vector.length_toList, kMaxPlayers]

theorem MatchEndWire.length_write_le {wire : MatchEndWire} {written : Pb.MatchEnd}
    (h : wire.write = .ok written) : written.bytes.length ≤ 36 := by
  rw [← Except.pure_eq_ok.mp h]
  grind [Pb.MatchEnd.bytes, length_bytesField_le, Vector.length_toList]

theorem ReplayListingWire.length_write_le {wire : ReplayListingWire}
    {written : Pb.ReplayListing} (h : wire.write isUtf8 = .ok written) :
    written.bytes.length ≤ 816 := by
  obtain ⟨name, hname, h⟩ := Except.bind_eq_ok.mp h
  obtain ⟨characters, hcharacters, h⟩ := Except.bind_eq_ok.mp h
  have := length_text_le hname
  have := length_writeList_le 5 kMaxCharacterNameLength id length_text_le hcharacters
  rw [← Except.pure_eq_ok.mp h]
  simp only [Pb.ReplayListing.bytes, List.length_append]
  grind [length_uintField_le, length_intField_le, length_bytesField_le, kMaxPlayers,
    kMaxCharacterNameLength, kMaxCaptureNameLength]

theorem ReplayListWire.length_write_le {wire : ReplayListWire} {written : Pb.ReplayList}
    (h : wire.write isUtf8 = .ok written) : written.bytes.length ≤ 213180 := by
  obtain ⟨replays, hreplays, h⟩ := Except.bind_eq_ok.mp h
  have := length_writeList_le 1 816 Pb.ReplayListing.bytes ReplayListingWire.length_write_le
    hreplays
  rw [← Except.pure_eq_ok.mp h, Pb.ReplayList.bytes]
  grind [kMaxReplayListings]

theorem ShotJudgementEntryWire.length_write_le {wire : ShotJudgementEntryWire}
    {written : Pb.ShotJudgementEntry} (h : wire.write = .ok written) :
    written.bytes.length ≤ 1140 := by
  obtain ⟨players, hplayers, h⟩ := Except.bind_eq_ok.mp h
  have := length_writeList_le 2 120 Pb.JudgedPlayer.bytes
    (fun {_ player} _ => player.length_bytes_le) hplayers
  rw [← Except.pure_eq_ok.mp h]
  simp only [Pb.ShotJudgementEntry.bytes, List.length_append]
  grind [length_uintField_le, kMaxPlayers]

theorem ShotJudgementWire.length_write_le {wire : ShotJudgementWire}
    {written : Pb.ShotJudgement} (h : wire.write = .ok written) :
    written.bytes.length ≤ 18720 := by
  obtain ⟨struck, hstruck, h⟩ := Except.bind_eq_ok.mp h
  obtain ⟨part, hpart, h⟩ := Except.bind_eq_ok.mp h
  obtain ⟨flags, hflags, h⟩ := Except.bind_eq_ok.mp h
  obtain ⟨entries, hentries, h⟩ := Except.bind_eq_ok.mp h
  have := length_writeList_le 9 1140 Pb.ShotJudgementEntry.bytes
    ShotJudgementEntryWire.length_write_le hentries
  rw [← Except.pure_eq_ok.mp h]
  simp only [Pb.ShotJudgement.bytes, List.length_append]
  grind [length_uintField_le, length_sintField_le, kMaxShotJudgementEntries]

/-- Every message the encoder accepts fits in a payload the transport sends. -/
theorem MessageWire.length_write_le {message : MessageWire} {written : Pb.Message}
    (h : message.write isUtf8 = .ok written) : written.bytes.length ≤ kMaxPayloadSize := by
  cases message with
  | replayListRequest =>
      cases h
      decide
  | joinRequest wire =>
      obtain ⟨body, hbody, rfl⟩ := Except.map_eq_ok.mp h
      exact length_member_le (JoinRequestWire.length_write_le hbody) (by decide)
  | joinAccepted wire =>
      obtain ⟨body, hbody, rfl⟩ := Except.map_eq_ok.mp h
      exact length_member_le (JoinAcceptedWire.length_write_le hbody) (by decide)
  | joinRefused wire =>
      obtain ⟨body, _, rfl⟩ := Except.map_eq_ok.mp h
      exact length_member_le (length_intField_le 1 _) (by decide)
  | commands wire =>
      obtain ⟨body, hbody, rfl⟩ := Except.map_eq_ok.mp h
      exact length_member_le (CommandsWire.length_write_le hbody) (by decide)
  | authoritativeState wire =>
      obtain ⟨body, hbody, rfl⟩ := Except.map_eq_ok.mp h
      exact length_member_le (AuthoritativeStateWire.length_write_le hbody) (by decide)
  | lobby wire =>
      obtain ⟨body, hbody, rfl⟩ := Except.map_eq_ok.mp h
      exact length_member_le (LobbyWire.length_write_le hbody) (by decide)
  | ready wire =>
      obtain ⟨body, _, rfl⟩ := Except.map_eq_ok.mp h
      exact length_member_le (length_uintField_le 1 _) (by decide)
  | matchStart wire =>
      obtain ⟨body, hbody, rfl⟩ := Except.map_eq_ok.mp h
      exact length_member_le (MatchStartWire.length_write_le hbody) (by decide)
  | matchEnd wire =>
      obtain ⟨body, hbody, rfl⟩ := Except.map_eq_ok.mp h
      exact length_member_le (MatchEndWire.length_write_le hbody) (by decide)
  | shot wire =>
      obtain ⟨body, _, rfl⟩ := Except.map_eq_ok.mp h
      exact length_member_le body.length_bytes_le (by decide)
  | hitConfirmation wire =>
      obtain ⟨body, _, rfl⟩ := Except.map_eq_ok.mp h
      exact length_member_le body.length_bytes_le (by decide)
  | death wire =>
      obtain ⟨body, _, rfl⟩ := Except.map_eq_ok.mp h
      exact length_member_le body.length_bytes_le (by decide)
  | replayList wire =>
      obtain ⟨body, hbody, rfl⟩ := Except.map_eq_ok.mp h
      exact length_member_le (ReplayListWire.length_write_le hbody) (by decide)
  | replayRequest wire =>
      obtain ⟨body, hbody, rfl⟩ := Except.map_eq_ok.mp h
      exact length_member_le (ReplayRequestWire.length_write_le hbody) (by decide)
  | reenactRequest wire =>
      obtain ⟨body, hbody, rfl⟩ := Except.map_eq_ok.mp h
      exact length_member_le (ReenactRequestWire.length_write_le hbody) (by decide)
  | debugSubscribe wire =>
      obtain ⟨body, _, rfl⟩ := Except.map_eq_ok.mp h
      exact length_member_le (length_uintField_le 1 _) (by decide)
  | shotJudgement wire =>
      obtain ⟨body, hbody, rfl⟩ := Except.map_eq_ok.mp h
      exact length_member_le (ShotJudgementWire.length_write_le hbody) (by decide)

end

end Augusta.Protocol
