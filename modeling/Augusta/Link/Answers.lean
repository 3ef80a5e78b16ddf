import Augusta.Link.TickWire

/-! What a server answers who asks to join or to watch, as the protocol's messages carry it, and
    encoded to be sent.

      JoinRefusal, Admission, MatchStart, MatchEnd ──toWire──▶ MessageWire ──make──▶ Outgoing
                                                                          └──▶ why it cannot be -/

namespace Augusta.Link
open Protocol

def joinRefusalToWire : JoinRefusal → JoinRefusalWire
  | .versionMismatch => .versionMismatch
  | .lobbyFull => .lobbyFull
  | .unknownCharacter => .unknownCharacter
  | .matchInProgress => .matchInProgress
  | .packMismatch => .packMismatch
  | .replayServer => .replayServer
  | .unknownCapture => .unknownCapture
  | .notAReplayServer => .notAReplayServer
  | .reenactmentsNotAccepted => .reenactmentsNotAccepted

def rifleToWire (rifle : Weapon.Rifle) : RifleWire where
  roundsPerMinute := rifle.roundsPerMinute
  muzzleVelocity := rifle.muzzleVelocity
  reloadSeconds := rifle.reloadSeconds
  recoilRecoveryPerSecond := rifle.recoilRecoveryPerSecond
  adsRecoilScale := rifle.adsRecoilScale
  adsFieldOfView := rifle.adsFieldOfView
  recoilPattern := rifle.recoilPattern.map fun kick => ⟨kick.pitch, kick.yaw⟩
  magazineCapacity := rifle.magazineCapacity

def parametersToWire (parameters : Parameters) : ParametersWire where
  stamina :=
    { depletePerSecond := parameters.stamina.depletePerSecond
      regenPerSecond := parameters.stamina.regenPerSecond
      forcedWalkBelow := parameters.stamina.forcedWalkBelow }
  rifle := rifleToWire parameters.rifle
  ammo :=
    { gravity := parameters.ammo.flight.gravity
      maxRange := parameters.ammo.flight.maxRange
      headDamage := parameters.ammo.damage.head
      torsoDamage := parameters.ammo.damage.torso
      limbDamage := parameters.ammo.damage.limb }
  startingHealth := parameters.startingHealth
  playerCount := parameters.playerCount

def admissionToWire (admission : Admission) : JoinAcceptedWire where
  session := uuidToWire admission.session
  tickRateHz := admission.tickRateHz
  parameters := parametersToWire admission.parameters
  character := textToWire admission.character

def matchPlayerToWire (player : MatchPlayer) : MatchPlayerWire where
  spawn := player.spawn
  session := uuidToWire player.session
  entity := player.entity
  character := textToWire player.character

def matchStartToWire (start : MatchStart) : MatchStartWire where
  players := start.players.map matchPlayerToWire
  firstTick := start.firstTick
  name := uuidToWire start.name

def matchEndToWire (ended : MatchEnd) : MatchEndWire where
  winner := match ended.winner with
    | some session => uuidToWire session
    | none => nilUuid

/-- `OutgoingAccess::Make`, of any message. -/
def make (message : MessageWire) : Except EncodeError Outgoing :=
  (fun payload => ⟨typeOfPayload payload, payload⟩) <$> Protocol.encode isUtf8 message

def encodeJoinRefusal (reason : JoinRefusal) : Except EncodeError Outgoing :=
  make (.joinRefused ⟨joinRefusalToWire reason⟩)

def encodeAdmission (admission : Admission) : Except EncodeError Outgoing :=
  make (.joinAccepted (admissionToWire admission))

def encodeMatchStart (start : MatchStart) : Except EncodeError Outgoing :=
  make (.matchStart (matchStartToWire start))

def encodeMatchEnd (ended : MatchEnd) : Except EncodeError Outgoing :=
  make (.matchEnd (matchEndToWire ended))

/-- No Match start goes out of more players than a Match has room for. -/
theorem length_of_encodeMatchStart {start : MatchStart} {outgoing : Outgoing}
    (h : encodeMatchStart start = .ok outgoing) : start.players.length ≤ Limits.kMaxPlayers := by
  obtain ⟨payload, hpayload, -⟩ := Except.map_eq_ok.mp h
  obtain ⟨written, hwritten, -⟩ := Except.map_eq_ok.mp hpayload
  obtain ⟨body, hbody, -⟩ := Except.map_eq_ok.mp hwritten
  rw [MatchStartWire.write, Except.bind_eq_ok] at hbody
  obtain ⟨players, hplayers, -⟩ := hbody
  obtain ⟨hlength, -⟩ := writeList_eq_ok.mp hplayers
  rwa [matchStartToWire, List.length_map] at hlength

end Augusta.Link
