import Augusta.Link.Messages
import Augusta.Protocol.RoundTrip

/-! How the Link carries Commands: the newest unacknowledged ones in one message, each with its age
    behind the newest tick any of them saw.

      seen      0 ····· 250 ····· 300        newest M = 300
      age     255        50         0        at most 255
      read     45       250       300        M - age -/

namespace Augusta.Link
open Protocol Math

/-- A stance and its enumerator have the same number. -/
def stanceToWire : Physics.Stance → StanceWire
  | .standing => .standing
  | .crouching => .crouching
  | .prone => .prone

/-- The decoder admits only the three. -/
def stanceFromWire (stance : StanceWire) : Physics.Stance :=
  if stance = .standing then .standing else if stance = .crouching then .crouching else .prone

/-- The most an age says. -/
def kMaxSeenAge : Tick := 255

/-- `ToWire` of a Command, in a message whose Seen tick is `seenTick`. -/
def commandToWire (command : Command) (seenTick : Tick) : CommandWire :=
  let age := if seenTick > command.seenTick then seenTick - command.seenTick else 0
  { direction := command.movement.direction
    yaw := command.yaw
    pitch := command.pitch
    seenFraction := command.seenFraction
    flags :=
      (if command.movement.sprint then CommandWire.kSprint else 0) |||
      (if command.ads then CommandWire.kAds else 0) |||
      (if command.fire then CommandWire.kFire else 0) |||
      (if command.reload then CommandWire.kReload else 0)
    desiredStance := stanceToWire command.movement.desiredStance
    seenAge := (min age kMaxSeenAge).toUInt8 }

/-- `FromWire` of a Command. -/
def commandFromWire (wire : CommandWire) (seenTick : Tick) : Command where
  movement :=
    { direction := wire.direction
      sprint := wire.flags &&& CommandWire.kSprint != 0
      desiredStance := stanceFromWire wire.desiredStance }
  yaw := wire.yaw
  pitch := wire.pitch
  ads := wire.flags &&& CommandWire.kAds != 0
  fire := wire.flags &&& CommandWire.kFire != 0
  reload := wire.flags &&& CommandWire.kReload != 0
  seenTick := seenTick - min wire.seenAge.toUInt64 seenTick
  seenFraction := wire.seenFraction

/-- Those of `commands` one message carries: the last. -/
def carried (commands : List SequencedCommand) : List SequencedCommand :=
  commands.drop (commands.length - kMaxCommandsPerMessage)

/-- The newest tick any of `commands` saw. -/
def newestSeen (commands : List SequencedCommand) : Tick :=
  commands.foldl (fun newest sequenced => max newest sequenced.command.seenTick) 0

/-- `OneMessage`. -/
def oneMessage (commands : List SequencedCommand) : CommandsWire where
  commands := commands.map fun sequenced =>
    { sequence := sequenced.sequence
      command := commandToWire sequenced.command (newestSeen commands) }
  seenTick := newestSeen commands

def commandsToWire (commands : List SequencedCommand) : CommandsWire := oneMessage (carried commands)

def commandsFromWire (message : CommandsWire) : List SequencedCommand :=
  message.commands.map fun sequenced =>
    { sequence := sequenced.sequence
      command := commandFromWire sequenced.command message.seenTick }

/-! ### What arrives -/

/-- A Command as it arrives in a message whose newest Seen tick is `newest`: its numbers on the
    wire's grids, its Seen tick no further than `kMaxSeenAge` behind. -/
def arrived (newest : Tick) (command : Command) : Command :=
  { command with
    movement := { command.movement with direction := snapDirection command.movement.direction }
    yaw := snapAngle command.yaw
    pitch := snapAngle command.pitch
    seenTick := max command.seenTick (newest - min kMaxSeenAge newest)
    seenFraction := snapFraction command.seenFraction }

def arrivedAll (commands : List SequencedCommand) : List SequencedCommand :=
  commands.map fun sequenced =>
    { sequenced with command := arrived (newestSeen commands) sequenced.command }

@[simp] theorem stanceFromWire_toWire (stance : Physics.Stance) :
    stanceFromWire (stanceToWire stance) = stance := by
  cases stance <;> rfl

/-- The four flags come out of the bits they went in. -/
theorem flags_back : ∀ sprint ads fire reload : Bool,
    let flags := (if sprint then CommandWire.kSprint else 0) |||
      (if ads then CommandWire.kAds else 0) ||| (if fire then CommandWire.kFire else 0) |||
      (if reload then CommandWire.kReload else 0)
    (flags &&& CommandWire.kSprint != 0) = sprint ∧ (flags &&& CommandWire.kAds != 0) = ads ∧
      (flags &&& CommandWire.kFire != 0) = fire ∧ (flags &&& CommandWire.kReload != 0) = reload := by
  decide

theorem toNat_min (a b : UInt64) : (min a b).toNat = min a.toNat b.toNat := by
  have hdef : min a b = if a ≤ b then a else b := rfl
  rw [hdef]
  split_ifs with h
  · exact (Nat.min_eq_left (UInt64.le_iff_toNat_le.mp h)).symm
  · have := mt UInt64.le_iff_toNat_le.mpr h
    omega

theorem toNat_max (a b : UInt64) : (max a b).toNat = max a.toNat b.toNat := by
  have hdef : max a b = if a ≤ b then b else a := rfl
  rw [hdef]
  split_ifs with h
  · exact (Nat.max_eq_right (UInt64.le_iff_toNat_le.mp h)).symm
  · have := mt UInt64.le_iff_toNat_le.mpr h
    omega

/-- An age is the ticks behind, held to the most it says. -/
theorem toNat_age {seen newest : Tick} (h : seen ≤ newest) :
    (min (if newest > seen then newest - seen else 0) kMaxSeenAge).toNat =
      min (newest.toNat - seen.toNat) 255 := by
  have hle := UInt64.le_iff_toNat_le.mp h
  rw [toNat_min, show kMaxSeenAge.toNat = 255 from rfl]
  split_ifs with hlt
  · rw [UInt64.toNat_sub_of_le _ _ h]
  · have := mt UInt64.lt_iff_toNat_lt.mpr hlt
    rw [UInt64.toNat_zero]
    omega

/-- The Seen tick as it is read back from the age it travels as. -/
theorem seenTick_back {seen newest : Tick} (h : seen ≤ newest) :
    newest - min (min (if newest > seen then newest - seen else 0) kMaxSeenAge).toUInt8.toUInt64
      newest = max seen (newest - min kMaxSeenAge newest) := by
  have hle := UInt64.le_iff_toNat_le.mp h
  have hage : (min (if newest > seen then newest - seen else 0)
      kMaxSeenAge).toUInt8.toUInt64.toNat = min (newest.toNat - seen.toNat) 255 := by
    rw [UInt8.toNat_toUInt64, UInt64.toNat_toUInt8, toNat_age h]
    omega
  have hback : ∀ behind : UInt64, (newest - min behind newest).toNat =
      newest.toNat - min behind.toNat newest.toNat := fun behind => by
    have hbehind : min behind newest ≤ newest := by
      rw [UInt64.le_iff_toNat_le, toNat_min]
      exact Nat.min_le_right _ _
    rw [UInt64.toNat_sub_of_le _ _ hbehind, toNat_min]
  rw [← UInt64.toNat_inj, hback, hage, toNat_max, hback, show kMaxSeenAge.toNat = 255 from rfl]
  omega

theorem commandFromWire_toWire {command : Command} {newest : Tick} (h : command.seenTick ≤ newest) :
    commandFromWire (commandToWire command newest).snapped newest = arrived newest command := by
  obtain ⟨hsprint, hads, hfire, hreload⟩ :=
    flags_back command.movement.sprint command.ads command.fire command.reload
  have hseen := seenTick_back h
  simp only [commandFromWire, commandToWire, CommandWire.snapped, arrived, hsprint, hads, hfire,
    hreload, hseen, stanceFromWire_toWire]

theorem le_foldl_max (commands : List SequencedCommand) (newest : Tick) :
    newest.toNat ≤
      (commands.foldl (fun newest sequenced => max newest sequenced.command.seenTick)
        newest).toNat := by
  induction commands generalizing newest with
  | nil => exact Nat.le_refl _
  | cons sequenced rest ih =>
      have hstep := ih (max newest sequenced.command.seenTick)
      rw [toNat_max] at hstep
      exact Nat.le_trans (Nat.le_max_left _ _) hstep

theorem seenTick_le_newest {commands : List SequencedCommand} {sequenced : SequencedCommand}
    (h : sequenced ∈ commands) : sequenced.command.seenTick ≤ newestSeen commands := by
  rw [newestSeen, UInt64.le_iff_toNat_le]
  generalize (0 : Tick) = newest
  induction commands generalizing newest with
  | nil => cases h
  | cons first rest ih =>
      rcases List.mem_cons.mp h with rfl | hrest
      · have hstep := le_foldl_max rest (max newest sequenced.command.seenTick)
        rw [toNat_max] at hstep
        exact Nat.le_trans (Nat.le_max_right _ _) hstep
      · exact ih hrest _

/-- What the server reads of a message: each Command it carries, as it arrives. -/
theorem commandsFromWire_toWire (commands : List SequencedCommand) :
    commandsFromWire (commandsToWire commands).snapped = arrivedAll (carried commands) := by
  simp only [commandsFromWire, commandsToWire, oneMessage, CommandsWire.snapped, List.map_map,
    arrivedAll]
  refine List.map_congr_left fun sequenced hmem => ?_
  simp only [Function.comp_apply, SequencedCommandWire.snapped,
    commandFromWire_toWire (seenTick_le_newest hmem)]

/-! ### The wire carries it -/

theorem commandToWire_writes (command : Command) (newest : Tick) :
    ∃ written, (commandToWire command newest).write = .ok written := by
  have hflags : (commandToWire command newest).flags &&& ~~~kCommandFlagsMask = 0 := by
    simp only [commandToWire]
    cases command.movement.sprint <;> cases command.ads <;> cases command.fire <;>
      cases command.reload <;> decide
  have hstance : StanceWire.standing.value ≤ (commandToWire command newest).desiredStance.value ∧
      (commandToWire command newest).desiredStance.value ≤ StanceWire.prone.value := by
    simp only [commandToWire]
    cases command.movement.desiredStance <;> decide
  rw [CommandWire.write, Outbound.fromFlags_eq_ok.mpr ⟨hflags, rfl⟩, Except.ok_bind,
    Outbound.fromEnum_eq_ok.mpr ⟨hstance, rfl⟩, Except.ok_bind]
  exact ⟨_, rfl⟩

theorem length_carried_le (commands : List SequencedCommand) :
    (carried commands).length ≤ kMaxCommandsPerMessage := by
  rw [carried, List.length_drop]
  omega

/-- Whatever the Commands, the message that carries them encodes, and decodes to itself on the
    wire's grids. -/
theorem commandsToWire_carried (commands : List SequencedCommand) :
    ∃ written, (commandsToWire commands).write = .ok written ∧
      written.read = .ok (commandsToWire commands).snapped := by
  have hall : ∀ sequenced ∈ (commandsToWire commands).commands,
      ∃ written, sequenced.write = .ok written := by
    intro sequenced hmem
    obtain ⟨source, _, rfl⟩ := List.mem_map.mp hmem
    obtain ⟨written, hwritten⟩ := commandToWire_writes source.command (newestSeen (carried commands))
    rw [SequencedCommandWire.write, hwritten]
    exact ⟨_, rfl⟩
  obtain ⟨values, hvalues⟩ := Except.mapM_ok_of_forall hall
  have hlist : writeList (commandsToWire commands).commands kMaxCommandsPerMessage
      SequencedCommandWire.write = .ok values := by
    refine writeList_eq_ok.mpr ⟨?_, hvalues⟩
    rw [commandsToWire, oneMessage, List.length_map]
    exact length_carried_le commands
  have hwrite : (commandsToWire commands).write =
      .ok { commands := values, seenTick := (commandsToWire commands).seenTick } := by
    rw [CommandsWire.write, hlist]
    rfl
  exact ⟨_, hwrite, CommandsWire.read_write hwrite⟩

end Augusta.Link
