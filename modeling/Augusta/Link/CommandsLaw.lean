import Augusta.Link.Commands
import Augusta.Protocol.Framing

/-! A Commands message, from the Commands the client sends to those the server reads.

      seen ticks   7   900   640        newest M = 900
      read         645 900   645        what lies more than 255 behind M is read 255 behind it

    So no Command is ever read to have seen an older tick than it did, and one carried with none
    that saw much later is read as it was. -/

namespace Augusta.Link
open Protocol Math Lib.Protobuf

/-! ### The message as bytes -/

/-- `Client::Send` of Commands, as the payload it makes. -/
def encodeCommands (isUtf8 : Bytes → Bool) (commands : List SequencedCommand) :
    Except EncodeError Bytes :=
  encode isUtf8 (.commands (commandsToWire commands))

/-- `ReadFrom`, of a payload that holds Commands. -/
def readCommands (isUtf8 : Bytes → Bool) (parse : Bytes → Option Pb.Message) (payload : Bytes) :
    Option (List SequencedCommand) :=
  match decode isUtf8 parse payload with
  | .ok (.commands message) => some (commandsFromWire message)
  | _ => none

/-- Whether rounding for the wire leaves the Command as it is. -/
structure OnGrids (command : Command) : Prop where
  direction : snapDirection command.movement.direction = command.movement.direction
  yaw : snapAngle command.yaw = command.yaw
  pitch : snapAngle command.pitch = command.pitch
  seenFraction : snapFraction command.seenFraction = command.seenFraction

/-- The tick a Command is read to have seen, in a message whose newest is `newest`: its own if that
    is at most 255 behind. -/
def seenRead (newest seen : Tick) : Tick :=
  if newest.toNat ≤ seen.toNat + 255 then seen else newest - 255

/-! ### The newest tick seen -/

theorem foldl_max_mem (commands : List SequencedCommand) (newest : Tick) :
    commands.foldl (fun newest sequenced => max newest sequenced.command.seenTick) newest =
        newest ∨
      ∃ sequenced ∈ commands, sequenced.command.seenTick =
        commands.foldl (fun newest sequenced => max newest sequenced.command.seenTick) newest := by
  induction commands generalizing newest with
  | nil => exact .inl rfl
  | cons first rest ih =>
      rcases ih (max newest first.command.seenTick) with hsame | ⟨sequenced, hmem, hseen⟩
      · rw [List.foldl_cons, hsame]
        have hdef : max newest first.command.seenTick =
            if newest ≤ first.command.seenTick then first.command.seenTick else newest := rfl
        rw [hdef]
        split_ifs
        · exact .inr ⟨first, List.mem_cons_self, rfl⟩
        · exact .inl rfl
      · exact .inr ⟨sequenced, List.mem_cons_of_mem _ hmem, hseen⟩

/-- Of the Commands carried, one saw the newest tick. -/
theorem newestSeen_mem {commands : List SequencedCommand} (h : commands ≠ []) :
    ∃ sequenced ∈ commands, sequenced.command.seenTick = newestSeen commands := by
  rcases foldl_max_mem commands 0 with hzero | hmem
  · obtain ⟨first, hfirst⟩ := List.exists_mem_of_ne_nil commands h
    refine ⟨first, hfirst, ?_⟩
    have hle := UInt64.le_iff_toNat_le.mp (seenTick_le_newest hfirst)
    rw [newestSeen, hzero] at hle ⊢
    rw [← UInt64.toNat_inj]
    rw [UInt64.toNat_zero] at hle ⊢
    omega
  · exact hmem

/-! ### What is read -/

theorem max_eq_seenRead {newest seen : Tick} (h : seen ≤ newest) :
    max seen (newest - min kMaxSeenAge newest) = seenRead newest seen := by
  have hle := UInt64.le_iff_toNat_le.mp h
  have hmin : min kMaxSeenAge newest ≤ newest := by
    rw [UInt64.le_iff_toNat_le, toNat_min]
    exact Nat.min_le_right _ _
  rw [← UInt64.toNat_inj, toNat_max, UInt64.toNat_sub_of_le _ _ hmin, toNat_min, seenRead,
    show kMaxSeenAge.toNat = 255 from rfl]
  split_ifs with hnear
  · omega
  · have hfar : (255 : Tick) ≤ newest := by
      rw [UInt64.le_iff_toNat_le, show (255 : Tick).toNat = 255 from rfl]
      omega
    rw [UInt64.toNat_sub_of_le _ _ hfar, show (255 : Tick).toNat = 255 from rfl]
    omega

theorem arrived_of_onGrids {newest : Tick} {command : Command} (hgrids : OnGrids command)
    (h : command.seenTick ≤ newest) :
    arrived newest command = { command with seenTick := seenRead newest command.seenTick } := by
  rw [arrived, hgrids.direction, hgrids.yaw, hgrids.pitch, hgrids.seenFraction, max_eq_seenRead h]

/-- What is read is never an older tick than was seen. -/
theorem le_seenRead (newest seen : Tick) : seen ≤ seenRead newest seen := by
  rw [seenRead]
  split_ifs with hnear
  · exact UInt64.le_refl _
  · have hfar : (255 : Tick) ≤ newest := by
      rw [UInt64.le_iff_toNat_le, show (255 : Tick).toNat = 255 from rfl]
      omega
    rw [UInt64.le_iff_toNat_le, UInt64.toNat_sub_of_le _ _ hfar,
      show (255 : Tick).toNat = 255 from rfl]
    omega

/-- CORRECT: the message of any Commands on their grids is read as the last of them, in order, each
    the same but for its Seen tick, which is its own or, further behind the newest carried than an
    age says, 255 behind that; so none is read older than it was, and each is read as it was where
    those carried lie within 255 of one another. -/
theorem commands_law (isUtf8 : Bytes → Bool) (parse : Bytes → Option Pb.Message)
    (commands : List SequencedCommand)
    (hgrids : ∀ sequenced ∈ commands, OnGrids sequenced.command)
    (hparse : ∀ written, (MessageWire.commands (commandsToWire commands)).write isUtf8 = .ok written →
      parse written.bytes = some written) :
    let sent := carried commands
    let newest := newestSeen sent
    sent <:+ commands ∧ sent.length = min commands.length kMaxCommandsPerMessage ∧
    (∀ sequenced ∈ sent, sequenced.command.seenTick ≤ newest) ∧
    (sent ≠ [] → ∃ sequenced ∈ sent, sequenced.command.seenTick = newest) ∧
    (∃ payload, encodeCommands isUtf8 commands = .ok payload ∧
      readCommands isUtf8 parse payload = some (sent.map fun sequenced =>
        { sequenced with command :=
          { sequenced.command with seenTick := seenRead newest sequenced.command.seenTick } })) ∧
    (∀ sequenced ∈ sent, sequenced.command.seenTick ≤ seenRead newest sequenced.command.seenTick) ∧
    ((∀ a ∈ sent, ∀ b ∈ sent, a.command.seenTick.toNat ≤ b.command.seenTick.toNat + 255) →
      ∀ sequenced ∈ sent,
        seenRead newest sequenced.command.seenTick = sequenced.command.seenTick) := by
  intro sent newest
  have hsuffix : sent <:+ commands := List.drop_suffix _ _
  refine ⟨hsuffix, ?_, fun sequenced hmem => seenTick_le_newest hmem, newestSeen_mem, ?_,
    fun sequenced _ => le_seenRead newest _, ?_⟩
  · simp only [sent, carried, List.length_drop]
    omega
  · obtain ⟨written, hwritten, -⟩ := commandsToWire_carried commands
    have hencode : encodeCommands isUtf8 commands = .ok (Pb.Message.commands written).bytes := by
      rw [encodeCommands, encode, MessageWire.write, hwritten]
      rfl
    refine ⟨_, hencode, ?_⟩
    rw [readCommands, (decode_encode parse _ hparse hencode).1]
    simp only [MessageWire.snapped, commandsFromWire_toWire, arrivedAll]
    refine congrArg some (List.map_congr_left fun sequenced hmem => ?_)
    rw [arrived_of_onGrids (hgrids sequenced (hsuffix.subset hmem)) (seenTick_le_newest hmem)]
  · intro hnear sequenced hmem
    obtain ⟨last, hlast, hseen⟩ := newestSeen_mem (List.ne_nil_of_mem hmem)
    have hspread := hnear last hlast sequenced hmem
    rw [hseen] at hspread
    exact if_pos hspread

/-! ### One message -/

/-- Two Commands, the first far behind the second. -/
def farApart : List SequencedCommand :=
  [⟨7, { fire := true, seenTick := 7 }⟩, ⟨8, { seenTick := 900 }⟩]

theorem farApart_onGrids : ∀ sequenced ∈ farApart, OnGrids sequenced.command := by
  intro sequenced hmem
  rcases List.mem_cons.mp hmem with rfl | hmem
  · exact ⟨by decide, by decide, by decide, by decide⟩
  · rw [List.mem_singleton.mp hmem]
    exact ⟨by decide, by decide, by decide, by decide⟩

/-- Protobuf, of that one message. -/
def parseFarApart (payload : Bytes) : Option Pb.Message :=
  match (MessageWire.commands (commandsToWire farApart)).write fun _ => true with
  | .ok written => if payload = written.bytes then some written else none
  | .error _ => none

theorem commands_law_farApart : ∃ payload,
    encodeCommands (fun _ => true) farApart = .ok payload ∧
      readCommands (fun _ => true) parseFarApart payload =
        some [⟨7, { fire := true, seenTick := 645 }⟩, ⟨8, { seenTick := 900 }⟩] := by
  have hlaw := commands_law (fun _ => true) parseFarApart farApart farApart_onGrids
    fun written hwritten => by rw [parseFarApart, hwritten]; exact if_pos rfl
  obtain ⟨payload, hencode, hread⟩ := hlaw.2.2.2.2.1
  exact ⟨payload, hencode, hread⟩

end Augusta.Link
