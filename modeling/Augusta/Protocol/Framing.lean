import Augusta.Lib.Fields
import Augusta.Protocol.Decoder
import Augusta.Protocol.Size

/-! `Readdress`: an Authoritative State's payload given another recipient's own fields.

      payload   =  tag 5   varint length   [ tick  bodies ][ the recipient's own fields ]
                                              shared: kept     written afresh

    The code walks the serialized fields for where the own ones begin, so it never reads a body. -/

namespace Augusta.Protocol
open Lib.Protobuf
open Limits Math

def kTagTypeBits : ℕ := 3

def kTagTypeMask : ℕ := 2 ^ kTagTypeBits

def kAuthoritativeStateTag : ℕ := 5 * kTagTypeMask + 2

/-- `bodies`, the last of the fields every recipient is told alike. -/
def kLastSharedField : ℕ := 2

def skip (count : ℕ) (input : Bytes) : Option Bytes :=
  if input.length < count then none else some (input.drop count)

/-- What follows the value of the field `tag` begins. -/
def skipValue (input : Bytes) (tag : ℕ) : Option Bytes :=
  match tag % kTagTypeMask with
  | 0 => (readVarint 10 input).map Prod.snd
  | 1 => skip 8 input
  | 2 => do
      let (length, rest) ← readVarint32 input
      if length ≤ kMaxParsedSize then skip length rest else none
  | 5 => skip 4 input
  | _ => none

/-- The loop over the fields: where, of `size` bytes, the own ones begin. `fuel` is a bound on the
    fields left, each of a byte at least. -/
def ownStartOf (size : ℕ) : ℕ → Bytes → Option ℕ → Option (Option ℕ)
  | _, [], ownStart => some ownStart
  | 0, _ :: _, _ => none
  | fuel + 1, byte :: more, ownStart =>
      let (tag, value) := nextTag (byte :: more)
      let field := tag / kTagTypeMask
      if field = 0 ∨ (ownStart.isSome ∧ field ≤ kLastSharedField) then none
      else match skipValue value tag with
        | none => none
        | some rest =>
            ownStartOf size fuel rest <|
              if ownStart.isNone ∧ kLastSharedField < field
              then some (size - (byte :: more).length) else ownStart

/-- The bytes of the payload's shared fields, if it is an Authoritative State as `encode` makes
    one. -/
def sharedFieldsOf (payload : Bytes) : Option Bytes :=
  if kMaxParsedSize < payload.length then none
  else
    let (tag, input) := nextTag payload
    if tag ≠ kAuthoritativeStateTag then none
    else match readVarint32 input with
      | none => none
      | some (length, fields) =>
          if fields.length ≠ length then none
          else (ownStartOf fields.length fields.length fields none).map fun ownStart =>
            fields.take (ownStart.getD fields.length)

/-- The recipient's own fields alone. -/
def AuthoritativeStateWire.writeOwn (wire : AuthoritativeStateWire) : Pb.AuthoritativeState where
  acknowledgedSequence := wire.acknowledgedSequence
  queuedCommands := wire.queuedCommands.toUInt32
  rifleRounds := wire.rifle.rounds.toUInt32
  rifleCooldown := wire.rifle.cooldown
  rifleReloadRemaining := wire.rifle.reloadRemaining
  rifleBurstIndex := wire.rifle.burstIndex.toUInt32
  rifleRecoilPitch := steps wire.rifle.recoilPitch kAngleGrid
  rifleRecoilYaw := steps wire.rifle.recoilYaw kAngleGrid
  health := wire.health

/-- The outcome, and the payload after it. -/
def readdress (payload : Bytes) (recipient : AuthoritativeStateWire) :
    Except EncodeError Unit × Bytes :=
  match sharedFieldsOf payload with
  | none => (.error .notAnAuthoritativeState, payload)
  | some shared =>
      let own := recipient.writeOwn.bytes
      let length := (shared.length + own.length) % 2 ^ 32
      (.ok (), varint kAuthoritativeStateTag ++ (varint length ++ (shared ++ own)))

end Augusta.Protocol
