import Augusta.Lib.BigEndian
import Augusta.Lib.Conversion
import Augusta.Simulation.World

/-! `augusta::policy`'s answers: what a hook returned, read into what it may decide.

      assign_spawns   {{session, spawn_point}, …}      ──▶ a Spawn point for each player
      on_tick         {winner = …} or {draw = true}    ──▶ a Match end

    A hook returns whatever its script says: nothing it returns is acted on but what is read here. -/

namespace Augusta.Scripting

/-- A string's bytes: what a script holds need not be text. -/
abbrev Text := List UInt8

def text (s : String) : Text := s.toUTF8.data.toList

/-- A `double`, by what it stands for. -/
inductive Number
  | nan
  | infinite (negative : Bool)
  | finite (value : ℚ)
  deriving DecidableEq

namespace Number

/-- `x < y`: false where either is a NaN. -/
def lt : Number → Number → Bool
  | .nan, _ | _, .nan => false
  | .infinite below, .infinite above => below && !above
  | .infinite below, .finite _ => below
  | .finite _, .infinite above => !above
  | .finite x, .finite y => x < y

/-- `x == y`: a NaN equals nothing. -/
def eq : Number → Number → Bool
  | .infinite x, .infinite y => x = y
  | .finite x, .finite y => x = y
  | _, _ => false

def floor : Number → Number
  | .finite x => .finite ⌊x⌋
  | x => x

/-- A whole number converted. -/
def ofNat (n : ℕ) : Number := .finite (Lib.roundDouble n)

/-- A whole number, from zero up, back again. -/
def toNat : Number → ℕ
  | .finite x => ⌊x⌋.toNat
  | _ => 0

end Number

/-- Plain data that crosses between the server and a hook. -/
inductive Value
  | nothing
  | boolean (value : Bool)
  | number (value : Number)
  | string (value : Text)
  | list (items : List Value)
  /-- Its fields by their keys. -/
  | record (fields : List (Text × Value))

abbrev Record := List (Text × Value)

inductive HookErrorCode
  | raised | notAFunction | notPlainData
  deriving DecidableEq, Repr

/-- A hook call that failed: what went wrong and what it is about. -/
structure HookError where
  code : HookErrorCode
  subject : String
  deriving DecidableEq, Repr

def describeHookError (error : HookError) : String :=
  match error.code with
  | .raised => "the hook failed: " ++ error.subject
  | .notAFunction => "the hook is not a function"
  | .notPlainData => "the hook returned " ++ error.subject ++ ", which is not plain data"

end Augusta.Scripting

namespace Augusta.Policy
open Scripting (Text Value text)

/-- A hexadecimal digit, in lower case. -/
def hexDigit (n : ℕ) : UInt8 := .ofNat (if n < 10 then 48 + n else 87 + n)

def hexByte (byte : UInt8) : Text := [hexDigit (byte.toNat / 16), hexDigit (byte.toNat % 16)]

/-- `-` -/
def kDash : UInt8 := 45

/-- `boost::uuids::to_string`: a Session ID's canonical string. -/
@[irreducible] def sessionText (session : SessionId) : Text :=
  (Lib.bigEndian 16 session).zipIdx.flatMap fun (byte, at_) =>
    (if at_ = 4 ∨ at_ = 6 ∨ at_ = 8 ∨ at_ = 10 then [kDash] else []) ++ hexByte byte

/-- Whether a string names `session`: its canonical one, and only it, does. -/
def names (named : Text) (session : SessionId) : Bool := sessionText session = named

/-- A whole number from 1 to `max`, or nothing if it is anything else. -/
def wholeNumberUpTo (value : Value) (max : ℕ) : Option ℕ :=
  match value with
  | .number number =>
      -- a NaN fails the last test
      if number.lt (.ofNat 1) || (Scripting.Number.ofNat max).lt number ||
          !number.eq number.floor then none
      else some number.toNat
  | _ => none

/-! ### `on_tick` -/

inductive ActionRefusal
  | notAnAction | notAWinner
  deriving DecidableEq, Repr

def describeActionRefusal : ActionRefusal → String
  | .notAnAction => "it is neither {winner = <Session ID>} nor {draw = true}"
  | .notAWinner => "its winner is not a player alive in the Match"

def kDraw : Text := text "draw"

def kWinner : Text := text "winner"

/-- The session a winner's string names among those alive: never the nil one. -/
def winnerOf (named : Text) (aliveSessions : List SessionId) : Option SessionId :=
  aliveSessions.find? fun session => session ≠ 0 && names named session

/-- The one field an action has. -/
def readActionField (key : Text) (value : Value) (aliveSessions : List SessionId) :
    Except ActionRefusal (Option Action) :=
  match value with
  | .boolean draw =>
      if key = kDraw ∧ draw = true then .ok (some (.matchEnd none)) else .error .notAnAction
  | .string named =>
      if key ≠ kWinner then .error .notAnAction
      else
        match winnerOf named aliveSessions with
        | none => .error .notAWinner
        | some winner => .ok (some (.matchEnd (some winner)))
  | _ => .error .notAnAction

def readTickAction (returned : Value) (aliveSessions : List SessionId) :
    Except ActionRefusal (Option Action) :=
  match returned with
  | .nothing => .ok none
  | .record [(key, value)] => readActionField key value aliveSessions
  | _ => .error .notAnAction

/-! ### `assign_spawns` -/

inductive SpawnRefusal
  | notAList | notAnAssignment | unknownPlayer | playerTwice | playerMissing | notASpawnPoint
  deriving DecidableEq, Repr

def describeSpawnRefusal : SpawnRefusal → String
  | .notAList => "it is not a list"
  | .notAnAssignment => "an entry is not a record of exactly a session and a spawn_point"
  | .unknownPlayer => "it names a session that is not a player in the Match"
  | .playerTwice => "it names a player twice"
  | .playerMissing => "it leaves a player out"
  | .notASpawnPoint => "a spawn_point is not a whole number from 1 to the number of Spawn points"

def kSession : Text := text "session"

def kSpawnPoint : Text := text "spawn_point"

/-- Which of `players` a value names, by its place among them. -/
def playerNamed (value : Value) (players : List SessionId) : Option ℕ :=
  match value with
  | .string named => players.findIdx? (names named)
  | _ => none

/-- One entry of an answer, onto the Spawn points read before it. -/
def readEntry (players : List SessionId) (spawnPoints : ℕ) (assigned : List (Option ℕ))
    (entry : Value) : Except SpawnRefusal (List (Option ℕ)) :=
  match entry with
  | .record [(first, session), (second, point)] =>
      if first ≠ kSession ∨ second ≠ kSpawnPoint then .error .notAnAssignment
      else
        match playerNamed session players with
        | none => .error .unknownPlayer
        | some player =>
            if (assigned.getD player none).isSome then .error .playerTwice
            else
              match wholeNumberUpTo point spawnPoints with
              | none => .error .notASpawnPoint
              | some spawnPoint => .ok (assigned.set player (some (spawnPoint - 1)))
  | _ => .error .notAnAssignment

/-- Every player's Spawn point, once no player is left out. -/
def allAssigned (assigned : List (Option ℕ)) : Except SpawnRefusal (List ℕ) :=
  assigned.mapM fun slot => slot.elim (.error .playerMissing) .ok

def readSpawnAssignment (answer : Value) (players : List SessionId) (spawnPoints : ℕ) :
    Except SpawnRefusal (List ℕ) :=
  match answer with
  | .list entries => do
      let assigned ← entries.foldlM (readEntry players spawnPoints)
        (List.replicate players.length none)
      allAssigned assigned
  | _ => .error .notAList

end Augusta.Policy
