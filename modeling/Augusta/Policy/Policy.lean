import Augusta.Policy.Answers

/-! `augusta::policy::Policy`: a scenario's rules, asked and answered.

      MatchView ──▶ a record of it ──▶ the hook ──▶ its answer ──▶ what it decides

    A hook that fails, or answers what it may not decide, decides nothing, and the next call runs as
    usual. What a script does when it is called is its own business: a scenario's hooks are any
    function, and they may be others at the next call. -/

namespace Augusta.Policy
open Lib (Binary32)
open Scripting (Text Value Number HookError text describeHookError)

/-- What each hook returns of the view it is handed, as its script is now. -/
abbrev Hooks := Text → Scripting.Record → Except HookError Value

def kOnTick : Text := text "on_tick"

def kAssignSpawns : Text := text "assign_spawns"

/-- A float as the double it converts to. -/
def numberOf (x : Binary32) : Number :=
  if x.isNaN then .nan else if ¬ x.isFinite then .infinite x.negative else .finite x.toRat

def numberField (key : String) (number : Number) : Text × Value := (text key, .number number)

def boolField (key : String) (value : Bool) : Text × Value := (text key, .boolean value)

def stringField (key : String) (value : Text) : Text × Value := (text key, .string value)

/-- A player as a hook sees it, its fields ordered by key. -/
def toValue (player : PlayerView) : Value :=
  .record <|
    [boolField "alive" player.alive, stringField "character" (text player.character),
      numberField "entity" (.ofNat player.entity.toNat), numberField "health" (numberOf player.health),
      boolField "killed" player.killer.isSome] ++
    (player.killer.map fun killer => numberField "killer" (.ofNat killer.toNat)).toList ++
    [stringField "session" (sessionText player.session)]

/-- The view of the Match every hook is handed, its players ordered by session. -/
def toRecord (view : MatchView) : Scripting.Record :=
  let roster := view.players.insertionSort fun a b => a.session ≤ b.session
  [numberField "player_count" (.ofNat view.playerCount.toNat),
    (text "players", .list (roster.map toValue))]

inductive UndecidedCode
  | hookFailed | refused
  deriving DecidableEq, Repr

/-- A hook call that decided nothing. -/
structure Undecided where
  code : UndecidedCode
  description : String
  deriving DecidableEq, Repr

def hookFailed (error : HookError) : Undecided := ⟨.hookFailed, describeHookError error⟩

/-- `Impl::Call`: without rules, a hook is undefined. -/
def call (rules : Option Hooks) (hook : Text) (view : Scripting.Record) : Except HookError Value :=
  match rules with
  | none => .ok .nothing
  | some hooks => hooks hook view

/-- What `on_tick` returned. -/
def tickAnswer (rules : Option Hooks) (view : MatchView) (tick : Tick) : Except HookError Value :=
  call rules kOnTick (toRecord view ++ [numberField "tick" (.ofNat tick.toNat)])

def aliveSessions (view : MatchView) : List SessionId :=
  (view.players.filter (·.alive)).map (·.session)

/-- `OnTick`. -/
def onTick (rules : Option Hooks) (view : MatchView) (tick : Tick) :
    Except Undecided (Option Action) :=
  match tickAnswer rules view tick with
  | .error error => .error (hookFailed error)
  | .ok returned =>
      match readTickAction returned (aliveSessions view) with
      | .error refusal => .error ⟨.refused, describeActionRefusal refusal⟩
      | .ok action => .ok action

/-- What `assign_spawns` returned. -/
def spawnsAnswer (rules : Option Hooks) (view : MatchView) (spawnPoints : ℕ) :
    Except HookError Value :=
  call rules kAssignSpawns (toRecord view ++ [numberField "spawn_points" (.ofNat spawnPoints)])

/-- `AssignSpawns`: nothing where the hook does not decide. -/
def assignSpawns (rules : Option Hooks) (view : MatchView) (spawnPoints : ℕ) :
    Except Undecided (Option (List ℕ)) :=
  match spawnsAnswer rules view spawnPoints with
  | .error error => .error (hookFailed error)
  | .ok .nothing => .ok none
  | .ok answer =>
      match readSpawnAssignment answer (view.players.map (·.session)) spawnPoints with
      | .error refusal => .error ⟨.refused, describeSpawnRefusal refusal⟩
      | .ok indices => .ok (some indices)

/-! ### `simulation::PolicyBridge` -/

/-- What the World hears of `on_tick` while Game policy has not ended the Match: the action it
    takes, and nothing of a call that decided nothing. -/
def tickDecision (rules : Option Hooks) (view : MatchView) (tick : Tick) : Option Action :=
  (onTick rules view tick).toOption.join

/-- What the World hears of `assign_spawns`. -/
def spawnsDecision (rules : Option Hooks) (view : MatchView) (spawnPoints : ℕ) :
    Option (List ℕ) :=
  (assignSpawns rules view spawnPoints).toOption.join

end Augusta.Policy
