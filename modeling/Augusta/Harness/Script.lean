import Augusta.Capture.File

/-! `augusta::harness::Script`: one player's part of a Match capture, and the markers its run is
    compared with.

      capture   Join 1 … Join n │ command 1 │ command 2 │ death │ leave 2 │ … │ Match end
      script 2          spawns     ·          commands    deaths   leave          end -/

namespace Augusta.Harness
open Capture (Player Event EventAt MatchCapture)

/-- `AtOffset<Command>`: a captured Command, whoever's. -/
structure CommandAt where
  offset : UInt32
  player : Player
  seenOffset : ℤ
  command : Command
  deriving DecidableEq

structure DeathAt where
  offset : UInt32
  victim : Player
  killer : Player
  deriving DecidableEq

structure MatchEndAt where
  offset : UInt32
  winner : Option Player
  deriving DecidableEq

structure Script where
  clientPack : Capture.PackHash
  tickRateHz : UInt8
  /-- The player it plays. -/
  player : Player
  character : String
  spawn : Math.Vec3
  /-- Where every player of the capture spawned, by number: player `n`'s at `n - 1`. -/
  spawns : List Math.Vec3
  commands : List CommandAt := []
  /-- The offset its connection ended at, if it left. -/
  leave : Option UInt32 := none
  deaths : List DeathAt := []
  end_ : Option MatchEndAt := none
  torn : Bool := false
  deriving DecidableEq

namespace Script

/-- `ScriptBuilder`: takes an event of the capture in. -/
def take (script : Script) (event : EventAt) : Script :=
  match event.event with
  | .command player seenOffset command =>
      if player = script.player then
        { script with commands := script.commands ++ [⟨event.offset, player, seenOffset, command⟩] }
      else script
  | .leave player =>
      if player = script.player then { script with leave := some event.offset } else script
  | .death victim killer =>
      { script with deaths := script.deaths ++ [⟨event.offset, victim, killer⟩] }
  | .matchEnd winner => { script with end_ := some ⟨event.offset, winner⟩ }

/-- `ReadScript` of a capture that reads: none for a player it does not have. -/
def read (capture : MatchCapture) (player : Player) : Option Script :=
  if player = 0 ∨ capture.joins.length < player.toNat then none
  else
    (capture.joins[player.toNat - 1]?).map fun join =>
      capture.events.foldl take
        { clientPack := capture.header.clientPack, tickRateHz := capture.header.tickRateHz, player
          character := join.character, spawn := join.spawn
          spawns := capture.joins.map (·.spawn), torn := capture.torn }

end Script

/-! ### What of a capture is whose -/

/-- A player's Command. -/
def commandOf (player : Player) (event : EventAt) : Option CommandAt :=
  match event.event with
  | .command of seenOffset command =>
      if of = player then some ⟨event.offset, of, seenOffset, command⟩ else none
  | _ => none

/-- Anyone's Death. -/
def deathOf (event : EventAt) : Option DeathAt :=
  match event.event with
  | .death victim killer => some ⟨event.offset, victim, killer⟩
  | _ => none

namespace Script
variable {script : Script} {capture : MatchCapture} {player : Player}

theorem take_eq (script : Script) (event : EventAt) :
    (script.take event).player = script.player ∧ (script.take event).spawns = script.spawns ∧
      (script.take event).tickRateHz = script.tickRateHz ∧
      (script.take event).commands = script.commands ++ (commandOf script.player event).toList ∧
      (script.take event).deaths = script.deaths ++ (deathOf event).toList := by
  obtain ⟨offset, event⟩ := event
  cases event with
  | command of seenOffset command =>
      by_cases h : of = script.player <;> simp [take, commandOf, deathOf, h]
  | leave of => by_cases h : of = script.player <;> simp [take, commandOf, deathOf, h]
  | death victim killer => simp [take, commandOf, deathOf]
  | matchEnd winner => simp [take, commandOf, deathOf]

theorem foldl_take (events : List EventAt) (script : Script) :
    (events.foldl take script).player = script.player ∧
      (events.foldl take script).spawns = script.spawns ∧
      (events.foldl take script).tickRateHz = script.tickRateHz ∧
      (events.foldl take script).commands =
        script.commands ++ events.filterMap (commandOf script.player) ∧
      (events.foldl take script).deaths = script.deaths ++ events.filterMap deathOf := by
  induction events generalizing script with
  | nil => simp
  | cons event rest ih =>
      obtain ⟨hplayer, hspawns, hrate, hcommands, hdeaths⟩ := take_eq script event
      obtain ⟨hplayer', hspawns', hrate', hcommands', hdeaths'⟩ := ih (script.take event)
      rw [List.foldl_cons]
      refine ⟨hplayer'.trans hplayer, hspawns'.trans hspawns, hrate'.trans hrate, ?_, ?_⟩
      · rw [hcommands', hcommands, hplayer, List.filterMap_cons]
        cases commandOf script.player event <;> simp
      · rw [hdeaths', hdeaths, List.filterMap_cons]
        cases deathOf event <;> simp

/-- What a player's Script holds of its capture. -/
theorem read_eq_some (h : read capture player = some script) :
    script.player = player ∧ script.spawns = capture.joins.map (·.spawn) ∧
      script.tickRateHz = capture.header.tickRateHz ∧
      script.commands = capture.events.filterMap (commandOf player) ∧
      script.deaths = capture.events.filterMap deathOf := by
  rw [read] at h
  split_ifs at h
  obtain ⟨join, -, rfl⟩ := Option.map_eq_some_iff.mp h
  obtain ⟨hplayer, hspawns, hrate, hcommands, hdeaths⟩ := foldl_take capture.events _
  exact ⟨hplayer, hspawns, hrate, hcommands, hdeaths⟩

end Script
end Augusta.Harness
