import Augusta.Lib.Log
import Augusta.Simulation.World
import Mathlib.Tactic.SplitIfs

/-! What a tick takes off its players' health, hit by hit.

      health ──hit──▶ health₁ ──hit──▶ 0 ──hit──▶ 0
                                 └ the one that reached zero: a death

    A player lives as long as its health is above zero: the hit that takes it there is the one that
    says so, and takes the body with it. -/

namespace Augusta.Simulation
open Lib (Binary32 Table)

/-- A player's hits of one tick, from the health they found it at to the one they left it at. -/
def Ledger : Binary32 → List Hit → Binary32 → Prop
  | health, [], after => health = after
  | health, hit :: rest, after =>
      hit.health = Binary32.less health hit.damage ∧
        hit.reachedZero = (Binary32.zero.lt health && hit.health.le .zero) ∧
        Ledger hit.health rest after

/-- What a death says of the hit it is by, and a hit of the death it is. -/
def Death.blow (death : Death) : EntityId × EntityId × BodyPart :=
  (death.victim, death.killer, death.part)

def Hit.blow (hit : Hit) : EntityId × EntityId × BodyPart := (hit.target, hit.shooter, hit.part)

/-- A player's health is from none to what it started with, and none once it is dead. -/
structure Player.Sound (start : Binary32) (player : Player) : Prop where
  health : player.health.Nonnegative
  most : player.health.key ≤ start.key
  living : player.living.isSome = true ↔ 0 < player.health.key

/-- No hit heals. -/
def Harms (damage : BodyPart.Damage) : Prop := ∀ part, (damageFor damage part).Nonnegative

/-! ### One player's hits -/

/-- What some hits on a player made of it. -/
structure Wounds (start : Binary32) (entity : EntityId) (player : Player) (wounded : Wounded) :
    Prop where
  sound : wounded.player.Sound start
  ledger : Ledger player.health wounded.hits wounded.player.health
  falls : wounded.player.health.key ≤ player.health.key
  blows : wounded.deaths.map Death.blow = (wounded.hits.filter (·.reachedZero)).map Hit.blow
  targets : ∀ hit ∈ wounded.hits, hit.target = entity
  died : (wounded.deaths = [] ∧
      wounded.player.living.isSome = player.living.isSome) ∨
    ∃ death, wounded.deaths = [death] ∧ player.living.isSome = true ∧
      wounded.player.living.isSome = false

section
variable {start : Binary32} {entity : EntityId} {damage : BodyPart.Damage} {player : Player}

theorem lt_zero_iff {health : Binary32} (h : health.Nonnegative) :
    Binary32.zero.lt health = true ↔ 0 < health.key := by
  have hzero : Binary32.zero.isNaN = false := rfl
  have hkey : Binary32.zero.key = 0 := rfl
  simp [Binary32.lt, hzero, hkey, Binary32.isNaN_of_isFinite h.1]

theorem le_zero_iff {health : Binary32} (h : health.Nonnegative) :
    health.le .zero = true ↔ ¬ 0 < health.key := by
  have hzero : Binary32.zero.isNaN = false := rfl
  have hkey : Binary32.zero.key = 0 := rfl
  simp [Binary32.le, hzero, hkey, Binary32.isNaN_of_isFinite h.1]

/-- What is said of a hit does not depend on what was said before it. -/
theorem takeHit_append (hits : List Hit) (deaths : List Death) (hit : PlayerHit) :
    Wounded.takeHit damage ⟨player, hits, deaths⟩ hit =
      ⟨(Wounded.takeHit damage ⟨player, [], []⟩ hit).player,
        hits ++ (Wounded.takeHit damage ⟨player, [], []⟩ hit).hits,
        deaths ++ (Wounded.takeHit damage ⟨player, [], []⟩ hit).deaths⟩ := rfl

/-- One hit: it kills the player it finds alive and leaves without health, and no other. -/
theorem wounds_takeHit (hharms : Harms damage) (hsound : player.Sound start) {hit : PlayerHit}
    (htarget : hit.target = entity) :
    Wounds start entity player (Wounded.takeHit damage ⟨player, [], []⟩ hit) := by
  obtain ⟨hhealth, hmost, hliving⟩ := hsound
  obtain ⟨hless, hle⟩ := Binary32.less_nonnegative hhealth (hharms hit.part)
  have hbefore := lt_zero_iff hhealth
  have hafter := le_zero_iff hless
  by_cases hkilled : (Binary32.zero.lt player.health &&
      (Binary32.less player.health (damageFor damage hit.part)).le .zero) = true
  · obtain ⟨halive, hnone⟩ := Bool.and_eq_true_iff.mp hkilled
    refine ⟨⟨hless, Int.le_trans hle hmost, ?_⟩, ⟨rfl, rfl, rfl⟩, hle, ?_, ?_,
      .inr ⟨⟨hit.target, hit.shooter, hit.yaw, hit.pitch, hit.part⟩, ?_, ?_, ?_⟩⟩
    · simp [Wounded.takeHit, hkilled, hafter.mp hnone]
    · simp [Wounded.takeHit, hkilled, Death.blow, Hit.blow]
    · simp [Wounded.takeHit, htarget]
    · simp [Wounded.takeHit, hkilled]
    · exact hliving.mpr (hbefore.mp halive)
    · simp [Wounded.takeHit, hkilled]
  · rw [Bool.not_eq_true] at hkilled
    have hkept : 0 < player.health.key ↔
        0 < (Binary32.less player.health (damageFor damage hit.part)).key := by
      rw [Bool.and_eq_false_iff] at hkilled
      constructor
      · intro halive
        rcases hkilled with hdead | hleft
        · rw [hbefore.mpr halive] at hdead; cases hdead
        · by_contra hnone
          rw [hafter.mpr hnone] at hleft; cases hleft
      · omega
    refine ⟨⟨hless, Int.le_trans hle hmost, ?_⟩, ⟨rfl, rfl, rfl⟩, hle, ?_, ?_, .inl ⟨?_, ?_⟩⟩
    · simp only [Wounded.takeHit, hkilled, Bool.false_eq_true, if_false, hliving, hkept]
    · simp [Wounded.takeHit, hkilled]
    · simp [Wounded.takeHit, htarget]
    · simp [Wounded.takeHit, hkilled]
    · simp [Wounded.takeHit, hkilled]

theorem ledger_append {health middle after : Binary32} {hits more : List Hit}
    (h : Ledger health hits middle) (hmore : Ledger middle more after) :
    Ledger health (hits ++ more) after := by
  induction hits generalizing health with
  | nil =>
      obtain rfl : health = middle := h
      exact hmore
  | cons hit rest ih => exact ⟨h.1, h.2.1, ih h.2.2⟩

/-- Some hits, and then some more. -/
theorem Wounds.append {first more : Wounded} (h : Wounds start entity player first)
    (hmore : Wounds start entity first.player more) :
    Wounds start entity player
      ⟨more.player, first.hits ++ more.hits, first.deaths ++ more.deaths⟩ where
  sound := hmore.sound
  ledger := ledger_append h.ledger hmore.ledger
  falls := Int.le_trans hmore.falls h.falls
  blows := by simp [h.blows, hmore.blows]
  targets := by
    intro hit hmem
    rcases List.mem_append.mp hmem with hold | hnew
    · exact h.targets hit hold
    · exact hmore.targets hit hnew
  died := by
    rcases h.died with ⟨hdeaths, hliving⟩ | ⟨death, hdeaths, hliving, hdead⟩
    · rw [hdeaths, List.nil_append, ← hliving]
      exact hmore.died
    · rcases hmore.died with ⟨hnone, hstill⟩ | ⟨-, -, halive, -⟩
      · exact .inr ⟨death, by rw [hdeaths, hnone, List.append_nil], hliving, hstill.trans hdead⟩
      · rw [hdead] at halive; cases halive

theorem wounds_none (hsound : player.Sound start) :
    Wounds start entity player ⟨player, [], []⟩ where
  sound := hsound
  ledger := rfl
  falls := Int.le_refl _
  blows := rfl
  targets := by rintro hit ⟨⟩
  died := .inl ⟨rfl, rfl⟩

theorem foldl_takeHit (hits : List PlayerHit) (said : List Hit) (deaths : List Death) :
    hits.foldl (Wounded.takeHit damage) ⟨player, said, deaths⟩ =
      ⟨(hits.foldl (Wounded.takeHit damage) ⟨player, [], []⟩).player,
        said ++ (hits.foldl (Wounded.takeHit damage) ⟨player, [], []⟩).hits,
        deaths ++ (hits.foldl (Wounded.takeHit damage) ⟨player, [], []⟩).deaths⟩ := by
  induction hits generalizing player said deaths with
  | nil => simp
  | cons hit rest ih =>
      rw [List.foldl_cons, List.foldl_cons, takeHit_append, ih,
        ih (Wounded.takeHit damage ⟨player, [], []⟩ hit).hits, List.append_assoc, List.append_assoc]

theorem wounds_takeHits (hharms : Harms damage) (hsound : player.Sound start)
    {hits : List PlayerHit} (htargets : ∀ hit ∈ hits, hit.target = entity) :
    Wounds start entity player (hits.foldl (Wounded.takeHit damage) ⟨player, [], []⟩) := by
  induction hits generalizing player with
  | nil => exact wounds_none hsound
  | cons hit rest ih =>
      have hfirst := wounds_takeHit hharms hsound (htargets hit List.mem_cons_self)
      rw [List.foldl_cons, foldl_takeHit rest]
      exact hfirst.append (ih hfirst.sound fun other hother =>
        htargets other (List.mem_cons_of_mem _ hother))

/-- Damage of one player. -/
theorem wounds_onDamage (hharms : Harms damage) (hsound : player.Sound start)
    (hits : List PlayerHit) : Wounds start entity player (player.onDamage damage hits entity) :=
  wounds_takeHits hharms hsound fun _ hmem => of_decide_eq_true (List.mem_filter.mp hmem).2

end
end Augusta.Simulation
