import Augusta.Harness.Correction
import Augusta.Harness.PredictionLaw
import Augusta.Lib.Log

/-! One correction is enough, once the server hands each Command in its turn.

      server   P ──c_{k+1}──▶ P₁ ──c_{k+2}──▶ P₂ …         told after each
      client   B ──c_{k+1}──▶ P₁ ──c_{k+2}──▶ P₂ …         B is P but for the fall

    Corrected at Command k, the client steps on from what it was told. From there on each side's
    state is the same steps of the same Commands, whoever is ahead. -/

namespace Augusta.Harness
open Lib (Binary32)
open Link Prediction
open Prediction.World

namespace Game

/-- The Commands the client sent, without their sequences. -/
def commands (game : Game) : List Command := game.sent.map (·.command)

/-- The Commands numbered in turn. -/
structure InTurn (game : Game) : Prop where
  sequences : ∀ (k : ℕ) (s : SequencedCommand), game.sent[k]? = some s → s.sequence.toNat = k + 1
  next : game.nextSequence.toNat = game.sent.length + 1

/-- What the queue holds and has handed: Commands the client sent, in turn. -/
structure Queued (game : Game) : Prop where
  sent : ∀ command ∈ game.queue.queued, ∃ s ∈ game.sent, command.sequence = s.sequence ∧
    alike command.command s.command = true
  ordered : game.queue.queued.Pairwise fun a b => a.sequence < b.sequence
  newer : ∀ command ∈ game.queue.queued, game.queue.acknowledged < command.sequence
  offered : ∀ command ∈ game.queue.queued, command.sequence ≤ game.queue.lastOffered
  acknowledged : game.queue.acknowledged ≤ game.queue.lastOffered
  told : game.told.Pairwise fun a b =>
    a.given.acknowledgedSequence ≤ b.given.acknowledgedSequence
  behind : ∀ told ∈ game.told, told.given.acknowledgedSequence ≤ game.queue.acknowledged
  given : ∀ told ∈ game.told, told.given.sent = true → ∃ s ∈ game.sent,
    told.given.acknowledgedSequence = s.sequence ∧ alike told.given.command s.command = true

/-- Each tick steps the player the last one left. -/
structure Played (scene : Scene) (rules : Rules) (game : Game) : Prop where
  paced : World.Paced game.player.body.state game.player.body.record.state
  numbers : game.player.rifle.Numbers
  last : ∀ told, game.told.getLast? = some told → game.player.now = told.now
  chain : ∀ (k : ℕ) (a b : Told), game.told[k]? = some a → game.told[k + 1]? = some b →
    b.now = predict scene rules a.now b.given.command
  onGrid : ∀ told ∈ game.told, Physics.onWireGrid told.now.body.state = told.now.body.state
  told : ∀ told ∈ game.told, told.now.rifle.Numbers

/-- What the client keeps of what it sent. -/
structure Predicts (scene : Scene) (rules : Rules) (game : Game) : Prop where
  kept : Kept scene game.client
  rules : game.client.rules = rules
  awaiting : game.client.awaiting <:+ game.sent.map fun s => (s.sequence, s.command)

/-- Commands numbered in turn grow. -/
theorem InTurn.numbered {game : Game} (h : InTurn game) :
    Numbered game.nextSequence.toNat (game.sent.map fun s => (s.sequence, s.command)) := by
  constructor
  · rw [List.pairwise_map, List.pairwise_iff_getElem]
    intro i j hi hj hlt
    have hfirst := h.sequences i _ (List.getElem?_eq_getElem hi)
    have hsecond := h.sequences j _ (List.getElem?_eq_getElem hj)
    simp only [hfirst, hsecond]
    omega
  · intro command hcommand
    obtain ⟨s, hs, rfl⟩ := List.mem_map.mp hcommand
    obtain ⟨k, hk⟩ := List.mem_iff_getElem?.mp hs
    have hlt := (List.getElem?_eq_some_iff.mp hk).1
    have := h.sequences k s hk
    have hnext := h.next
    simp only
    omega

section
variable {scene : Scene} {rules : Rules} {game game' : Game}

theorem inTurn_clientTick (h : InTurn game) (hfew : game.sent.length + 2 < 2 ^ 64)
    (command : Command) (heard : Option Told) : InTurn (game.clientTick scene command heard) where
  sequences := by
    intro k s hs
    rcases List.getElem?_concat_cases hs with ⟨-, hold⟩ | ⟨rfl, rfl⟩
    · exact h.sequences k s hold
    · exact h.next
  next := by
    have hnext := h.next
    simp only [clientTick, List.length_append, List.length_singleton]
    rw [UInt64.toNat_add, UInt64.toNat_one, Nat.mod_eq_of_lt (by omega), hnext]

theorem queued_clientTick (h : Queued game) (command : Command) (heard : Option Told) :
    Queued (game.clientTick scene command heard) :=
  { h with
    sent := fun other hother => by
      obtain ⟨s, hs, hsame⟩ := h.sent other hother
      exact ⟨s, List.mem_append_left _ hs, hsame⟩
    given := fun told htold hsent => by
      obtain ⟨s, hs, hsame⟩ := h.given told htold hsent
      exact ⟨s, List.mem_append_left _ hs, hsame⟩ }

theorem predicts_clientTick (h : Predicts scene rules game) (hturn : InTurn game)
    (command : Command) (heard : Option Told) :
    Predicts scene rules (game.clientTick scene command heard) := by
  have hsent : game.nextSequence ≠ 0 := by
    intro hzero
    have hnext := hturn.next
    rw [hzero] at hnext
    exact absurd hnext (by simp)
  obtain ⟨base, hreconciled⟩ := kept_onReconciliation h.kept (heard.map Told.acknowledgement)
  have hnumbered := hturn.numbered.sublist h.awaiting.sublist
  have hsuffix := Playing.awaiting_suffix scene hnumbered (heard.map Told.acknowledgement)
  have hticked := awaiting_tick (heard.map Told.acknowledgement) command hsent hreconciled.paced
  have hconcat : (game.client.onReconciliation scene (heard.map Told.acknowledgement)).awaiting ++
      [(game.nextSequence, command)] <:+
        (game.clientTick scene command heard).sent.map fun s => (s.sequence, s.command) := by
    rw [clientTick, List.map_append]
    exact List.suffix_append_self_iff.mpr (hsuffix.trans h.awaiting)
  refine ⟨kept_tick h.kept _ command hsent, ?_, ?_⟩
  · obtain ⟨-, hrules, -⟩ := tick_advances rfl hreconciled.paced command game.nextSequence
    exact hrules.trans ((onReconciliation_rules scene game.client _).trans h.rules)
  · change (game.client.tick scene command game.nextSequence _).awaiting <:+ _
    rw [hticked]
    split
    · exact (List.tail_suffix _).trans hconcat
    · exact hconcat

/-- A Command offered is queued, the oldest maybe gone for it, or leaves the queue as it was. -/
theorem queued_offer {taken : Host.CommandQueue × ℕ} (h : Queued { game with queue := taken.1 })
    {command : SequencedCommand} (hsent : ∃ s ∈ game.sent, command.sequence = s.sequence ∧
      alike command.command s.command = true) :
    Queued { game with queue := (offer Math.Vec3.length taken command).1 } := by
  have hpush (hnewer : taken.1.lastOffered < command.sequence) {kept : List SequencedCommand}
      (hkept : kept.Sublist (taken.1.queued ++ [command])) :
      Queued { game with
        queue := { taken.1 with lastOffered := command.sequence, queued := kept } } := by
    have hmem {other : SequencedCommand} (hother : other ∈ kept) :
        other ∈ taken.1.queued ∨ other = command := by
      rcases List.mem_append.mp (hkept.subset hother) with hold | hnew
      · exact .inl hold
      · exact .inr (List.mem_singleton.mp hnew)
    refine { h with sent := ?_, ordered := ?_, newer := ?_, offered := ?_, acknowledged := ?_ }
    · intro other hother
      rcases hmem hother with hold | rfl
      · exact h.sent other hold
      · exact hsent
    · refine List.Pairwise.sublist hkept (List.pairwise_append.mpr
        ⟨h.ordered, List.pairwise_singleton _ _, ?_⟩)
      intro other hother last hlast
      rw [List.mem_singleton.mp hlast]
      exact UInt64.lt_of_le_of_lt (h.offered other hother) hnewer
    · intro other hother
      rcases hmem hother with hold | rfl
      · exact h.newer other hold
      · exact UInt64.lt_of_le_of_lt h.acknowledged hnewer
    · intro other hother
      rcases hmem hother with hold | rfl
      · exact UInt64.le_of_lt (UInt64.lt_of_le_of_lt (h.offered other hold) hnewer)
      · exact UInt64.le_refl _
    · exact UInt64.le_of_lt (UInt64.lt_of_le_of_lt h.acknowledged hnewer)
  rcases offer_cases Math.Vec3.length taken command with
    ⟨hsame, -⟩ | ⟨hnewer, ⟨-, hqueued⟩ | hdropped⟩
  · rw [hsame]; exact h
  · rw [hqueued]; exact hpush hnewer (List.Sublist.refl _)
  · rw [hdropped]; exact hpush hnewer (List.tail_sublist _)

theorem queued_arrive (h : Queued game) {commands : List SequencedCommand}
    (hsent : ∀ command ∈ commands, ∃ s ∈ game.sent, command.sequence = s.sequence ∧
      alike command.command s.command = true) : Queued (game.arrive commands) := by
  have hoffers (taken : Host.CommandQueue × ℕ) (htaken : Queued { game with queue := taken.1 }) :
      Queued { game with queue := (commands.foldl (offer Math.Vec3.length) taken).1 } := by
    clear h
    induction commands generalizing taken with
    | nil => exact htaken
    | cons first rest ih =>
        exact ih (fun command hmem => hsent command (List.mem_cons_of_mem _ hmem)) _
          (queued_offer htaken (hsent first List.mem_cons_self))
  exact hoffers (game.queue, 0) h

/-- What the queue hands goes on from what it handed before. -/
theorem queued_serverTick (h : Queued game) : Queued (game.serverTick scene rules) := by
  have htold (given : Host.TickCommand) (queue : Host.CommandQueue) (now : Predicted)
      (hforward : game.queue.acknowledged ≤ queue.acknowledged)
      (hgiven : given.acknowledgedSequence = queue.acknowledged) :
      (game.told ++ [Told.mk given now]).Pairwise (fun a b =>
          a.given.acknowledgedSequence ≤ b.given.acknowledgedSequence) ∧
        ∀ told ∈ game.told ++ [Told.mk given now],
          told.given.acknowledgedSequence ≤ queue.acknowledged := by
    have hbehind (told : Told) (hmem : told ∈ game.told) :
        told.given.acknowledgedSequence ≤ queue.acknowledged :=
      UInt64.le_trans (h.behind told hmem) hforward
    constructor
    · refine List.pairwise_append.mpr ⟨h.told, List.pairwise_singleton _ _, ?_⟩
      intro told hmem last hlast
      rw [List.mem_singleton.mp hlast, hgiven]
      exact hbehind told hmem
    · intro told hmem
      rcases List.mem_append.mp hmem with hold | hnew
      · exact hbehind told hold
      · rw [List.mem_singleton.mp hnew, hgiven]
        exact UInt64.le_refl _
  cases hqueued : game.queue.queued with
  | nil =>
      obtain ⟨hsent, hgiven, hempty, hoffered, hkept⟩ := Host.CommandQueue.next_nil hqueued
      obtain ⟨hordered, hbehind⟩ := htold game.queue.next.1 game.queue.next.2
        (game.player.tick scene rules (some game.queue.next.1.command)).now
        (UInt64.le_of_eq hkept.symm) (hgiven.trans hkept.symm)
      refine ⟨?_, ?_, ?_, ?_, ?_, hordered, hbehind, ?_⟩
      all_goals simp only [serverTick, hempty, List.not_mem_nil, false_imp_iff, implies_true]
      · exact .nil
      · rw [hkept, hoffered]; exact h.acknowledged
      · intro told hmem htaken
        rcases List.mem_append.mp hmem with hold | hnew
        · exact h.given told hold htaken
        · rw [List.mem_singleton.mp hnew, hsent] at htaken
          cases htaken
  | cons first rest =>
      have hnext := Host.CommandQueue.next_cons hqueued
      have hfirst : first ∈ game.queue.queued := by rw [hqueued]; exact List.mem_cons_self
      have hrest {command : SequencedCommand} (hmem : command ∈ rest) :
          command ∈ game.queue.queued := by rw [hqueued]; exact List.mem_cons_of_mem _ hmem
      have hsorted := h.ordered
      rw [hqueued] at hsorted
      obtain ⟨hafter, hsorted⟩ := List.pairwise_cons.mp hsorted
      obtain ⟨hordered, hbehind⟩ := htold game.queue.next.1 game.queue.next.2
        (game.player.tick scene rules (some game.queue.next.1.command)).now
        (by rw [hnext]; exact UInt64.le_of_lt (h.newer first hfirst)) (by rw [hnext])
      refine ⟨?_, ?_, ?_, ?_, ?_, hordered, hbehind, ?_⟩
      all_goals simp only [serverTick, hnext]
      · exact fun command hmem => h.sent command (hrest hmem)
      · exact hsorted
      · exact hafter
      · exact fun command hmem => h.offered command (hrest hmem)
      · exact h.offered first hfirst
      · intro told hmem htaken
        rcases List.mem_append.mp hmem with hold | hnew
        · exact h.given told hold htaken
        · rw [List.mem_singleton.mp hnew]
          exact h.sent first hfirst

theorem played_serverTick (h : Played scene rules game)
    (husable : Weapon.Usable rules.rifle scene.deltaTime) :
    Played scene rules (game.serverTick scene rules) := by
  have hnow := now_tick scene rules h.paced game.queue.next.1.command
  have hrifle : (game.player.tick scene rules (some game.queue.next.1.command)).now.rifle.Numbers :=
    Weapon.numbers_step husable h.numbers game.queue.next.1.command
  refine ⟨⟨rfl, rfl⟩, hrifle, ?_, ?_, ?_, ?_⟩
  · intro told hlast
    rw [serverTick, List.getLast?_concat, Option.some.injEq] at hlast
    rw [← hlast]
    rfl
  · intro k a b ha hb
    rcases List.getElem?_concat_cases hb with ⟨hlt, hold⟩ | ⟨hk, rfl⟩
    · rcases List.getElem?_concat_cases ha with ⟨-, ha⟩ | ⟨rfl, -⟩
      · exact h.chain k a b ha hold
      · omega
    · have ha : game.told[k]? = some a := by
        rw [serverTick, List.getElem?_append_left (by omega)] at ha
        exact ha
      have hlast : game.told.getLast? = some a := by
        rw [List.getLast?_eq_getElem?, ← hk, Nat.add_sub_cancel, ha]
      rw [hnow, h.last a hlast]
  · intro told hmem
    rcases List.mem_append.mp hmem with hold | hnew
    · exact h.onGrid told hold
    · rw [List.mem_singleton.mp hnew]
      exact Physics.onWireGrid_step _ _ _ _ _ _
  · intro told hmem
    rcases List.mem_append.mp hmem with hold | hnew
    · exact h.told told hold
    · rw [List.mem_singleton.mp hnew]
      exact hrifle

/-- What every run keeps. -/
structure Fair (scene : Scene) (rules : Rules) (game : Game) : Prop where
  inTurn : InTurn game
  queued : Queued game
  played : Played scene rules game
  predicts : Predicts scene rules game

theorem fair_start (scene : Scene) (parameters : Parameters) (tickRateHz : UInt8)
    (spawn : Math.Vec3) : Fair scene (rulesOf parameters) (start parameters tickRateHz spawn) where
  inTurn := ⟨fun _ _ h => (nomatch h), rfl⟩
  queued := ⟨fun _ h => (nomatch h), .nil, fun _ h => (nomatch h), fun _ h => (nomatch h),
    UInt64.le_refl _, .nil, fun _ h => (nomatch h), fun _ h => (nomatch h)⟩
  played := ⟨⟨rfl, rfl⟩, Weapon.numbers_loaded _, fun _ h => (nomatch h),
    fun _ _ _ h => (nomatch h), fun _ h => (nomatch h), fun _ h => (nomatch h)⟩
  predicts := ⟨kept_start scene {} spawn parameters, rfl, List.suffix_rfl⟩

/-- Nothing sent is unsent, and nothing told untold. -/
structure Grows (game game' : Game) : Prop where
  sent : game.sent <+: game'.sent
  told : game.told <+: game'.told

theorem step_grows {event : GameEvent} (hstep : game.step scene rules event = some game') :
    Grows game game' := by
  cases event with
  | clientTick command heard =>
      cases heard with
      | none => cases hstep; exact ⟨List.prefix_append _ _, List.prefix_rfl⟩
      | some state =>
          obtain ⟨told, -, rfl⟩ := Option.map_eq_some_iff.mp hstep
          exact ⟨List.prefix_append _ _, List.prefix_rfl⟩
  | arrive commands =>
      simp only [step] at hstep
      split at hstep
      · cases hstep; exact ⟨List.prefix_rfl, List.prefix_rfl⟩
      · cases hstep
  | serverTick => cases hstep; exact ⟨List.prefix_rfl, List.prefix_append _ _⟩

theorem run_grows {events : List GameEvent} (hrun : game.run scene rules events = some game') :
    Grows game game' :=
  Lib.run.relation (R := Grows) (fun _ => ⟨List.prefix_rfl, List.prefix_rfl⟩)
    (fun h h' => ⟨h.sent.trans h'.sent, h.told.trans h'.told⟩) step_grows hrun

theorem fair_step (husable : Weapon.Usable rules.rifle scene.deltaTime) {event : GameEvent}
    (hstep : game.step scene rules event = some game') (hfew : game'.sent.length + 2 < 2 ^ 64)
    (h : Fair scene rules game) : Fair scene rules game' := by
  cases event with
  | clientTick command heard =>
      have hticked (told : Option Told) (hlength : game.sent.length + 2 < 2 ^ 64) :
          Fair scene rules (game.clientTick scene command told) :=
        ⟨inTurn_clientTick h.inTurn hlength command told, queued_clientTick h.queued command told,
          ⟨h.played.paced, h.played.numbers, h.played.last, h.played.chain, h.played.onGrid,
            h.played.told⟩,
          predicts_clientTick h.predicts h.inTurn command told⟩
      have hlength := (step_grows hstep).sent.length_le
      cases heard with
      | none => cases hstep; exact hticked none (by omega)
      | some state =>
          obtain ⟨told, -, rfl⟩ := Option.map_eq_some_iff.mp hstep
          exact hticked (some told) (by omega)
  | arrive commands =>
      simp only [step] at hstep
      split at hstep
      · next hall =>
          cases hstep
          simp only [List.all_eq_true, List.any_eq_true, Bool.and_eq_true, decide_eq_true_eq] at hall
          exact ⟨⟨h.inTurn.sequences, h.inTurn.next⟩, queued_arrive h.queued hall,
            ⟨h.played.paced, h.played.numbers, h.played.last, h.played.chain, h.played.onGrid,
              h.played.told⟩, ⟨h.predicts.kept, h.predicts.rules, h.predicts.awaiting⟩⟩
      · cases hstep
  | serverTick =>
      cases hstep
      exact ⟨⟨h.inTurn.sequences, h.inTurn.next⟩, queued_serverTick h.queued,
        played_serverTick h.played husable, ⟨h.predicts.kept, h.predicts.rules, h.predicts.awaiting⟩⟩

theorem fair_run (husable : Weapon.Usable rules.rifle scene.deltaTime) {events : List GameEvent}
    (hrun : game.run scene rules events = some game') (hfew : game'.sent.length + 2 < 2 ^ 64)
    (h : Fair scene rules game) : Fair scene rules game' := by
  induction events generalizing game with
  | nil => cases hrun; exact h
  | cons event rest ih =>
      rw [run, Lib.run.cons, Option.bind_eq_some_iff] at hrun
      obtain ⟨middle, hstep, hrun⟩ := hrun
      have hlength := (run_grows hrun).sent.length_le
      exact ih hrun (fair_step husable hstep (by omega) h)

/-! ### Two trails of one player -/

/-- The player after the `d` Commands that come after the first `k`. -/
def trail (scene : Scene) (rules : Rules) (source : Predicted) (game : Game) (k d : ℕ) : Predicted :=
  ((game.commands.drop k).take d).foldl (predict scene rules) source

theorem getElem?_commands {k : ℕ} {s : SequencedCommand} (h : game.sent[k]? = some s) :
    game.commands[k]? = some s.command := by
  rw [commands, List.getElem?_map, h]
  rfl

theorem trail_succ {source : Predicted} {k d : ℕ} {command : Command}
    (h : game.commands[k + d]? = some command) :
    trail scene rules source game k (d + 1) =
      predict scene rules (trail scene rules source game k d) command := by
  rw [trail, List.take_add_one, List.getElem?_drop, h, List.foldl_append]
  rfl

/-- From a state told on, each later one is a Command further along the trail. -/
theorem told_trail (h : Fair scene rules game) {early : ℕ}
    (hstreaming : Streaming (game.told.drop early)) {state : ℕ} (hrecent : early ≤ state)
    {told : Told} (htold : game.told[state]? = some told) {k : ℕ}
    (hk : told.given.acknowledgedSequence.toNat = k) (d : ℕ) {later : Told}
    (hlater : game.told[state + d]? = some later) :
    later.given.acknowledgedSequence.toNat = k + d ∧ k + d ≤ game.sent.length ∧
      later.now = trail scene rules told.now game k d := by
  have hgiven {n : ℕ} {other : Told} (hn : early ≤ n) (hother : game.told[n]? = some other) :
      ∃ s, game.sent[other.given.acknowledgedSequence.toNat - 1]? = some s ∧
        s.sequence = other.given.acknowledgedSequence ∧
        alike other.given.command s.command = true ∧
        1 ≤ other.given.acknowledgedSequence.toNat ∧
        other.given.acknowledgedSequence.toNat ≤ game.sent.length := by
    have hdrop : (game.told.drop early)[n - early]? = some other := by
      rw [List.getElem?_drop, Nat.add_sub_cancel' hn, hother]
    have hsent := hstreaming.sent other (List.mem_of_getElem? hdrop)
    obtain ⟨s, hs, hsequence, halike⟩ := h.queued.given other (List.mem_of_getElem? hother) hsent
    obtain ⟨i, hi⟩ := List.mem_iff_getElem?.mp hs
    have hnumber := h.inTurn.sequences i s hi
    have hlt := (List.getElem?_eq_some_iff.mp hi).1
    refine ⟨s, ?_, hsequence.symm, halike, ?_, ?_⟩
    · rw [hsequence, hnumber, Nat.add_sub_cancel, hi]
    · rw [hsequence, hnumber]; omega
    · rw [hsequence, hnumber]; omega
  induction d generalizing later with
  | zero =>
      obtain rfl : told = later := by
        rw [Nat.add_zero, htold, Option.some.injEq] at hlater
        exact hlater
      obtain ⟨-, -, -, -, -, hle⟩ := hgiven hrecent htold
      exact ⟨hk, by omega, by simp [trail]⟩
  | succ d ih =>
      have hlt := (List.getElem?_eq_some_iff.mp hlater).1
      obtain ⟨previous, hprevious⟩ : ∃ previous, game.told[state + d]? = some previous :=
        ⟨_, List.getElem?_eq_getElem (by omega)⟩
      obtain ⟨hsequence, -, hnow⟩ := ih hprevious
      have hnext : later.given.acknowledgedSequence.toNat =
          previous.given.acknowledgedSequence.toNat + 1 := by
        refine hstreaming.next (k := state + d - early) ?_ ?_
        · rw [List.getElem?_drop, Nat.add_sub_cancel' (by omega), hprevious]
        · rw [List.getElem?_drop, ← hlater]
          congr 1
          omega
      obtain ⟨s, hs, -, halike, -, hle⟩ := hgiven (by omega) hlater
      have hcommand : game.commands[k + d]? = some s.command := by
        refine getElem?_commands ?_
        rw [← hs, hnext, hsequence]
        rfl
      refine ⟨by omega, by omega, ?_⟩
      rw [h.played.chain (state + d) previous later hprevious hlater, hnow, trail_succ hcommand,
        predict_alike halike]

/-- The client is on the trail of a state it was told: so is all that awaits an answer. -/
structure Settled (scene : Scene) (rules : Rules) (source : Predicted) (k : ℕ) (game : Game) :
    Prop where
  later : k < game.sent.length
  now : game.client.localPlayer =
    trail scene rules source game k (game.sent.length - k)
  kept : ∀ entry ∈ game.client.history.entries, ∃ d, entry.sequence.toNat = k + (d + 1) ∧
    k + (d + 1) ≤ game.sent.length ∧ entry.predicted = trail scene rules source game k (d + 1)

/-- What was sent already is all a trail so far needs. -/
theorem trail_grows {source : Predicted} {k d : ℕ} (h : game.sent <+: game'.sent)
    (hle : k + d ≤ game.sent.length) :
    trail scene rules source game' k d = trail scene rules source game k d := by
  obtain ⟨more, hmore⟩ := h
  have hcommands : game'.commands = game.commands ++ more.map (·.command) := by
    rw [commands, ← hmore, List.map_append]
    rfl
  have hlength : game.commands.length = game.sent.length := List.length_map _
  rw [trail, trail, hcommands, List.drop_append_of_le_length (by omega),
    List.take_append_of_le_length (by rw [List.length_drop]; omega)]

/-- What was predicted after a Command is the very state the server tells of it. -/
theorem agrees (h : Fair scene rules game) {early : ℕ}
    (hstreaming : Streaming (game.told.drop early)) {state : ℕ} (hrecent : early ≤ state)
    {told : Told} (htold : game.told[state]? = some told)
    (hsettled : Settled scene rules told.now told.given.acknowledgedSequence.toNat game)
    {answer : Told} (hanswer : answer ∈ game.told) {kept : Predicted}
    (hkept : (game.client.history.acknowledge answer.given.acknowledgedSequence).1 = some kept) :
    kept = answer.now := by
  have hnumbered := h.inTurn.numbered.sublist h.predicts.awaiting.sublist
  obtain ⟨entry, hentry, hsequence, rfl⟩ :=
    (History.acknowledge_predicted (increasing_of_numbered hnumbered)).mp hkept
  obtain ⟨d, hd, -, hpredicted⟩ := hsettled.kept entry hentry
  rw [hsequence] at hd
  obtain ⟨j, hj⟩ := List.mem_iff_getElem?.mp hanswer
  rcases Nat.lt_or_ge j state with hbefore | hafter
  · -- told before, it acknowledges nothing newer
    obtain ⟨hjlt, hjget⟩ := List.getElem?_eq_some_iff.mp hj
    obtain ⟨hslt, hsget⟩ := List.getElem?_eq_some_iff.mp htold
    have hle := List.pairwise_iff_getElem.mp h.queued.told j state hjlt hslt hbefore
    rw [hjget, hsget, UInt64.le_iff_toNat_le] at hle
    omega
  · obtain ⟨e, rfl⟩ := Nat.exists_eq_add_of_le hafter
    obtain ⟨he, -, hnow⟩ := told_trail h hstreaming hrecent htold rfl e hj
    obtain rfl : e = d + 1 := by omega
    rw [hpredicted, hnow]

theorem correction_none (h : Fair scene rules game) {early : ℕ}
    (hstreaming : Streaming (game.told.drop early)) {state : ℕ} (hrecent : early ≤ state)
    {told : Told} (htold : game.told[state]? = some told)
    (hsettled : Settled scene rules told.now told.given.acknowledgedSequence.toNat game)
    {answer : Told} (hanswer : answer ∈ game.told) :
    correction game.client answer.acknowledgement = none := by
  unfold correction
  cases hkept : (game.client.history.acknowledge answer.acknowledgement.sequence).1 with
  | none => rfl
  | some kept =>
      have hsame := agrees h hstreaming hrecent htold hsettled hanswer hkept
      simp only
      rw [needsCorrection_self (h.played.onGrid answer hanswer) (h.played.told answer hanswer)
        (by rw [hsame]) (by rw [hsame]), if_neg Bool.false_ne_true]

/-- With nothing to correct, an acknowledgement only drops what it answers. -/
theorem onReconciliation_none (scene : Scene) {world : World} {heard : Option Told}
    (h : ∀ told, heard = some told → correction world told.acknowledgement = none) :
    (world.onReconciliation scene (heard.map Told.acknowledgement)).localPlayer =
        world.localPlayer ∧
      (world.onReconciliation scene (heard.map Told.acknowledgement)).history.entries ⊆
        world.history.entries := by
  cases heard with
  | none => exact ⟨rfl, List.Subset.refl _⟩
  | some told =>
      have hnone := h told rfl
      obtain ⟨n, hdrop, -⟩ := world.history.acknowledge_drop told.acknowledgement.sequence
      have hsubset : (world.history.acknowledge told.acknowledgement.sequence).2.entries ⊆
          world.history.entries := by
        rw [hdrop]
        exact List.drop_subset _ _
      rcases onReconciliation_cases scene world told.acknowledgement with
        ⟨-, hsame⟩ | ⟨predicted, hfound, ⟨-, hsame⟩ | ⟨hneeds, -⟩⟩
      · rw [Option.map_some, hsame]
        exact ⟨rfl, hsubset⟩
      · rw [Option.map_some, hsame]
        exact ⟨rfl, hsubset⟩
      · rw [correction, hfound] at hnone
        simp [hneeds] at hnone

/-- What is recorded is what was held, and the new Command's prediction. -/
theorem mem_record_of_mem {history : History} {sequence : Sequence} {command : Command}
    {predicted : Predicted} {entry : Entry}
    (h : entry ∈ (if sequence ≠ 0 then history.record sequence command predicted
      else history).entries) :
    entry ∈ history.entries ∨ entry = ⟨sequence, command, predicted⟩ := by
  split at h
  · have hmem : entry ∈ history.entries ++ [⟨sequence, command, predicted⟩] := by
      simp only [History.record] at h
      split at h
      · exact List.mem_of_mem_tail h
      · exact h
    rcases List.mem_append.mp hmem with hold | hnew
    · exact .inl hold
    · exact .inr (List.mem_singleton.mp hnew)
  · exact .inl h

theorem settled_clientTick {source : Predicted} {k : ℕ} (h : Fair scene rules game)
    (hsettled : Settled scene rules source k game) {heard : Option Told}
    (hnone : ∀ told, heard = some told → correction game.client told.acknowledgement = none)
    (command : Command) :
    Settled scene rules source k (game.clientTick scene command heard) := by
  obtain ⟨hplayer, hentries⟩ := onReconciliation_none scene hnone
  obtain ⟨base, hreconciled⟩ :=
    kept_onReconciliation h.predicts.kept (heard.map Told.acknowledgement)
  obtain ⟨hnow, -, -, -, hhistory⟩ :=
    tick_advances rfl hreconciled.paced command game.nextSequence
  have hrules := (onReconciliation_rules scene game.client
    (heard.map Told.acknowledgement)).trans h.predicts.rules
  rw [hrules, hplayer, hsettled.now] at hnow hhistory
  have hlater := hsettled.later
  have hgrows : game.sent <+: (game.clientTick scene command heard).sent := List.prefix_append _ _
  have hlength : (game.clientTick scene command heard).sent.length = game.sent.length + 1 := by
    simp [clientTick]
  have hcommand : (game.clientTick scene command heard).commands[k + (game.sent.length - k)]? =
      some command := by
    refine getElem?_commands (s := ⟨game.nextSequence, command⟩) ?_
    rw [clientTick, List.getElem?_append_right (by omega)]
    simp [show k + (game.sent.length - k) - game.sent.length = 0 by omega]
  have hstep : predict scene rules (trail scene rules source game k (game.sent.length - k))
      command = trail scene rules source (game.clientTick scene command heard) k
        (game.sent.length - k + 1) := by
    rw [trail_succ hcommand, trail_grows hgrows (by omega)]
  refine ⟨by omega, ?_, ?_⟩
  · rw [hlength, show game.sent.length + 1 - k = game.sent.length - k + 1 by omega, ← hstep]
    exact hnow
  · intro entry hentry
    change entry ∈ (game.client.tick scene command game.nextSequence
      (heard.map Told.acknowledgement)).history.entries at hentry
    rw [hhistory] at hentry
    rcases mem_record_of_mem hentry with hold | rfl
    · obtain ⟨d, hd, hle, hpredicted⟩ := hsettled.kept entry (hentries hold)
      exact ⟨d, hd, by omega, by rw [hpredicted, trail_grows hgrows hle]⟩
    · refine ⟨game.sent.length - k, ?_, by omega, hstep⟩
      rw [h.inTurn.next]
      omega

/-! ### From the correction on -/

theorem InTurn.pairs_getElem? (h : InTurn game) {k : ℕ} {pair : Sequence × Command}
    (hk : (game.sent.map fun s => (s.sequence, s.command))[k]? = some pair) :
    pair.1.toNat = k + 1 := by
  rw [List.getElem?_map, Option.map_eq_some_iff] at hk
  obtain ⟨s, hs, rfl⟩ := hk
  exact h.sequences k s hs

/-- What was sent after a Command is all but the first so many. -/
theorem InTurn.after (h : InTurn game) (sequence : Sequence) :
    ((game.sent.map fun s => (s.sequence, s.command)).filter fun sent => sequence < sent.1) =
      (game.sent.map fun s => (s.sequence, s.command)).drop sequence.toNat := by
  obtain ⟨pairs, hpairs⟩ : ∃ pairs, pairs = game.sent.map fun s => (s.sequence, s.command) :=
    ⟨_, rfl⟩
  have hnumber {k : ℕ} {pair : Sequence × Command} (hk : pairs[k]? = some pair) :
      pair.1.toNat = k + 1 := by
    rw [hpairs] at hk
    exact h.pairs_getElem? hk
  rw [← hpairs]
  conv_lhs => rw [← List.take_append_drop sequence.toNat pairs]
  rw [List.filter_append]
  have hbefore : (pairs.take sequence.toNat).filter (fun sent => sequence < sent.1) = [] := by
    refine List.filter_eq_nil_iff.mpr fun pair hpair => ?_
    obtain ⟨k, hk⟩ := List.mem_iff_getElem?.mp hpair
    rw [List.getElem?_take] at hk
    split at hk
    · have := hnumber hk
      simp only [decide_eq_true_eq, UInt64.lt_iff_toNat_lt]
      omega
    · cases hk
  have hafter : (pairs.drop sequence.toNat).filter (fun sent => sequence < sent.1) =
      pairs.drop sequence.toNat := by
    refine List.filter_eq_self.mpr fun pair hpair => ?_
    obtain ⟨k, hk⟩ := List.mem_iff_getElem?.mp hpair
    rw [List.getElem?_drop] at hk
    have := hnumber hk
    simp only [decide_eq_true_eq, UInt64.lt_iff_toNat_lt]
    omega
  rw [hbefore, hafter, List.nil_append]

/-- The state heard says exactly what was predicted, or the client puts its player there; its fall
    is what the client goes on with, or nothing falls. -/
structure Reconciles (predicted : Predicted) (told : Told) : Prop where
  state : needsCorrection told.acknowledgement predicted = true ∨
    (predicted.body.state = told.now.body.state ∧ predicted.rifle = told.now.rifle)
  fall : told.now.body.state.grounded = true ∨
    predicted.body.verticalSpeed = told.now.body.verticalSpeed

/-- What the client steps on from, having heard it. -/
theorem keptFrom_reconciles (h : Fair scene rules game) {told : Told} (hknown : told ∈ game.told)
    {predicted : Predicted}
    (hfound : (game.client.history.acknowledge told.given.acknowledgedSequence).1 = some predicted)
    (hreconciles : Reconciles predicted told) :
    ∃ base, KeptFrom scene base
        (game.client.onReconciliation scene (some told.acknowledgement)) ∧
      ∀ command, predict scene rules base command = predict scene rules told.now command := by
  have hgrid := h.played.onGrid told hknown
  obtain ⟨start, hfrom⟩ := h.predicts.kept
  rcases onReconciliation_cases scene game.client told.acknowledgement with
    ⟨hnone, -⟩ | ⟨found, hfound', ⟨hagrees, hsame⟩ | ⟨-, hsame⟩⟩
  · rw [Told.acknowledgement, hfound] at hnone
    cases hnone
  · obtain rfl : predicted = found := Option.some.inj (hfound.symm.trans hfound')
    rw [hsame]
    refine ⟨predicted, keptFrom_acknowledged hfrom hfound, ?_⟩
    obtain ⟨hbody, hrifle⟩ : predicted.body.state = told.now.body.state ∧
        predicted.rifle = told.now.rifle := by
      rcases hreconciles.state with hneeds | hexact
      · rw [hneeds] at hagrees
        cases hagrees
      · exact hexact
    have hrestored : restored told.acknowledgement predicted = predicted := by
      rw [restored, Physics.restore, Told.acknowledgement, hgrid, ← hbody, ← hrifle]
    rw [← hrestored]
    exact predict_restored scene rules hgrid hreconciles.fall
  · obtain rfl : predicted = found := Option.some.inj (hfound.symm.trans hfound')
    rw [hsame]
    exact ⟨_, keptFrom_correct told.acknowledgement predicted,
      predict_restored scene rules hgrid hreconciles.fall⟩

/-- What awaits an answer, once a Command that did is acknowledged. -/
theorem awaiting_acknowledged (h : Fair scene rules game) {told : Told} {predicted : Predicted}
    (hfound : (game.client.history.acknowledge told.given.acknowledgedSequence).1 =
      some predicted) :
    told.given.acknowledgedSequence.toNat ≤ game.sent.length ∧
      (game.client.onReconciliation scene (some told.acknowledgement)).awaiting =
        (game.sent.map fun s => (s.sequence, s.command)).drop
          told.given.acknowledgedSequence.toNat := by
  have hnumbered := h.inTurn.numbered.sublist h.predicts.awaiting.sublist
  obtain ⟨entry, hentry, hsequence, -⟩ :=
    (History.acknowledge_predicted (increasing_of_numbered hnumbered)).mp hfound
  have hheld : (entry.sequence, entry.command) ∈ game.client.awaiting :=
    List.mem_map_of_mem hentry
  constructor
  · obtain ⟨k, hk⟩ := List.mem_iff_getElem?.mp (h.predicts.awaiting.subset hheld)
    have hnumber := h.inTurn.pairs_getElem? hk
    have hlt := (List.getElem?_eq_some_iff.mp hk).1
    rw [List.length_map] at hlt
    simp only [hsequence] at hnumber
    omega
  · rw [awaiting_onReconciliation scene hnumbered, ← h.inTurn.after]
    exact Playing.filter_of_suffix h.inTurn.numbered h.predicts.awaiting
      ⟨(entry.sequence, entry.command), hheld, hsequence⟩

theorem settled_reconciles (h : Fair scene rules game) {told : Told} (hknown : told ∈ game.told)
    {predicted : Predicted}
    (hfound : (game.client.history.acknowledge told.given.acknowledgedSequence).1 = some predicted)
    (hreconciles : Reconciles predicted told) (command : Command) :
    Settled scene rules told.now told.given.acknowledgedSequence.toNat
      (game.clientTick scene command (some told)) := by
  obtain ⟨k, hk⟩ : ∃ k, k = told.given.acknowledgedSequence.toNat := ⟨_, rfl⟩
  obtain ⟨base, hfrom, hagree⟩ := keptFrom_reconciles h hknown hfound hreconciles
  obtain ⟨hle, hawaiting⟩ := awaiting_acknowledged h hfound
  rw [← hk] at hle hawaiting ⊢
  obtain ⟨world, hworld⟩ : ∃ world,
      world = game.client.onReconciliation scene (some told.acknowledgement) := ⟨_, rfl⟩
  have hrules : world.rules = rules := by
    rw [hworld]
    exact (onReconciliation_rules scene game.client _).trans h.predicts.rules
  rw [← hworld] at hfrom hawaiting
  have hcommands : world.history.entries.map (·.command) = game.commands.drop k := by
    rw [← Playing.awaiting_commands, hawaiting, List.map_drop, List.map_map]
    rfl
  obtain ⟨hnow, -, -, -, hhistory⟩ :=
    tick_advances hworld.symm hfrom.paced command game.nextSequence
  obtain ⟨hchain, hlast, -⟩ := hfrom
  rw [hrules] at hchain hnow hhistory
  rw [History.chain_last hchain, hcommands] at hlast
  have hlength : (game.clientTick scene command (some told)).sent.length =
      game.sent.length + 1 := by simp [clientTick]
  have hall : (game.clientTick scene command (some told)).commands = game.commands ++ [command] := by
    simp [commands, clientTick]
  have hcount : game.commands.length = game.sent.length := List.length_map _
  have hplayer : predict scene rules world.localPlayer command =
      trail scene rules told.now (game.clientTick scene command (some told)) k
        (game.sent.length - k + 1) := by
    have hfold : predict scene rules world.localPlayer command =
        (game.commands.drop k ++ [command]).foldl (predict scene rules) base := by
      rw [← hlast, List.foldl_append]
      rfl
    rw [hfold, foldl_agree hagree (by simp), trail, hall, List.drop_append_of_le_length (by omega),
      List.take_of_length_le]
    simp only [List.length_append, List.length_drop, List.length_singleton]
    omega
  refine ⟨by omega, ?_, ?_⟩
  · rw [hlength, show game.sent.length + 1 - k = game.sent.length - k + 1 by omega, ← hplayer]
    exact hnow
  · intro entry hentry
    change entry ∈ (game.client.tick scene command game.nextSequence
      (some told.acknowledgement)).history.entries at hentry
    rw [hhistory] at hentry
    rcases mem_record_of_mem hentry with hold | rfl
    · obtain ⟨d, hd⟩ := List.mem_iff_getElem?.mp hold
      have hlt := (List.getElem?_eq_some_iff.mp hd).1
      have hsame := congrArg List.length hcommands
      rw [List.length_map, List.length_drop] at hsame
      have hpair : (game.sent.map fun s => (s.sequence, s.command))[k + d]? =
          some (entry.sequence, entry.command) := by
        rw [← List.getElem?_drop, ← hawaiting, awaiting, List.getElem?_map, hd]
        rfl
      have hnumber := h.inTurn.pairs_getElem? hpair
      refine ⟨d, by omega, by omega, ?_⟩
      have htaken : (game.commands.drop k).take (d + 1) ≠ [] := by
        rw [Ne, List.take_eq_nil_iff, List.drop_eq_nil_iff]
        omega
      have hgrows : game.sent <+: (game.clientTick scene command (some told)).sent :=
        List.prefix_append _ _
      rw [trail_grows hgrows (by omega), trail,
        History.chain_getElem? hchain hd, hcommands, foldl_agree hagree htaken]
    · refine ⟨game.sent.length - k, ?_, by omega, hplayer⟩
      rw [h.inTurn.next]
      omega

theorem Streaming.earlier {early later : List Told} (h : early <+: later) {n : ℕ}
    (hstreaming : Streaming (later.drop n)) : Streaming (early.drop n) := by
  obtain ⟨more, rfl⟩ := h
  rw [List.drop_append] at hstreaming
  exact hstreaming.before

/-- On the trail of a state it was told, the client stays on it. -/
theorem settled_step (h : Fair scene rules game) {early : ℕ}
    (hstreaming : Streaming (game.told.drop early)) {state : ℕ} (hrecent : early ≤ state)
    {told : Told} (htold : game.told[state]? = some told)
    (hsettled : Settled scene rules told.now told.given.acknowledgedSequence.toNat game)
    {event : GameEvent} (hstep : game.step scene rules event = some game') :
    Settled scene rules told.now told.given.acknowledgedSequence.toNat game' := by
  cases event with
  | clientTick command heard =>
      cases heard with
      | none =>
          cases hstep
          exact settled_clientTick h hsettled (by rintro _ ⟨⟩) command
      | some answered =>
          obtain ⟨answer, hanswer, rfl⟩ := Option.map_eq_some_iff.mp hstep
          refine settled_clientTick h hsettled ?_ command
          rintro other heq
          obtain rfl := Option.some.inj heq
          exact correction_none h hstreaming hrecent htold hsettled (List.mem_of_getElem? hanswer)
  | arrive commands =>
      simp only [step] at hstep
      split at hstep
      · cases hstep; exact ⟨hsettled.later, hsettled.now, hsettled.kept⟩
      · cases hstep
  | serverTick => cases hstep; exact ⟨hsettled.later, hsettled.now, hsettled.kept⟩

theorem settled_run (husable : Weapon.Usable rules.rifle scene.deltaTime)
    {events : List GameEvent} (hrun : game.run scene rules events = some game')
    (hfew : game'.sent.length + 2 < 2 ^ 64) (h : Fair scene rules game) {early : ℕ}
    (hstreaming : Streaming (game'.told.drop early)) {state : ℕ} (hrecent : early ≤ state)
    {told : Told} (htold : game.told[state]? = some told)
    (hsettled : Settled scene rules told.now told.given.acknowledgedSequence.toNat game) :
    Settled scene rules told.now told.given.acknowledgedSequence.toNat game' := by
  induction events generalizing game with
  | nil => cases hrun; exact hsettled
  | cons event rest ih =>
      have hgrows := run_grows hrun
      rw [run, Lib.run.cons, Option.bind_eq_some_iff] at hrun
      obtain ⟨middle, hstep, hrun⟩ := hrun
      have hafter := run_grows hrun
      have hlength := hafter.sent.length_le
      refine ih hrun (fair_step husable hstep (by omega) h) ?_
        (settled_step h (hstreaming.earlier hgrows.told) hrecent htold hsettled hstep)
      obtain ⟨more, hmore⟩ := (step_grows hstep).told
      rw [← hmore, List.getElem?_append_left (List.getElem?_eq_some_iff.mp htold).1, htold]

/-- A rifle a Match may be played with can be stepped. -/
theorem usable_of_validate {parameters : Parameters} (hvalid : parameters.validate = .ok ())
    {deltaTime : Binary32} (hdelta : deltaTime.isFinite = true) :
    Weapon.Usable parameters.rifle deltaTime := by
  have hchecked := Parameters.checked_of_validate hvalid
  have hrate := hchecked.roundsPerMinute
  have hreload := hchecked.reloadSeconds
  simp only [Parameters.finiteAndAbove, Parameters.finiteAndAtLeast, Bool.and_eq_true]
    at hrate hreload
  refine ⟨⟨hrate.1, Binary32.positive_of_lt hrate.2⟩, Binary32.isNaN_of_isFinite hreload.1, hdelta⟩

/-- CORRECT: once the client has reconciled with a state its fall agrees with, each later state it
    is told is the very one it predicted, and it corrects itself no more. -/
theorem one_correction {scene : Scene} {parameters : Parameters} {tickRateHz : UInt8}
    {spawn : Math.Vec3} (hvalid : parameters.validate = .ok ())
    (hdelta : scene.deltaTime.isFinite = true) {before between later : List GameEvent}
    {early mid final : Game}
    (hbefore : (start parameters tickRateHz spawn).run scene (rulesOf parameters) before =
      some early)
    (hbetween : early.run scene (rulesOf parameters) between = some mid) {command : Command}
    {state : ℕ}
    (hlater : mid.run scene (rulesOf parameters) (.clientTick command (some state) :: later) =
      some final)
    (hfew : final.sent.length + 2 < 2 ^ 64)
    (hstreaming : Streaming (final.told.drop early.told.length))
    (hrecent : early.told.length ≤ state) {told : Told} (htold : mid.told[state]? = some told)
    {predicted : Predicted}
    (hfound : (mid.client.history.acknowledge told.given.acknowledgedSequence).1 = some predicted)
    (hreconciles : Reconciles predicted told) {answer : Told} (hanswer : answer ∈ final.told) :
    correction final.client answer.acknowledgement = none ∧
      ∀ kept, (final.client.history.acknowledge answer.given.acknowledgedSequence).1 = some kept →
        kept = answer.now := by
  have husable : Weapon.Usable (rulesOf parameters).rifle scene.deltaTime :=
    usable_of_validate hvalid hdelta
  have hgrows := run_grows hlater
  have hlength := hgrows.sent.length_le
  have hearly := (run_grows hbetween).sent.length_le
  have hfairEarly := fair_run husable hbefore (by omega)
    (fair_start scene parameters tickRateHz spawn)
  have hfairMid := fair_run husable hbetween (by omega) hfairEarly
  have hfairFinal := fair_run husable hlater hfew hfairMid
  rw [run, Lib.run.cons, step, htold, Option.map_some, Option.bind_some] at hlater
  have hstep : mid.step scene (rulesOf parameters) (.clientTick command (some state)) =
      some (mid.clientTick scene command (some told)) := by
    rw [step, htold, Option.map_some]
  have hafter := (run_grows hlater).sent.length_le
  have hticked := fair_step husable hstep (by omega) hfairMid
  have hsettled := settled_run husable hlater hfew hticked hstreaming hrecent htold
    (settled_reconciles hfairMid (List.mem_of_getElem? htold) hfound hreconciles command)
  have hstill : final.told[state]? = some told := by
    obtain ⟨more, hmore⟩ := hgrows.told
    rw [← hmore, List.getElem?_append_left (List.getElem?_eq_some_iff.mp htold).1, htold]
  exact ⟨correction_none hfairFinal hstreaming hrecent hstill hsettled hanswer,
    fun kept hkept => agrees hfairFinal hstreaming hrecent hstill hsettled hanswer hkept⟩

end

/-! ### A tick without a Command, and two with theirs -/

/-- What a run ends in. -/
def ended (scene : Scene) (game : Game) (events : List GameEvent) : Game :=
  (game.run scene (rulesOf {}) events).getD game

theorem run_ended {scene : Scene} {game : Game} {events : List GameEvent}
    (h : (game.run scene (rulesOf {}) events).isSome = true) :
    game.run scene (rulesOf {}) events = some (ended scene game events) := by
  obtain ⟨after, hafter⟩ := Option.isSome_iff_exists.mp h
  rw [ended, hafter, Option.getD_some]

section
variable (scene : Scene) (command : Command)

def firstTicks : List GameEvent :=
  [.clientTick command none, .arrive [⟨1, command⟩], .serverTick, .serverTick]

/-- A Command is handed, and then a tick goes without. -/
def starved : Game := ended scene (start {} 60 {}) (firstTicks command)

def nextTicks : List GameEvent :=
  [.clientTick command none, .clientTick command none, .arrive [⟨2, command⟩, ⟨3, command⟩],
    .serverTick, .serverTick]

/-- The next two are handed in turn. -/
def streamed : Game := ended scene (starved scene command) (nextTicks command)

/-- The client has heard of the first of them. -/
def reconciled : Game := ended scene (streamed scene command) [.clientTick command (some 2)]

end

def walking : Command := { movement := { direction := { z := .one } } }

theorem told_walking : ((streamed Playing.floor walking).told[2]?).isSome = true := by
  decide +kernel

theorem held_walking : ((streamed Playing.floor walking).client.history.acknowledge
    (((streamed Playing.floor walking).told[2]?).get
      told_walking).given.acknowledgedSequence).1.isSome = true := by
  decide +kernel

theorem one_correction_walking :
    ((streamed Playing.floor walking).told[2]?.map fun told =>
        (correction (streamed Playing.floor walking).client told.acknowledgement).isSome) =
      some true ∧
    ∀ answer ∈ (reconciled Playing.floor walking).told,
      correction (reconciled Playing.floor walking).client answer.acknowledgement = none := by
  refine ⟨by decide +kernel, fun answer hanswer => ?_⟩
  exact (@one_correction Playing.floor {} 60 {} rfl (by decide) (firstTicks walking)
    (nextTicks walking) [] (starved Playing.floor walking) (streamed Playing.floor walking)
    (reconciled Playing.floor walking) (run_ended (by decide +kernel))
    (run_ended (by decide +kernel)) walking 2 (run_ended (by decide +kernel)) (by decide +kernel)
    (by decide +kernel) (by decide +kernel) _ (Option.some_get told_walking).symm _
    (Option.some_get held_walking).symm ⟨.inl (by decide +kernel), .inl (by decide +kernel)⟩
    answer hanswer).1

/-- What holds of a client that has reconciled, as `Reconciled` says it has, in every run. -/
def CorrectedOnce (Reconciled : Predicted → Told → Prop) : Prop :=
  ∀ (scene : Scene) (parameters : Parameters) (tickRateHz : UInt8) (spawn : Math.Vec3)
    (before between later : List GameEvent) (early mid final : Game) (command : Command)
    (state : ℕ) (told : Told) (predicted : Predicted) (answer : Told),
    parameters.validate = .ok () → scene.deltaTime.isFinite = true →
    (start parameters tickRateHz spawn).run scene (rulesOf parameters) before = some early →
    early.run scene (rulesOf parameters) between = some mid →
    mid.run scene (rulesOf parameters) (.clientTick command (some state) :: later) = some final →
    final.sent.length + 2 < 2 ^ 64 → Streaming (final.told.drop early.told.length) →
    early.told.length ≤ state → mid.told[state]? = some told →
    (mid.client.history.acknowledge told.given.acknowledgedSequence).1 = some predicted →
    Reconciled predicted told → answer ∈ final.told →
    correction final.client answer.acknowledgement = none

/-- Nothing to stand on. -/
def airborne : Scene where
  collision := { move := fun position _ displacement _ => (position.add displacement, false)
                 fits := fun _ _ => true }
  clips := { strideLength := fun _ _ _ => .one, transitions := {} }
  deltaTime := ⟨0x3C888889⟩

/-- A slope that carries a body a millimetre along, and off its third by a metre. -/
def slope : Scene where
  collision := { move := fun position _ _ _ =>
                   ({ position with
                      x := if position.x.lt (.ofScaled 3 10) then position.x.add (.ofScaled 1 10)
                        else .one }, true)
                 fits := fun _ _ => true }
  clips := { strideLength := fun _ _ _ => .one, transitions := {} }
  deltaTime := ⟨0x3C888889⟩

/-- A fall that does not travel, and a difference too small to correct, are each carried on until
    they are corrected for another time. -/
theorem corrected_twice :
    ¬ CorrectedOnce (fun predicted told =>
        needsCorrection told.acknowledgement predicted = true) ∧
      ¬ CorrectedOnce (fun _ told => told.now.body.state.grounded = true) := by
  constructor
  · intro h
    have hnone := h airborne {} 60 {} (firstTicks {}) (nextTicks {}) [] (starved airborne {})
      (streamed airborne {}) (reconciled airborne {}) {} 2 _ _ _ rfl (by decide)
      (run_ended (by decide +kernel)) (run_ended (by decide +kernel))
      (run_ended (by decide +kernel)) (by decide +kernel) (by decide +kernel) (by decide +kernel)
      rfl rfl (by decide +kernel) (List.mem_of_getElem? (i := 3) rfl)
    exact absurd hnone (by decide +kernel)
  · intro h
    have hnone := h slope {} 60 {} (firstTicks {}) (nextTicks {}) [] (starved slope {})
      (streamed slope {}) (reconciled slope {}) {} 2 _ _ _ rfl (by decide)
      (run_ended (by decide +kernel)) (run_ended (by decide +kernel))
      (run_ended (by decide +kernel)) (by decide +kernel) (by decide +kernel) (by decide +kernel)
      rfl rfl (by decide +kernel) (List.mem_of_getElem? (i := 3) rfl)
    exact absurd hnone (by decide +kernel)

end Game
end Augusta.Harness
