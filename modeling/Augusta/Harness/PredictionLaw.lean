import Augusta.Harness.PredictedStream

/-! What a client has predicted since its player started over, and what of it awaits an answer.

      predicted   c₁ c₂ … c_s │ c_{s+1} … c_n │ c          each Command once, in order
      awaiting          … c_s │ c_{s+1} … c_n │ c          a back of it, at most kMaxHistory
                  acknowledged ┘    replayed    └ the tick's own

    So the rifle after a tick that acknowledges one of them is the server's rifle stepped by the
    Commands after that one, whether the tick corrected it or agreed with it. -/

namespace Augusta.Harness
open Lib (Binary32)
open Link Prediction
open Prediction.World
namespace Playing

/-- Of sequences that grow, those after one are the last of them. -/
theorem filter_suffix {next : ℕ} {sent : List (Sequence × Command)} (h : Numbered next sent)
    (sequence : Sequence) : (sent.filter fun command => sequence < command.1) <:+ sent := by
  induction sent with
  | nil => exact List.suffix_rfl
  | cons first rest ih =>
      obtain ⟨hfirst, hrest⟩ := List.pairwise_cons.mp h.increasing
      by_cases hnewer : sequence < first.1
      · have hall : ∀ command ∈ first :: rest, decide (sequence < command.1) = true := by
          rintro command hmem
          rcases List.mem_cons.mp hmem with rfl | hmem
          · exact decide_eq_true hnewer
          · have := hfirst command hmem
            rw [UInt64.lt_iff_toNat_lt] at hnewer
            exact decide_eq_true (UInt64.lt_iff_toNat_lt.mpr (by omega))
        exact ⟨[], List.filter_eq_self.mpr hall⟩
      · rw [List.filter_cons_of_neg (by simpa using hnewer)]
        exact (ih (h.sublist (List.sublist_cons_self _ _))).trans (List.suffix_cons _ _)

/-- A back that holds a sequence holds everything after it. -/
theorem filter_of_suffix {next : ℕ} {sent kept : List (Sequence × Command)}
    (h : Numbered next sent) (hkept : kept <:+ sent) {sequence : Sequence}
    (hheld : ∃ command ∈ kept, command.1 = sequence) :
    (kept.filter fun command => sequence < command.1) =
      sent.filter fun command => sequence < command.1 := by
  obtain ⟨front, rfl⟩ := hkept
  obtain ⟨held, hmem, rfl⟩ := hheld
  have hfront : front.filter (fun command => held.1 < command.1) = [] := by
    refine List.filter_eq_nil_iff.mpr fun command hcommand => ?_
    have := (List.pairwise_append.mp h.increasing).2.2 command hcommand held hmem
    simp only [decide_eq_true_eq, UInt64.lt_iff_toNat_lt]
    omega
  rw [List.filter_append, hfront, List.nil_append]

/-! ### What every tick keeps -/

/-- After `ticks` ticks: the chain, and the Commands that make it up. -/
structure Sound (scene : Scene) (ticks : ℕ) (p : Playing) : Prop where
  kept : Kept scene p.client.prediction
  awaiting : p.client.prediction.awaiting <:+ p.predicted
  few : p.client.prediction.awaiting.length ≤ kMaxHistory
  numbered : Numbered p.client.stream.nextSequence.toNat p.predicted
  first : 1 ≤ p.client.stream.nextSequence.toNat
  next : p.client.stream.nextSequence.toNat ≤ ticks + 1

theorem Sound.awaitingNumbered {scene : Scene} {ticks : ℕ} {p : Playing} (h : Sound scene ticks p) :
    Numbered p.client.stream.nextSequence.toNat p.client.prediction.awaiting :=
  h.numbered.sublist h.awaiting.sublist

theorem Sound.nextSequence_ne_zero {scene : Scene} {ticks : ℕ} {p : Playing}
    (h : Sound scene ticks p) : p.client.stream.nextSequence ≠ 0 := by
  intro hzero
  have hfirst := h.first
  rw [hzero] at hfirst
  exact absurd hfirst (by decide)

theorem Sound.later {scene : Scene} {ticks more : ℕ} {p : Playing} (h : Sound scene ticks p)
    (hmore : ticks ≤ more) : Sound scene more p :=
  { h with next := Nat.le_trans h.next (Nat.succ_le_succ hmore) }

theorem sound_start (scene : Scene) : Sound scene 0 {} where
  kept := ⟨_, trivial, rfl, rfl, rfl⟩
  awaiting := List.suffix_rfl
  few := Nat.zero_le _
  numbered := ⟨.nil, fun _ h => nomatch h⟩
  first := Nat.le_refl _
  next := Nat.le_refl _

section
variable {scene : Scene} {p : Playing} {view : ServerView} {command : Command}

/-- The Commands predicted so far, once a new Match has started the player over. -/
def predictedBefore (p : Playing) (view : ServerView) : List (Sequence × Command) :=
  if p.client.stream.startedMatch ≠ view.matchesStarted then [] else p.predicted

/-- A tick whose Command is predicted, in its parts. -/
theorem tick_predicts (scene : Scene) (p : Playing) (command : Command)
    (hin : view.inMatch = true) (halive : view.ownAlive = true) :
    (p.tick scene (view, command)).client.prediction =
        (p.client.startOver view).tick scene command p.client.stream.nextSequence
          (ownAcknowledgement view) ∧
      (p.tick scene (view, command)).predicted =
        predictedBefore p view ++ [(p.client.stream.nextSequence, command)] ∧
      (p.tick scene (view, command)).client.stream.nextSequence =
        p.client.stream.nextSequence + 1 := by
  simp only [tick, PredictedStream.tick, hin, halive, predictedBefore, not_true_eq_false,
    if_false, CommandStream.tick, CommandStream.queue, CommandStream.startOver, true_and, if_true]
  split <;> rfl

/-- A dead player's Command takes a sequence and is not predicted. -/
theorem tick_dead (scene : Scene) (p : Playing) (command : Command)
    (hin : view.inMatch = true) (hdead : view.ownAlive = false) :
    (p.tick scene (view, command)).client.prediction = p.client.startOver view ∧
      (p.tick scene (view, command)).predicted = predictedBefore p view ∧
      (p.tick scene (view, command)).client.stream.nextSequence =
        p.client.stream.nextSequence + 1 := by
  simp only [tick, PredictedStream.tick, hin, hdead, predictedBefore, not_true_eq_false,
    Bool.false_eq_true, not_false_eq_true, if_false, if_true, CommandStream.tick,
    CommandStream.queue, CommandStream.startOver, true_and]
  split <;> rfl

/-- The player as a tick finds it, started over or not. -/
theorem sound_startOver {ticks : ℕ} (h : Sound scene ticks p) (view : ServerView) :
    Kept scene (p.client.startOver view) ∧
      (p.client.startOver view).awaiting <:+ predictedBefore p view ∧
      (p.client.startOver view).awaiting.length ≤ kMaxHistory ∧
      Numbered p.client.stream.nextSequence.toNat (predictedBefore p view) := by
  simp only [PredictedStream.startOver, predictedBefore]
  split
  · exact ⟨kept_start _ _ _ _, List.suffix_rfl, Nat.zero_le _, .nil, fun _ h => nomatch h⟩
  · exact ⟨h.kept, h.awaiting, h.few, h.numbered⟩

theorem length_concat_le {sent : List (Sequence × Command)} {last : Sequence × Command}
    (h : sent.length ≤ kMaxHistory) :
    (if kMaxHistory < (sent ++ [last]).length then (sent ++ [last]).tail
      else sent ++ [last]).length ≤ kMaxHistory := by
  split <;> simp_all

/-- What an acknowledgement leaves awaiting is a back of what was. -/
theorem awaiting_suffix (scene : Scene) {world : World} {next : ℕ} (h : Numbered next world.awaiting)
    (acknowledgement : Option Acknowledgement) :
    (world.onReconciliation scene acknowledgement).awaiting <:+ world.awaiting := by
  cases acknowledgement with
  | none => exact List.suffix_rfl
  | some acknowledgement =>
      rw [awaiting_onReconciliation scene h]
      exact filter_suffix h acknowledgement.sequence

theorem sound_tick {ticks : ℕ} (h : Sound scene ticks p) (hfew : ticks + 2 < 2 ^ 64)
    (view : ServerView) (command : Command) :
    Sound scene (ticks + 1) (p.tick scene (view, command)) := by
  have hnext := h.next
  have hsucc : (p.client.stream.nextSequence + 1).toNat =
      p.client.stream.nextSequence.toNat + 1 := by
    rw [UInt64.toNat_add]
    exact Nat.mod_eq_of_lt (by simp only [UInt64.toNat_one]; omega)
  obtain ⟨hkept, hawaiting, hlength, hnumbered⟩ := sound_startOver h view
  by_cases hin : view.inMatch = true
  swap
  · have hsame : p.tick scene (view, command) = p := by
      simp [tick, PredictedStream.tick, hin]
    rw [hsame]
    exact h.later (Nat.le_succ _)
  by_cases halive : view.ownAlive = true
  · obtain ⟨hprediction, hpredicted, hsequence⟩ :=
      tick_predicts scene p command hin halive
    have hsent := h.nextSequence_ne_zero
    have hsuffix := awaiting_suffix scene (hnumbered.sublist hawaiting.sublist)
      (ownAcknowledgement view)
    obtain ⟨base, hreconciled⟩ := kept_onReconciliation hkept (ownAcknowledgement view)
    have hticked := awaiting_tick (ownAcknowledgement view) command hsent hreconciled.paced
    have hconcat : ((p.client.startOver view).onReconciliation scene
        (ownAcknowledgement view)).awaiting ++ [(p.client.stream.nextSequence, command)] <:+
          predictedBefore p view ++ [(p.client.stream.nextSequence, command)] :=
      List.suffix_append_self_iff.mpr (hsuffix.trans hawaiting)
    refine ⟨?_, ?_, ?_, ?_, ?_, ?_⟩
    · rw [hprediction]; exact kept_tick hkept _ _ hsent
    · rw [hprediction, hpredicted, hticked]
      split
      · exact (List.tail_suffix _).trans hconcat
      · exact hconcat
    · rw [hprediction, hticked]
      exact length_concat_le (Nat.le_trans hsuffix.length_le hlength)
    · rw [hpredicted, hsequence, hsucc]; exact hnumbered.concat rfl command
    · rw [hsequence, hsucc]; omega
    · rw [hsequence, hsucc]; omega
  · obtain ⟨hprediction, hpredicted, hsequence⟩ :=
      tick_dead scene p command hin (Bool.eq_false_iff.mpr halive)
    refine ⟨?_, ?_, ?_, ?_, ?_, ?_⟩
    · rw [hprediction]; exact hkept
    · rw [hprediction, hpredicted]; exact hawaiting
    · rw [hprediction]; exact hlength
    · rw [hpredicted, hsequence, hsucc]
      exact ⟨hnumbered.increasing, fun sent hsent => Nat.lt_succ_of_lt (hnumbered.below sent hsent)⟩
    · rw [hsequence, hsucc]; omega
    · rw [hsequence, hsucc]; omega

theorem sound_run {ticks : ℕ} (inputs : List (ServerView × Command)) (h : Sound scene ticks p)
    (hfew : ticks + inputs.length + 1 < 2 ^ 64) :
    Sound scene (ticks + inputs.length) (inputs.foldl (tick scene) p) := by
  induction inputs generalizing p ticks with
  | nil => exact h
  | cons input rest ih =>
      rw [List.length_cons] at hfew ⊢
      have hrest := ih (sound_tick h (by omega) input.1 input.2) (by omega)
      rwa [Nat.add_assoc, Nat.add_comm 1] at hrest

/-! ### An acknowledgement is acted on once -/

/-- A sequence that is behind every Command awaiting an answer, and every one to come. -/
structure Past (sequence : Sequence) (p : Playing) : Prop where
  old : ∀ sent ∈ p.client.prediction.awaiting, sequence < sent.1
  passed : sequence < p.client.stream.nextSequence

/-- A tick awaits an answer to nothing it did not before but its own Command. -/
theorem mem_awaiting_tick {ticks : ℕ} (h : Sound scene ticks p) (view : ServerView)
    (command : Command) {sent : Sequence × Command}
    (hsent : sent ∈ (p.tick scene (view, command)).client.prediction.awaiting) :
    sent ∈ p.client.prediction.awaiting ∨ sent = (p.client.stream.nextSequence, command) := by
  obtain ⟨hkept, hawaiting, -, hnumbered⟩ := sound_startOver h view
  have hstarted : (p.client.startOver view).awaiting ⊆ p.client.prediction.awaiting := by
    rw [PredictedStream.startOver]
    split
    · exact List.nil_subset _
    · exact List.Subset.refl _
  by_cases hin : view.inMatch = true
  swap
  · have hsame : p.tick scene (view, command) = p := by
      simp [tick, PredictedStream.tick, hin]
    rw [hsame] at hsent
    exact .inl hsent
  by_cases halive : view.ownAlive = true
  · obtain ⟨hprediction, -, -⟩ :=
      tick_predicts scene p command hin halive
    obtain ⟨base, hreconciled⟩ := kept_onReconciliation hkept (ownAcknowledgement view)
    rw [hprediction, awaiting_tick (ownAcknowledgement view) command h.nextSequence_ne_zero
      hreconciled.paced] at hsent
    have hmem : sent ∈ ((p.client.startOver view).onReconciliation scene
        (ownAcknowledgement view)).awaiting ++ [(p.client.stream.nextSequence, command)] := by
      split at hsent
      · exact List.mem_of_mem_tail hsent
      · exact hsent
    rcases List.mem_append.mp hmem with hold | hnew
    · have hsuffix := awaiting_suffix scene (hnumbered.sublist hawaiting.sublist)
        (ownAcknowledgement view)
      exact .inl (hstarted (hsuffix.subset hold))
    · exact .inr (List.mem_singleton.mp hnew)
  · obtain ⟨hprediction, -, -⟩ :=
      tick_dead scene p command hin (Bool.eq_false_iff.mpr halive)
    rw [hprediction] at hsent
    exact .inl (hstarted hsent)

theorem nextSequence_tick {ticks : ℕ} (h : Sound scene ticks p) (hfew : ticks + 2 < 2 ^ 64)
    (view : ServerView) (command : Command) :
    p.client.stream.nextSequence ≤ (p.tick scene (view, command)).client.stream.nextSequence := by
  have hnext := h.next
  have hgrows : p.client.stream.nextSequence ≤ p.client.stream.nextSequence + 1 := by
    rw [UInt64.le_iff_toNat_le, UInt64.toNat_add, UInt64.toNat_one,
      Nat.mod_eq_of_lt (by omega)]
    exact Nat.le_succ _
  by_cases hin : view.inMatch = true
  · by_cases halive : view.ownAlive = true
    · rw [(tick_predicts scene p command hin halive).2.2]; exact hgrows
    · rw [(tick_dead scene p command hin (Bool.eq_false_iff.mpr halive)).2.2]; exact hgrows
  · simp [tick, PredictedStream.tick, hin]

theorem past_tick {ticks : ℕ} {sequence : Sequence} (h : Past sequence p)
    (hsound : Sound scene ticks p) (hfew : ticks + 2 < 2 ^ 64) (view : ServerView)
    (command : Command) : Past sequence (p.tick scene (view, command)) where
  old := by
    intro sent hsent
    rcases mem_awaiting_tick hsound view command hsent with hold | rfl
    · exact h.old sent hold
    · exact h.passed
  passed := UInt64.lt_of_lt_of_le h.passed (nextSequence_tick hsound hfew view command)

theorem past_run {ticks : ℕ} {sequence : Sequence} (inputs : List (ServerView × Command))
    (h : Past sequence p) (hsound : Sound scene ticks p)
    (hfew : ticks + inputs.length + 1 < 2 ^ 64) :
    Past sequence (inputs.foldl (tick scene) p) := by
  induction inputs generalizing p ticks with
  | nil => exact h
  | cons input rest ih =>
      rw [List.length_cons] at hfew
      exact ih (past_tick h hsound (by omega) input.1 input.2)
        (sound_tick hsound (by omega) input.1 input.2) (by omega)

/-! ### The rifle -/

/-- What a chain of predictions does to the rifle is the rifle's own steps. -/
theorem foldl_predict_rifle (scene : Scene) (rules : Rules) (now : Predicted)
    (commands : List Command) : (commands.foldl (predict scene rules) now).rifle =
      Weapon.run rules.rifle scene.deltaTime now.rifle commands := by
  induction commands generalizing now with
  | nil => rfl
  | cons command rest ih => exact ih (predict scene rules now command)

theorem awaiting_commands (world : World) :
    world.awaiting.map (·.2) = world.history.entries.map (·.command) := by
  simp [awaiting]

/-- Acknowledging a Command that is held leaves a chain from a rifle the same as the server's. -/
theorem reconciled_from {world : World} {next : ℕ} (hkept : Kept scene world)
    (hnumbered : Numbered next world.awaiting) {acknowledgement : Acknowledgement}
    (hheld : ∃ sent ∈ world.awaiting, sent.1 = acknowledgement.sequence) :
    ∃ base, KeptFrom scene base (world.onReconciliation scene (some acknowledgement)) ∧
      base.rifle.Same acknowledgement.rifle := by
  obtain ⟨start, hfrom⟩ := hkept
  have hincreasing := increasing_of_numbered hnumbered
  rcases onReconciliation_cases scene world acknowledgement with
    ⟨hnone, -⟩ | ⟨predicted, hfound, ⟨hagrees, hsame⟩ | ⟨-, hsame⟩⟩
  · -- what is held is found
    obtain ⟨sent, hsent, hsequence⟩ := hheld
    obtain ⟨entry, hentry, rfl⟩ := List.mem_map.mp hsent
    have hfound := (History.acknowledge_predicted hincreasing).mpr ⟨entry, hentry, hsequence, rfl⟩
    rw [hfound] at hnone
    cases hnone
  · rw [hsame]
    refine ⟨predicted, keptFrom_acknowledged hfrom hfound, ?_⟩
    simp only [needsCorrection, Bool.or_eq_false_iff, Bool.not_eq_false'] at hagrees
    exact (Weapon.State.same_of_eq hagrees.2).symm
  · rw [hsame]
    exact ⟨_, keptFrom_correct acknowledgement predicted, .refl _⟩

/-- The rifle and each prediction kept, from a rifle the server told, by the Commands `after` it. -/
structure Rederived (scene : Scene) (world : World) (told : Weapon.State)
    (after : List (Sequence × Command)) : Prop where
  awaiting : world.awaiting = after
  rifle : world.localPlayer.rifle.Same
    (Weapon.run world.rules.rifle scene.deltaTime told (after.map (·.2)))
  shown : world.tickState.rifle = world.localPlayer.rifle
  chain : ∀ (k : ℕ) (entry : Entry), world.history.entries[k]? = some entry →
    entry.predicted.rifle.Same
      (Weapon.run world.rules.rifle scene.deltaTime told ((after.map (·.2)).take (k + 1)))

theorem rederived_tick {world : World} {next : ℕ} (hkept : Kept scene world)
    (hnumbered : Numbered next world.awaiting) (hfew : world.awaiting.length ≤ kMaxHistory)
    {acknowledgement : Acknowledgement}
    (hheld : ∃ sent ∈ world.awaiting, sent.1 = acknowledgement.sequence) (command : Command)
    {sequence : Sequence} (hsent : sequence ≠ 0) :
    Rederived scene (world.tick scene command sequence (some acknowledgement))
      acknowledgement.rifle
      ((world.awaiting.filter fun sent => acknowledgement.sequence < sent.1) ++
        [(sequence, command)]) := by
  obtain ⟨base, hfrom, hrifle⟩ := reconciled_from hkept hnumbered hheld
  have hdropped := awaiting_onReconciliation scene hnumbered acknowledgement
  have hroom : (world.onReconciliation scene (some acknowledgement)).history.entries.length <
      kMaxHistory := by
    obtain ⟨sent, hmem, hsame⟩ := hheld
    have hlength := congrArg List.length hdropped
    have hfewer : (world.awaiting.filter fun sent => acknowledgement.sequence < sent.1).length <
        world.awaiting.length := by
      refine List.length_filter_lt_length_iff_exists.mpr ⟨sent, hmem, ?_⟩
      rw [hsame, decide_eq_true_eq]
      exact UInt64.lt_irrefl _
    rw [World.awaiting, List.length_map] at hlength
    omega
  obtain ⟨hticked, hawaiting⟩ := keptFrom_tick rfl hfrom hroom command hsent
  rw [hdropped] at hawaiting
  have hcommands := awaiting_commands (world.tick scene command sequence (some acknowledgement))
  rw [hawaiting] at hcommands
  have hrun (commands : List Command) := Weapon.run_same
    (world.tick scene command sequence (some acknowledgement)).rules.rifle scene.deltaTime commands
    hrifle
  refine ⟨hawaiting, ?_, ?_, ?_⟩
  · rw [hcommands, ← hticked.last, History.chain_last hticked.chain, foldl_predict_rifle]
    exact hrun _
  · obtain ⟨hplayer, -, -, hshown, -⟩ := tick_advances rfl hfrom.paced command sequence
    rw [hplayer, hshown]
  · intro k entry hk
    rw [hcommands, History.chain_getElem? hticked.chain hk, foldl_predict_rifle]
    exact hrun _

end

/-- CORRECT: what awaits an answer grows by sequence and is no more than is kept. Acknowledging a
    sequence drops exactly the Commands up to it; one older than all of them changes nothing. After
    a tick that acknowledges a Command held, the rifle is the server's stepped by exactly the
    Commands after that one, and so is each prediction kept; and the sequence is old from then on. -/
theorem reconciliation_law (scene : Scene) {inputs : List (ServerView × Command)}
    (hfew : inputs.length + 2 < 2 ^ 64) :
    let p := run scene inputs
    let world := p.client.prediction
    (History.Increasing world.history.entries ∧ world.history.entries.length ≤ kMaxHistory) ∧
    (∀ sequence, (world.history.acknowledge sequence).2.entries =
      world.history.entries.filter fun entry => sequence < entry.sequence) ∧
    (∀ command sequence acknowledgement,
      (∀ sent ∈ world.awaiting, acknowledgement.sequence < sent.1) →
        world.tick scene command sequence (some acknowledgement) =
          world.tick scene command sequence none) ∧
    ∀ (view : ServerView) (command : Command) (acknowledgement : Acknowledgement),
      view.inMatch = true → view.ownAlive = true →
      p.client.stream.startedMatch = view.matchesStarted →
      ownAcknowledgement view = some acknowledgement →
      (∃ sent ∈ world.awaiting, sent.1 = acknowledgement.sequence) →
      Rederived scene (p.tick scene (view, command)).client.prediction acknowledgement.rifle
        ((p.predicted ++ [(p.client.stream.nextSequence, command)]).filter
          fun sent => acknowledgement.sequence < sent.1) ∧
      ∀ later : List (ServerView × Command), inputs.length + later.length + 3 < 2 ^ 64 →
        ∀ sent ∈ (later.foldl (tick scene)
            (p.tick scene (view, command))).client.prediction.awaiting,
          acknowledgement.sequence < sent.1 := by
  intro p world
  have hsound : Sound scene inputs.length p := by
    have := sound_run inputs (sound_start scene) (by omega)
    rwa [Nat.zero_add] at this
  have hnumbered := hsound.awaitingNumbered
  have hlength : world.history.entries.length ≤ kMaxHistory := by
    have := hsound.few
    rwa [World.awaiting, List.length_map] at this
  refine ⟨⟨increasing_of_numbered hnumbered, hlength⟩, ?_, ?_, ?_⟩
  · exact History.acknowledge_entries (increasing_of_numbered hnumbered)
  · intro command sequence acknowledgement hold
    rw [World.tick, onReconciliation_old hold]
    rfl
  · intro view command acknowledgement hin halive hsame hacknowledged hheld
    obtain ⟨hprediction, -, -⟩ :=
      tick_predicts scene p command hin halive
    have hstarted : p.client.startOver view = world := by
      rw [PredictedStream.startOver, if_neg (not_not.mpr hsame)]
    have hsent : p.client.stream.nextSequence ≠ 0 := hsound.nextSequence_ne_zero
    obtain ⟨sent, hmem, hsentSequence⟩ := hheld
    have hbelow := hnumbered.below sent hmem
    rw [hsentSequence] at hbelow
    have hpassed : acknowledgement.sequence < p.client.stream.nextSequence :=
      UInt64.lt_iff_toNat_lt.mpr hbelow
    have hafter := filter_of_suffix hsound.numbered hsound.awaiting ⟨sent, hmem, hsentSequence⟩
    have hrederived := rederived_tick hsound.kept hnumbered hsound.few
      ⟨sent, hmem, hsentSequence⟩ command hsent
    have hnew : [(p.client.stream.nextSequence, command)].filter
        (fun sent => acknowledgement.sequence < sent.1) =
          [(p.client.stream.nextSequence, command)] := by simp [hpassed]
    rw [hprediction, hstarted, hacknowledged, List.filter_append, hnew, ← hafter]
    refine ⟨hrederived, ?_⟩
    intro later hlater
    have hticked : Sound scene (inputs.length + 1) (p.tick scene (view, command)) :=
      sound_tick hsound (by omega) view command
    have hpast : Past acknowledgement.sequence (p.tick scene (view, command)) := by
      constructor
      · rw [hprediction, hstarted, hacknowledged, hrederived.awaiting]
        intro other hother
        rcases List.mem_append.mp hother with hkept | hnew
        · exact of_decide_eq_true (List.mem_filter.mp hkept).2
        · rw [List.mem_singleton.mp hnew]; exact hpassed
      · exact UInt64.lt_of_lt_of_le hpassed (nextSequence_tick hsound (by omega) view command)
    exact (past_run later hpast hticked (by omega)).old

/-- A floor at height 0 without end, a body's weight away from nothing else. -/
def floor : Scene where
  collision :=
    { move := fun position _ displacement _ =>
        let moved := position.add displacement
        ({ moved with y := .zero }, true)
      fits := fun _ _ => true }
  clips := { strideLength := fun _ _ _ => .one, transitions := {} }
  -- a sixtieth of a second
  deltaTime := ⟨0x3C888889⟩

/-- What a client in its first match sees, whose server has handed its first Command. -/
def playingView : ServerView where
  accepted := some { session := 5, tickRateHz := 60, character := "scout" }
  matchStart := some { players := [{ session := 5, entity := 1, character := "scout" }] }
  matchesStarted := 1
  inMatch := true
  authoritative := some
    { tick := 3, acknowledgedSequence := 1, bodies := [{ entity := 1 }], health := .one }

def firing : Command where fire := true

/-- Three shots fired before the server's first answer. -/
def threeTicks : List (ServerView × Command) :=
  List.replicate 3 ({ playingView with authoritative := none }, firing)

theorem reconciliation_law_threeTicks : Rederived floor
    ((run floor threeTicks).tick floor (playingView, firing)).client.prediction {}
    [(2, firing), (3, firing), (4, firing)] := by
  refine ((@reconciliation_law floor threeTicks (by decide)).2.2.2 playingView firing
    { sequence := 1 } rfl (by decide) rfl rfl ⟨(1, firing), ?_, rfl⟩).1
  exact List.mem_of_getElem? (i := 0) rfl

end Playing
end Augusta.Harness
