import Augusta.Prediction.Prediction

/-! What a prediction World keeps is a chain: each prediction is the one before it stepped by its own
    Command, and the player as it is now is the last of them.

      base ──c₁──▶ p₁ ──c₂──▶ p₂ ── … ──cₙ──▶ pₙ = localPlayer

    Dropping a front of the chain leaves one that starts from what was dropped last; a correction
    starts it over from the server's state. -/

namespace Augusta.Prediction
open Lib (Binary32)

namespace History
variable {step : Predicted → Command → Predicted}

theorem lastPredicted_concat (base : Predicted) (entries : List Entry) (entry : Entry) :
    lastPredicted base (entries ++ [entry]) = entry.predicted := by
  simp [lastPredicted]

theorem lastPredicted_cons (base : Predicted) (first : Entry) (rest : List Entry) :
    lastPredicted base (first :: rest) = lastPredicted first.predicted rest := by
  cases rest with
  | nil => rfl
  | cons second rest => rfl

theorem chain_concat {base : Predicted} {entries : List Entry} {entry : Entry} :
    Chain step base (entries ++ [entry]) ↔
      Chain step base entries ∧
        entry.predicted = step (lastPredicted base entries) entry.command := by
  induction entries generalizing base with
  | nil => simp [Chain, lastPredicted]
  | cons first rest ih =>
      simp only [List.cons_append, Chain, ih, and_assoc, lastPredicted_cons]

/-- What is dropped last starts the rest. -/
theorem chain_drop (n : ℕ) {base : Predicted} {entries : List Entry}
    (h : Chain step base entries) : ∃ base', Chain step base' (entries.drop n) ∧
      lastPredicted base' (entries.drop n) = lastPredicted base entries := by
  induction n generalizing base entries with
  | zero => exact ⟨base, h, rfl⟩
  | succ n ih =>
      cases entries with
      | nil => exact ⟨base, h, rfl⟩
      | cons first rest =>
          obtain ⟨base', hchain, hlast⟩ := ih h.2
          exact ⟨base', hchain, hlast.trans (lastPredicted_cons base first rest).symm⟩

/-- Each prediction of a chain is its Commands so far, stepped from the base. -/
theorem chain_getElem? {base : Predicted} {entries : List Entry} (h : Chain step base entries)
    {k : ℕ} {entry : Entry} (hk : entries[k]? = some entry) :
    entry.predicted = ((entries.map (·.command)).take (k + 1)).foldl step base := by
  induction entries generalizing base k with
  | nil => simp at hk
  | cons first rest ih =>
      obtain ⟨hfirst, hrest⟩ := h
      cases k with
      | zero =>
          obtain rfl : first = entry := by simpa using hk
          simpa using hfirst
      | succ k =>
          have := ih hrest (k := k) (by simpa using hk)
          rw [hfirst] at this
          simpa using this

theorem chain_last {base : Predicted} {entries : List Entry} (h : Chain step base entries) :
    lastPredicted base entries = (entries.map (·.command)).foldl step base := by
  induction entries generalizing base with
  | nil => rfl
  | cons first rest ih =>
      obtain ⟨hfirst, hrest⟩ := h
      rw [lastPredicted_cons, ih hrest, hfirst]
      rfl

/-- What an acknowledgement leaves is a back of the list. -/
theorem acknowledge_drop (history : History) (sequence : Sequence) :
    ∃ n, (history.acknowledge sequence).2.entries = history.entries.drop n ∧
      ∀ predicted, (history.acknowledge sequence).1 = some predicted →
        ∃ first, history.entries.drop (n - 1) = first :: history.entries.drop n ∧
          first.predicted = predicted := by
  obtain ⟨entries⟩ := history
  simp only [acknowledge]
  obtain ⟨n, hn⟩ : ∃ n, entries.dropWhile (fun entry => entry.sequence < sequence) =
      entries.drop n := by
    obtain ⟨front, hfront⟩ := List.dropWhile_suffix (l := entries)
      (fun entry : Entry => decide (entry.sequence < sequence))
    exact ⟨front.length, by conv_rhs => rw [← hfront, List.drop_left]⟩
  rw [hn]
  cases hdrop : entries.drop n with
  | nil => exact ⟨n, hdrop.symm, by simp⟩
  | cons first rest =>
      simp only
      split_ifs
      · exact ⟨n, hdrop.symm, by simp⟩
      · have hrest : rest = entries.drop (n + 1) := by
          rw [← List.tail_drop, hdrop]; rfl
        refine ⟨n + 1, hrest, ?_⟩
        rintro predicted h
        exact ⟨first, by rw [Nat.add_sub_cancel, hdrop, hrest], Option.some.inj h⟩

end History

namespace World
open History
variable {scene : Scene} {world : World}

/-- Where `move` paces a body by: its stance and its velocity. -/
structure Paced (body other : Physics.BodyState) : Prop where
  stance : body.stance = other.stance
  velocity : body.velocity = other.velocity

theorem move_paced (scene : Scene) (rules : Rules) {record : Physics.BodyRecord} {body : Physics.BodyState}
    (h : Paced body record.state) (command : Command) :
    move scene rules record body command = move scene rules record record.state command := by
  rw [move, move, Clips.pacingOf, Clips.pacingOf, h.stance, h.velocity]

/-- The chain a World keeps from `base` to its player. -/
structure KeptFrom (scene : Scene) (base : Predicted) (world : World) : Prop where
  chain : Chain (predict scene world.rules) base world.history.entries
  last : lastPredicted base world.history.entries = world.localPlayer
  paced : Paced world.tickState.localBody world.localPlayer.body.state

def Kept (scene : Scene) (world : World) : Prop := ∃ base, KeptFrom scene base world

theorem kept_start (scene : Scene) (world : World) (spawn : Math.Vec3) (parameters : Parameters) :
    Kept scene (world.start spawn parameters) :=
  ⟨(world.start spawn parameters).localPlayer, trivial, rfl, rfl,
    (by decide : ({} : Math.Vec3) = Math.snapVelocity {})⟩

/-- What an acknowledgement that corrects nothing leaves. -/
theorem keptFrom_drop {base : Predicted} (h : KeptFrom scene base world) (n : ℕ) :
    ∃ base', KeptFrom scene base' { world with history := ⟨world.history.entries.drop n⟩ } := by
  obtain ⟨base', hchain, hlast⟩ := chain_drop n h.chain
  exact ⟨base', hchain, hlast.trans h.last, h.paced⟩

theorem keptFrom_correct {world : World} (acknowledgement : Acknowledgement)
    (predicted : Predicted) : KeptFrom scene (restored acknowledgement predicted)
      (world.correct scene acknowledgement predicted) := by
  refine ⟨replayFrom_chain _ _, ?_, rfl, rfl⟩
  refine (chain_last (replayFrom_chain _ _)).trans ?_
  have hcommands := congrArg (List.map Prod.snd)
    (@replayFrom_commands (predict scene world.rules) (restored acknowledgement predicted)
      world.history.entries)
  simp only [List.map_map] at hcommands
  exact (congrArg (List.foldl _ _) hcommands).trans (replayFrom_last _ _).symm

/-- An acknowledgement that corrects nothing leaves the chain to start from what it acknowledged. -/
theorem keptFrom_acknowledged {base : Predicted} (h : KeptFrom scene base world)
    {sequence : Sequence} {predicted : Predicted}
    (hfound : (world.history.acknowledge sequence).1 = some predicted) :
    KeptFrom scene predicted { world with history := (world.history.acknowledge sequence).2 } := by
  obtain ⟨n, hdrop, hfirst⟩ := world.history.acknowledge_drop sequence
  obtain ⟨first, hcons, rfl⟩ := hfirst predicted hfound
  obtain ⟨base', hchain, hlast⟩ := chain_drop (n - 1) h.chain
  rw [hcons] at hchain hlast
  refine ⟨?_, ?_, h.paced⟩
  · rw [hdrop]; exact hchain.2
  · rw [hdrop, ← lastPredicted_cons base', hlast]; exact h.last

/-- The three things an acknowledgement can do. -/
theorem onReconciliation_cases (scene : Scene) (world : World)
    (acknowledgement : Acknowledgement) :
    let acknowledged := world.history.acknowledge acknowledgement.sequence
    (acknowledged.1 = none ∧
      world.onReconciliation scene (some acknowledgement) =
        { world with history := acknowledged.2 }) ∨
    ∃ predicted, acknowledged.1 = some predicted ∧
      ((needsCorrection acknowledgement predicted = false ∧
          world.onReconciliation scene (some acknowledgement) =
            { world with history := acknowledged.2 }) ∨
        (needsCorrection acknowledgement predicted = true ∧
          world.onReconciliation scene (some acknowledgement) =
            { world with history := acknowledged.2 }.correct scene acknowledgement predicted)) := by
  simp only [onReconciliation]
  obtain ⟨found, history⟩ := world.history.acknowledge acknowledgement.sequence
  cases found with
  | none => exact .inl ⟨rfl, rfl⟩
  | some predicted =>
      refine .inr ⟨predicted, rfl, ?_⟩
      cases hneeds : needsCorrection acknowledgement predicted with
      | true => exact .inr ⟨rfl, by simp [hneeds]⟩
      | false => exact .inl ⟨rfl, by simp [hneeds]⟩

theorem onReconciliation_rules (scene : Scene) (world : World)
    (acknowledgement : Option Acknowledgement) :
    (world.onReconciliation scene acknowledgement).rules = world.rules := by
  cases acknowledgement with
  | none => rfl
  | some acknowledgement =>
      rcases onReconciliation_cases scene world acknowledgement with
        ⟨-, h⟩ | ⟨predicted, -, ⟨-, h⟩ | ⟨-, h⟩⟩
      · rw [h]
      · rw [h]
      · rw [h]; rfl

/-- The Commands awaiting an answer, with the sequences they were sent under. -/
def awaiting (world : World) : List (Sequence × Command) :=
  world.history.entries.map fun entry => (entry.sequence, entry.command)

theorem awaiting_correct (world : World) (acknowledgement : Acknowledgement)
    (predicted : Predicted) :
    (world.correct scene acknowledgement predicted).awaiting = world.awaiting :=
  replayFrom_commands _ _

theorem kept_onReconciliation (h : Kept scene world) (acknowledgement : Option Acknowledgement) :
    Kept scene (world.onReconciliation scene acknowledgement) := by
  obtain ⟨base, h⟩ := h
  cases acknowledgement with
  | none => exact ⟨base, h⟩
  | some acknowledgement =>
      obtain ⟨n, hdrop, -⟩ := world.history.acknowledge_drop acknowledgement.sequence
      have hhistory : (world.history.acknowledge acknowledgement.sequence).2 =
          ⟨world.history.entries.drop n⟩ := by rw [← hdrop]
      rcases onReconciliation_cases scene world acknowledgement with
        ⟨-, hsame⟩ | ⟨predicted, -, ⟨-, hsame⟩ | ⟨-, hsame⟩⟩
      · rw [hsame, hhistory]; exact keptFrom_drop h n
      · rw [hsame, hhistory]; exact keptFrom_drop h n
      · rw [hsame]; exact ⟨_, keptFrom_correct acknowledgement predicted⟩

/-- What a tick does once an acknowledgement has been acted on: one Command more. -/
theorem tick_advances {world' : World} {acknowledgement : Option Acknowledgement}
    (hreconciled : world.onReconciliation scene acknowledgement = world')
    (hpaced : Paced world'.tickState.localBody world'.localPlayer.body.state) (command : Command)
    (sequence : Sequence) :
    let ticked := world.tick scene command sequence acknowledgement
    let next := predict scene world'.rules world'.localPlayer command
    ticked.localPlayer = next ∧ ticked.rules = world'.rules ∧
      ticked.tickState.localBody = next.body.state ∧ ticked.tickState.rifle = next.rifle ∧
      ticked.history =
        if sequence ≠ 0 then world'.history.record sequence command next else world'.history := by
  subst hreconciled
  have hbody : move scene (world.onReconciliation scene acknowledgement).rules
      (world.onReconciliation scene acknowledgement).localPlayer.body
      (world.onReconciliation scene acknowledgement).tickState.localBody command =
        (predict scene (world.onReconciliation scene acknowledgement).rules
          (world.onReconciliation scene acknowledgement).localPlayer command).body :=
    move_paced scene _ hpaced command
  simp only [tick, onCommit, onWeaponHandling, onMovement, hbody]
  split_ifs <;> exact ⟨rfl, rfl, rfl, rfl, rfl⟩

/-- A World keeps its chain from tick to tick, each Command sent one link more. -/
theorem keptFrom_tick {base : Predicted} {world' : World}
    {acknowledgement : Option Acknowledgement}
    (hreconciled : world.onReconciliation scene acknowledgement = world')
    (h : KeptFrom scene base world') (hroom : world'.history.entries.length < kMaxHistory)
    (command : Command) {sequence : Sequence} (hsent : sequence ≠ 0) :
    KeptFrom scene base (world.tick scene command sequence acknowledgement) ∧
      (world.tick scene command sequence acknowledgement).awaiting =
        world'.awaiting ++ [(sequence, command)] := by
  obtain ⟨hplayer, hrules, hbody, -, hhistory⟩ :=
    tick_advances hreconciled h.paced command sequence
  rw [if_pos hsent, History.record, if_neg (by simp; omega)] at hhistory
  refine ⟨⟨?_, ?_, ?_⟩, ?_⟩
  · rw [hrules, hhistory, chain_concat]
    exact ⟨h.chain, by rw [h.last]⟩
  · rw [hhistory, lastPredicted_concat, hplayer]
  · rw [hbody, hplayer]
    exact ⟨rfl, rfl⟩
  · simp [awaiting, hhistory]

theorem kept_tick (h : Kept scene world) (acknowledgement : Option Acknowledgement)
    (command : Command) {sequence : Sequence} (hsent : sequence ≠ 0) :
    Kept scene (world.tick scene command sequence acknowledgement) := by
  obtain ⟨base, hkept⟩ := kept_onReconciliation h acknowledgement
  obtain ⟨hplayer, hrules, hbody, -, hhistory⟩ := tick_advances rfl hkept.paced command sequence
  rw [if_pos hsent, History.record] at hhistory
  have hchain : Chain (predict scene (world.onReconciliation scene acknowledgement).rules) base
      ((world.onReconciliation scene acknowledgement).history.entries ++
        [⟨sequence, command, predict scene (world.onReconciliation scene acknowledgement).rules
          (world.onReconciliation scene acknowledgement).localPlayer command⟩]) := by
    rw [chain_concat]
    exact ⟨hkept.chain, by rw [hkept.last]⟩
  have hpaced : Paced (world.tick scene command sequence acknowledgement).tickState.localBody
      (world.tick scene command sequence acknowledgement).localPlayer.body.state := by
    rw [hbody, hplayer]
    exact ⟨rfl, rfl⟩
  split at hhistory
  · obtain ⟨base', hchain', hlast⟩ := chain_drop 1 hchain
    rw [List.drop_one] at hchain' hlast
    refine ⟨base', ?_, ?_, hpaced⟩
    · rw [hrules, hhistory]; exact hchain'
    · rw [hhistory, hplayer, hlast, lastPredicted_concat]
  · refine ⟨base, ?_, ?_, hpaced⟩
    · rw [hrules, hhistory]; exact hchain
    · rw [hhistory, hplayer, lastPredicted_concat]

/-! ### The sequences awaiting an answer -/

/-- Sequences that grow, below `next`, and no more than are kept. -/
structure Numbered (next : ℕ) (sent : List (Sequence × Command)) : Prop where
  increasing : sent.Pairwise fun a b => a.1.toNat < b.1.toNat
  below : ∀ command ∈ sent, command.1.toNat < next

theorem Numbered.sublist {next : ℕ} {sent fewer : List (Sequence × Command)}
    (h : Numbered next sent) (hfewer : fewer.Sublist sent) : Numbered next fewer :=
  ⟨h.increasing.sublist hfewer, fun command hmem => h.below command (hfewer.subset hmem)⟩

theorem Numbered.concat {next : ℕ} {sent : List (Sequence × Command)} (h : Numbered next sent)
    {sequence : Sequence} (hsequence : sequence.toNat = next) (command : Command) :
    Numbered (next + 1) (sent ++ [(sequence, command)]) := by
  constructor
  · rw [List.pairwise_append]
    refine ⟨h.increasing, List.pairwise_singleton _ _, ?_⟩
    intro earlier hearlier last hlast
    obtain rfl : last = (sequence, command) := List.mem_singleton.mp hlast
    exact hsequence ▸ h.below earlier hearlier
  · intro sent hsent
    rcases List.mem_append.mp hsent with hearlier | hlast
    · exact Nat.lt_succ_of_lt (h.below sent hearlier)
    · obtain rfl : sent = (sequence, command) := List.mem_singleton.mp hlast
      exact Nat.lt_succ_of_le (Nat.le_of_eq hsequence)

theorem increasing_of_numbered {next : ℕ} (h : Numbered next world.awaiting) :
    Increasing world.history.entries := by
  have hincreasing := h.increasing
  rw [awaiting, List.pairwise_map] at hincreasing
  exact hincreasing

/-- Exactly the Commands up to the one acknowledged are dropped. -/
theorem awaiting_onReconciliation (scene : Scene) {next : ℕ} (h : Numbered next world.awaiting)
    (acknowledgement : Acknowledgement) :
    (world.onReconciliation scene (some acknowledgement)).awaiting =
      world.awaiting.filter fun sent => acknowledgement.sequence < sent.1 := by
  have hentries := acknowledge_entries (increasing_of_numbered h) acknowledgement.sequence
  have hdropped : ({ world with
      history := (world.history.acknowledge acknowledgement.sequence).2 } : World).awaiting =
        world.awaiting.filter fun sent => acknowledgement.sequence < sent.1 := by
    simp only [awaiting, hentries, List.filter_map]
    rfl
  rcases onReconciliation_cases scene world acknowledgement with
    ⟨-, hsame⟩ | ⟨predicted, -, ⟨-, hsame⟩ | ⟨-, hsame⟩⟩
  · rw [hsame, hdropped]
  · rw [hsame, hdropped]
  · rw [hsame, awaiting_correct, hdropped]

/-- An acknowledgement older than every Command awaiting an answer is none. -/
theorem onReconciliation_old {acknowledgement : Acknowledgement}
    (h : ∀ sent ∈ world.awaiting, acknowledgement.sequence < sent.1) :
    world.onReconciliation scene (some acknowledgement) = world := by
  have hold : ∀ entry ∈ world.history.entries, acknowledgement.sequence < entry.sequence :=
    fun entry hentry => h (entry.sequence, entry.command) (List.mem_map_of_mem hentry)
  simp only [onReconciliation, acknowledge_old hold]

/-- What is awaiting an answer after a tick: this tick's Command too, and no more than are kept. -/
theorem awaiting_tick (acknowledgement : Option Acknowledgement) (command : Command)
    {sequence : Sequence} (hsent : sequence ≠ 0)
    (hpaced : Paced (world.onReconciliation scene acknowledgement).tickState.localBody
      (world.onReconciliation scene acknowledgement).localPlayer.body.state) :
    let awaiting := (world.onReconciliation scene acknowledgement).awaiting ++ [(sequence, command)]
    (world.tick scene command sequence acknowledgement).awaiting =
      if kMaxHistory < awaiting.length then awaiting.tail else awaiting := by
  obtain ⟨-, -, -, -, hhistory⟩ := @tick_advances scene world _ _ rfl hpaced command sequence
  rw [if_pos hsent, History.record] at hhistory
  simp only [awaiting, hhistory]
  split <;> simp_all [List.map_tail]

end World
end Augusta.Prediction
