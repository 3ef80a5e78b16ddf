import Augusta.Harness.IntentRun

/-! Where the Intents of an IntentExecutor are: each in one place, a Raw alone, and a reload asked
    for once.

      given n ──▶ held on its channel ──▶ pending ──▶ told         one arrow at a time, none back -/

namespace Augusta.Harness.IntentExecutor
open Lib (Binary32)
open Link

/-! ### Where the Intents are -/

section
variable {Intent : Type} {executor : IntentExecutor ℕ}

/-- How often a channel holds the Intent `n`. -/
def tally (held : Option (Held Intent ℕ)) (n : ℕ) : ℕ :=
  if held.map (·.onEnded) = some n then 1 else 0

@[simp] theorem tally_none (n : ℕ) : tally (none : Option (Held Intent ℕ)) n = 0 := rfl

@[simp] theorem tally_some (held : Held Intent ℕ) (n : ℕ) :
    tally (some held) n = if held.onEnded = n then 1 else 0 := by
  simp [tally]

theorem count_held (executor : IntentExecutor ℕ) (n : ℕ) :
    executor.held.count n = tally executor.raw n + tally executor.movement n +
      tally executor.aim n + tally executor.trigger n := by
  simp only [held, List.filterMap_cons, List.filterMap_nil, heldOn, tally]
  rcases executor.raw with - | raw <;> rcases executor.movement with - | movement <;>
    rcases executor.aim with - | aim <;> rcases executor.trigger with - | trigger <;>
      simp [List.count_cons, Nat.add_comm, Nat.add_left_comm]

@[simp] theorem count_endInto (held : Option (Held Intent ℕ)) (ending : IntentEnding)
    (ended : List (Ended ℕ)) (n : ℕ) :
    ((endInto held ending ended).map (·.onEnded)).count n =
      (ended.map (·.onEnded)).count n + tally held n := by
  cases held with
  | none => rfl
  | some held => simp [endInto, List.count_singleton]

/-- A call moves what it takes from held to ended, and what it gives to held. -/
theorem count_call (executor : IntentExecutor ℕ) (serial : ℕ) (c : Call) (n : ℕ) :
    (executor.call serial c).1.held.count n +
        ((executor.call serial c).2.map (·.onEnded)).count n =
      executor.held.count n + (c.gives.map fun _ => serial).count n := by
  rw [count_held, count_held]
  rcases c with (_ | _ | _ | _) | _ | _ | _ <;>
    simp [call, setRaw, setMovement, setAim, setTrigger, clearMovement, clearAim, clearTrigger,
      replace, Call.gives, List.count_singleton] <;> omega

/-- A channel carried out holds on, or has ended. -/
theorem count_carryChannel (carry : Held Intent ℕ → Command → Carried)
    (channel : Option (Held Intent ℕ)) (command : Command) (ended : List (Ended ℕ)) (n : ℕ) :
    tally (carryChannel carry channel command ended).1 n +
        ((carryChannel carry channel command ended).2.2.map (·.onEnded)).count n =
      tally channel n + (ended.map (·.onEnded)).count n := by
  cases channel with
  | none => simp [carryChannel]
  | some held =>
      rw [carryChannel]
      split <;> simp [Nat.add_comm]

/-- A tick moves what ends from held to ended. -/
theorem count_next (libm : Libm) (executor : IntentExecutor ℕ) (view : ServerView)
    (own : Physics.BodyState) (n : ℕ) :
    (executor.nextCommand libm view own).2.1.held.count n +
        ((executor.nextCommand libm view own).2.2.map (·.onEnded)).count n =
      executor.held.count n := by
  rw [count_held, count_held]
  simp only [nextCommand, carryOut]
  split
  · split
    · next h => simp [remember, sendRaw, h]
    · have hmovement := count_carryChannel (carryMovement · view own) executor.movement
        executor.startingCommand [] n
      have haim := count_carryChannel (carryAim libm · view own) executor.aim
        (carryChannel (carryMovement · view own) executor.movement executor.startingCommand []).2.1
        (carryChannel (carryMovement · view own) executor.movement executor.startingCommand []).2.2
        n
      simp only [carryAll, remember]
      rw [Nat.add_assoc, count_carryChannel]
      simp only [List.map_nil, List.count_nil] at hmovement
      omega
  · rw [endAimIfTargetGone]
    split
    · next h =>
        split
        · simp only [h, count_endInto, tally_none, tally_some, List.map_nil, List.count_nil]
          omega
        · simp
    · simp

end

/-! ### What a tick leaves held -/

/-- What is still on a channel is what was, whatever it has counted since. -/
def Keeps {Intent : Type} (before left : Option (Held Intent ℕ)) : Prop :=
  ∀ after, left = some after →
    ∃ held, before = some held ∧ after.intent = held.intent ∧ after.onEnded = held.onEnded

theorem Keeps.refl {Intent : Type} (held : Option (Held Intent ℕ)) : Keeps held held :=
  fun after h => ⟨after, h, rfl, rfl⟩

theorem Keeps.none {Intent : Type} (held : Option (Held Intent ℕ)) : Keeps held none := by
  rintro after ⟨⟩

theorem keeps_carryChannel {Intent : Type} (carry : Held Intent ℕ → Command → Carried)
    (channel : Option (Held Intent ℕ)) (command : Command) (ended : List (Ended ℕ)) :
    Keeps channel (carryChannel carry channel command ended).1 := by
  cases channel with
  | none => exact Keeps.none _
  | some held =>
      rw [carryChannel]
      split
      · exact Keeps.none _
      · rintro after ⟨⟩
        exact ⟨held, rfl, rfl, rfl⟩

/-- How a tick goes: the Raw's, the three channels', or none of them while the player is not
    alive. -/
inductive Tick (libm : Libm) (executor : IntentExecutor ℕ) (view : ServerView)
    (own : Physics.BodyState) : Command → IntentExecutor ℕ → List (Ended ℕ) → Prop
  | raw {held : Held Command ℕ} {command : Command} (alive : view.ownAlive = true)
      (found : executor.raw = some held) (reload : command.reload = held.intent.reload)
      (after : IntentExecutor ℕ)
      (raw : after.raw = some { held with intent := { held.intent with reload := false } })
      (movement : after.movement = executor.movement) (aim : after.aim = executor.aim)
      (trigger : after.trigger = executor.trigger) : Tick libm executor view own command after []
  | channels {command : Command} (alive : view.ownAlive = true) (raw : executor.raw = none)
      (reload : command.reload = (executor.carryAll libm view own).1.reload)
      (after : IntentExecutor ℕ) (none : after.raw = none)
      (movement : after.movement = (executor.carryAll libm view own).2.1.movement)
      (aim : after.aim = (executor.carryAll libm view own).2.1.aim)
      (trigger : after.trigger = (executor.carryAll libm view own).2.1.trigger) :
      Tick libm executor view own command after (executor.carryAll libm view own).2.2
  | waits {command : Command} (dead : view.ownAlive = false) :
      Tick libm executor view own command (executor.endAimIfTargetGone view).1
        (executor.endAimIfTargetGone view).2

theorem nextCommand_tick (libm : Libm) (executor : IntentExecutor ℕ) (view : ServerView)
    (own : Physics.BodyState) :
    Tick libm executor view own (executor.nextCommand libm view own).1
      (executor.nextCommand libm view own).2.1 (executor.nextCommand libm view own).2.2 := by
  simp only [nextCommand, carryOut]
  split
  · next halive =>
      split
      · next held hraw => exact .raw halive hraw (by rfl) _ (by rfl) (by rfl) (by rfl) (by rfl)
      · next hraw => exact .channels halive hraw (by rfl) _ hraw (by rfl) (by rfl) (by rfl)
  · next hdead => exact .waits (Bool.eq_false_iff.mpr hdead)

section
variable {libm : Libm} {executor after : IntentExecutor ℕ} {view : ServerView}
  {own : Physics.BodyState} {command : Command} {ended : List (Ended ℕ)}

theorem endAim_cases (executor : IntentExecutor ℕ) (view : ServerView) :
    ((∀ held aimAt, executor.aim = some held → held.intent = .aimAt aimAt →
        targetGone aimAt held.tracking view = false) ∧
        executor.endAimIfTargetGone view = (executor, [])) ∨
      ∃ held aimAt, executor.aim = some held ∧ held.intent = .aimAt aimAt ∧
        targetGone aimAt held.tracking view = true ∧
        executor.endAimIfTargetGone view =
          ({ executor with aim := none }, [⟨held.onEnded, .targetGone⟩]) := by
  rw [endAimIfTargetGone]
  split
  · next aimAt onEnded tracking haim =>
      split
      · next hgone => exact .inr ⟨_, aimAt, haim, rfl, hgone, by simp [haim, endInto]⟩
      · next hgone =>
          refine .inl ⟨?_, rfl⟩
          rw [haim]
          rintro held aimAt' ⟨⟩ ⟨⟩
          exact Bool.eq_false_iff.mpr hgone
  · next hnot =>
      refine .inl ⟨?_, rfl⟩
      rintro ⟨intent, onEnded, tracking⟩ aimAt haim rfl
      exact absurd haim (hnot aimAt onEnded tracking)

/-- No channel takes anything on during a tick. -/
theorem Tick.keeps (h : Tick libm executor view own command after ended) :
    Keeps executor.movement after.movement ∧ Keeps executor.aim after.aim ∧
      Keeps executor.trigger after.trigger := by
  cases h with
  | raw _ _ _ _ _ hmovement haim htrigger =>
      rw [hmovement, haim, htrigger]
      exact ⟨Keeps.refl _, Keeps.refl _, Keeps.refl _⟩
  | channels _ _ _ _ _ hmovement haim htrigger =>
      rw [hmovement, haim, htrigger]
      exact ⟨keeps_carryChannel _ _ _ _, keeps_carryChannel _ _ _ _, keeps_carryChannel _ _ _ _⟩
  | waits _ =>
      rcases endAim_cases executor view with ⟨-, hnone⟩ | ⟨held, aimAt, haim, -, -, hgone⟩
      · rw [hnone]
        exact ⟨Keeps.refl _, Keeps.refl _, Keeps.refl _⟩
      · rw [hgone]
        exact ⟨Keeps.refl _, Keeps.none _, Keeps.refl _⟩

theorem Tick.raw_isSome (h : Tick libm executor view own command after ended) :
    after.raw.isSome = executor.raw.isSome := by
  cases h with
  | raw _ hfound _ _ hraw => rw [hraw, hfound]; rfl
  | channels _ hraw _ _ hnone => rw [hnone, hraw]
  | waits _ =>
      rcases endAim_cases executor view with ⟨-, hnone⟩ | ⟨_, _, _, -, -, hgone⟩
      · rw [hnone]
      · rw [hgone]

/-- A Raw a tick leaves held was sent on it, and reloads no more, or waits. -/
theorem Tick.raw_cases (h : Tick libm executor view own command after ended) {held : Held Command ℕ}
    (hheld : after.raw = some held) :
    (view.ownAlive = true ∧ ∃ was, executor.raw = some was ∧
        held = { was with intent := { was.intent with reload := false } }) ∨
      (view.ownAlive = false ∧ executor.raw = some held) := by
  cases h with
  | raw halive hfound _ _ hraw =>
      rw [hraw] at hheld
      exact .inl ⟨halive, _, hfound, (Option.some.inj hheld).symm⟩
  | channels _ _ _ _ hnone =>
      rw [hnone] at hheld
      cases hheld
  | waits hdead =>
      rcases endAim_cases executor view with ⟨-, hnone⟩ | ⟨_, _, _, -, -, hgone⟩
      · rw [hnone] at hheld
        exact .inr ⟨hdead, hheld⟩
      · rw [hgone] at hheld
        exact .inr ⟨hdead, hheld⟩

end

/-! ### A Raw is alone -/

theorem Keeps.eq_none {Intent : Type} {before left : Option (Held Intent ℕ)}
    (h : Keeps before left) (hnone : before = Option.none) : left = Option.none := by
  cases left with
  | none => rfl
  | some after =>
      obtain ⟨held, hheld, -⟩ := h after rfl
      rw [hnone] at hheld
      cases hheld

theorem alone_call {executor : IntentExecutor ℕ} (serial : ℕ) (c : Call) :
    Alone executor → Alone (executor.call serial c).1 := by
  rcases c with (_ | _ | _ | _) | _ | _ | _ <;>
    simp [Alone, call, setRaw, setMovement, setAim, setTrigger, clearMovement, clearAim,
      clearTrigger]

theorem alone_step {run : Run} (libm : Libm) (h : Alone run.executor) (event : Event) :
    Alone (run.step libm event).executor := by
  cases event with
  | call c => exact alone_call run.given.length c h
  | next view own =>
      intro hraw
      have htick := nextCommand_tick libm run.executor view own
      rw [show (run.step libm (.next view own)).executor =
        (run.executor.nextCommand libm view own).2.1 from rfl, htick.raw_isSome] at hraw
      obtain ⟨hmovement, haim, htrigger⟩ := h hraw
      obtain ⟨hkeeps, hkeeps', hkeeps''⟩ := htick.keeps
      exact ⟨hkeeps.eq_none hmovement, hkeeps'.eq_none haim, hkeeps''.eq_none htrigger⟩
  | tell which => exact h

/-! ### Held as given -/

/-- A tick the Raw `n` was sent on has come. -/
def SentRaw (run : Run) (n : ℕ) : Prop :=
  ∃ sent ∈ run.sent, sent.view.ownAlive = true ∧ sent.before.heldOn .raw = some n

/-- What is held is what was given, but for a Raw's reload once sent; and only what had been given
    was held when a Command was sent. -/
structure AsGiven (run : Run) : Prop where
  raw : ∀ held, run.executor.raw = some held → ∃ command,
    run.given[held.onEnded]? = some (.raw command) ∧
      (SentRaw run held.onEnded ∧ held.intent.reload = false ∨
        ¬ SentRaw run held.onEnded ∧ held.intent = command)
  movement : ∀ held, run.executor.movement = some held →
    run.given[held.onEnded]? = some (.movement held.intent)
  aim : ∀ held, run.executor.aim = some held → run.given[held.onEnded]? = some (.aim held.intent)
  trigger : ∀ held, run.executor.trigger = some held →
    run.given[held.onEnded]? = some (.trigger held.intent)
  past : ∀ sent ∈ run.sent, ∀ channel n, sent.before.heldOn channel = some n →
    n < run.given.length

theorem getElem?_append_of_some {α : Type} {items : List α} {item : α} {n : ℕ}
    (later : List α) (h : items[n]? = some item) : (items ++ later)[n]? = some item := by
  obtain ⟨hlt, -⟩ := List.getElem?_eq_some_iff.mp h
  rw [List.getElem?_append_left hlt, h]

theorem Keeps.given {Intent : Type} {before left : Option (Held Intent ℕ)} {run : Run}
    {make : Intent → AnyIntent} (h : Keeps before left)
    (hgiven : ∀ held, before = some held → run.given[held.onEnded]? = some (make held.intent)) :
    ∀ held, left = some held → run.given[held.onEnded]? = some (make held.intent) := by
  intro held hheld
  obtain ⟨was, hwas, hintent, honEnded⟩ := h held hheld
  rw [honEnded, hintent]
  exact hgiven was hwas

/-- Given is what is held on a channel, and it is of that channel. -/
theorem AsGiven.channel {run : Run} (h : AsGiven run) (channel : Channel) (n : ℕ)
    (hheld : run.executor.heldOn channel = some n) :
    (run.given[n]?).map AnyIntent.channel = some channel := by
  cases channel with
  | raw =>
      obtain ⟨held, hfound, rfl⟩ := Option.map_eq_some_iff.mp hheld
      obtain ⟨command, hgiven, -⟩ := h.raw held hfound
      rw [hgiven]
      rfl
  | movement =>
      obtain ⟨held, hfound, rfl⟩ := Option.map_eq_some_iff.mp hheld
      rw [h.movement held hfound]
      rfl
  | aim =>
      obtain ⟨held, hfound, rfl⟩ := Option.map_eq_some_iff.mp hheld
      rw [h.aim held hfound]
      rfl
  | trigger =>
      obtain ⟨held, hfound, rfl⟩ := Option.map_eq_some_iff.mp hheld
      rw [h.trigger held hfound]
      rfl

theorem AsGiven.lt {run : Run} (h : AsGiven run) {channel : Channel} {n : ℕ}
    (hheld : run.executor.heldOn channel = some n) : n < run.given.length := by
  obtain ⟨intent, hgiven, -⟩ := Option.map_eq_some_iff.mp (h.channel channel n hheld)
  exact (List.getElem?_eq_some_iff.mp hgiven).1

theorem AsGiven.call {run : Run} (libm : Libm) (h : AsGiven run) (c : Call) :
    AsGiven (run.step libm (.call c)) := by
  have hnew : ∀ intent, (run.given ++ [intent])[run.given.length]? = some intent := fun intent =>
    List.getElem?_concat_length
  have hunsent : ¬ SentRaw run run.given.length := by
    rintro ⟨sent, hsent, -, hheld⟩
    exact Nat.lt_irrefl _ (h.past sent hsent .raw _ hheld)
  have hmovement := fun held hheld => getElem?_append_of_some c.gives (h.movement held hheld)
  have haim := fun held hheld => getElem?_append_of_some c.gives (h.aim held hheld)
  have htrigger := fun held hheld => getElem?_append_of_some c.gives (h.trigger held hheld)
  refine ⟨?_, ?_, ?_, ?_, fun sent hsent channel n hheld => ?_⟩
  · rcases c with (command | _ | _ | _) | _ | _ | _ <;> rintro held ⟨⟩
    exact ⟨command, hnew _, .inr ⟨hunsent, rfl⟩⟩
  · rcases c with (_ | intent | _ | _) | _ | _ | _
    · rintro held ⟨⟩
    · rintro held ⟨⟩
      exact hnew _
    · exact hmovement
    · exact hmovement
    · rintro held ⟨⟩
    · exact hmovement
    · exact hmovement
  · rcases c with (_ | _ | intent | _) | _ | _ | _
    · rintro held ⟨⟩
    · exact haim
    · rintro held ⟨⟩
      exact hnew _
    · exact haim
    · exact haim
    · rintro held ⟨⟩
    · exact haim
  · rcases c with (_ | _ | _ | intent) | _ | _ | _
    · rintro held ⟨⟩
    · exact htrigger
    · exact htrigger
    · rintro held ⟨⟩
      exact hnew _
    · exact htrigger
    · exact htrigger
    · rintro held ⟨⟩
  · have hlt := h.past sent hsent channel n hheld
    simp only [Run.step, List.length_append]
    omega

theorem sentRaw_next {run : Run} {libm : Libm} {view : ServerView} {own : Physics.BodyState}
    {n : ℕ} : SentRaw (run.step libm (.next view own)) n ↔
      SentRaw run n ∨ view.ownAlive = true ∧ run.executor.heldOn .raw = some n := by
  simp [SentRaw, Run.step, or_and_right, exists_or]

theorem AsGiven.next {run : Run} (libm : Libm) (h : AsGiven run) (view : ServerView)
    (own : Physics.BodyState) : AsGiven (run.step libm (.next view own)) := by
  have htick := nextCommand_tick libm run.executor view own
  obtain ⟨hmovement, haim, htrigger⟩ := htick.keeps
  refine ⟨fun held hheld => ?_, hmovement.given h.movement, haim.given h.aim,
    htrigger.given h.trigger, ?_⟩
  · rw [sentRaw_next]
    rcases htick.raw_cases hheld with ⟨halive, was, hfound, rfl⟩ | ⟨hdead, hsame⟩
    · -- sent now, it reloads no more
      obtain ⟨command, hgiven, -⟩ := h.raw was hfound
      exact ⟨command, hgiven, .inl ⟨.inr ⟨halive, by rw [heldOn, hfound]; rfl⟩, rfl⟩⟩
    · obtain ⟨command, hgiven, hsent⟩ := h.raw held hsame
      refine ⟨command, hgiven, ?_⟩
      simpa [hdead] using hsent
  · intro sent hsent channel n hheld
    rcases List.mem_append.mp hsent with hbefore | hnow
    · exact h.past sent hbefore channel n hheld
    · obtain rfl := List.mem_singleton.mp hnow
      exact h.lt hheld

theorem asGiven_step {run : Run} (libm : Libm) (h : AsGiven run) (event : Event) :
    AsGiven (run.step libm event) := by
  cases event with
  | call c => exact h.call libm c
  | next view own => exact h.next libm view own
  | tell which => exact ⟨h.raw, h.movement, h.aim, h.trigger, h.past⟩

theorem asGiven_after (libm : Libm) (events : List Event) : AsGiven (Run.after libm events) := by
  induction events using List.reverseRecOn with
  | nil =>
      refine ⟨?_, ?_, ?_, ?_, ?_⟩
      · rintro held ⟨⟩
      · rintro held ⟨⟩
      · rintro held ⟨⟩
      · rintro held ⟨⟩
      · rintro sent ⟨⟩
  | append_singleton events event ih =>
      rw [Run.after_concat]
      exact asGiven_step libm ih event

/-- Taking one out and putting it after the others. -/
theorem eraseIdx_append_perm {α : Type} (items : List α) (which : ℕ) :
    (items.eraseIdx which ++ items[which]?.toList).Perm items := by
  rcases Nat.lt_or_ge which items.length with hlt | hge
  · rw [List.getElem?_eq_getElem hlt]
    exact List.perm_append_comm.trans (List.getElem_cons_eraseIdx_perm hlt)
  · rw [List.eraseIdx_of_length_le hge, List.getElem?_eq_none hge]
    simp

/-- How often the Intent `n` is anywhere. -/
def Run.places (run : Run) (n : ℕ) : ℕ :=
  run.executor.held.count n + (run.pending.map (·.onEnded)).count n +
    (run.told.map (·.onEnded)).count n

theorem places_step {run : Run} (libm : Libm)
    (h : ∀ n, run.places n = (List.range run.given.length).count n) (event : Event) (n : ℕ) :
    (run.step libm event).places n =
      (List.range (run.step libm event).given.length).count n := by
  have hn := h n
  cases event with
  | call c =>
      have hcount := count_call run.executor run.given.length c n
      have hrange : (List.range (run.given ++ c.gives).length).count n =
          (List.range run.given.length).count n +
            (c.gives.map fun _ => run.given.length).count n := by
        rcases c with _ | _ | _ | _ <;> simp [Call.gives, List.range_succ]
      simp only [Run.places, Run.step, List.map_append, List.count_append] at hn hcount hrange ⊢
      omega
  | next view own =>
      have hcount := count_next libm run.executor view own n
      simp only [Run.places, Run.step, List.map_append, List.count_append] at hn hcount ⊢
      omega
  | tell which =>
      have hperm := ((eraseIdx_append_perm run.pending which).map (·.onEnded)).count_eq n
      simp only [Run.places, Run.step, List.map_append, List.count_append] at hn hperm ⊢
      omega

theorem accounted_after (libm : Libm) (events : List Event) :
    Accounted (Run.after libm events) where
  once := by
    have hplaces : ∀ n, (Run.after libm events).places n =
        (List.range (Run.after libm events).given.length).count n := by
      induction events using List.reverseRecOn with
      | nil => intro n; rfl
      | append_singleton events event ih =>
          rw [Run.after_concat]
          exact places_step libm ih event
    rw [List.perm_iff_count]
    intro n
    rw [List.count_append, List.count_append]
    exact hplaces n
  channel := (asGiven_after libm events).channel

/-! ### What a call ends -/

/-- Telling an ending moves it. -/
theorem tell_perm (libm : Libm) (run : Run) (which : ℕ) :
    ((run.step libm (.tell which)).pending ++ (run.step libm (.tell which)).told).Perm
      (run.pending ++ run.told) := by
  have hmoved : (run.pending.eraseIdx which ++ (run.told ++ run.pending[which]?.toList)).Perm
      ((run.pending.eraseIdx which ++ run.pending[which]?.toList) ++ run.told) := by
    rw [List.append_assoc]
    exact List.perm_append_comm.append_left _
  exact hmoved.trans ((eraseIdx_append_perm run.pending which).append_right _)

/-- What has been asked for is not held to be asked for again. -/
structure Asked (run : Run) : Prop where
  once : (run.sent.filterMap Sent.asks).Nodup
  given : ∀ n ∈ run.sent.filterMap Sent.asks, n < run.given.length
  raw : ∀ held, run.executor.raw = some held →
    held.onEnded ∈ run.sent.filterMap Sent.asks → held.intent.reload = false
  trigger : ∀ held, run.executor.trigger = some held → held.intent = .reload →
    held.onEnded ∉ run.sent.filterMap Sent.asks

theorem Asked.call {run : Run} (libm : Libm) (h : Asked run) (c : Call) :
    Asked (run.step libm (.call c)) := by
  have hnew : run.given.length ∉ run.sent.filterMap Sent.asks := fun hasked =>
    Nat.lt_irrefl _ (h.given _ hasked)
  refine ⟨h.once, fun n hn => ?_, ?_, ?_⟩
  · have := h.given n hn
    simp only [Run.step, List.length_append]
    omega
  · rcases c with (_ | _ | _ | _) | _ | _ | _ <;> rintro held ⟨⟩
    intro hasked
    exact absurd hasked hnew
  · rcases c with (_ | _ | _ | _) | _ | _ | _
    · rintro held ⟨⟩
    · exact h.trigger
    · exact h.trigger
    · rintro held ⟨⟩ -
      exact hnew
    · exact h.trigger
    · exact h.trigger
    · rintro held ⟨⟩

/-- What a tick asks the reload of, if it does. -/
theorem asks_cases {libm : Libm} {executor after : IntentExecutor ℕ} {view : ServerView}
    {own : Physics.BodyState} {command : Command} {ended : List (Ended ℕ)} {n : ℕ}
    (h : Tick libm executor view own command after ended)
    (hasks : Sent.asks ⟨executor, view, own, command⟩ = some n) :
    (∃ held, executor.raw = some held ∧ held.onEnded = n ∧ held.intent.reload = true) ∨
      (executor.raw = none ∧ after.trigger = none ∧ ∃ held, executor.trigger = some held ∧
        held.onEnded = n ∧ held.intent = .reload) := by
  rw [Sent.asks] at hasks
  split_ifs at hasks with hreload
  obtain ⟨halive, hreload⟩ := hreload
  rw [asker] at hasks
  split at hasks
  · next held hraw =>
      cases hasks
      cases h with
      | raw _ hfound hsame =>
          rw [hraw] at hfound
          cases hfound
          exact .inl ⟨_, hraw, rfl, by rw [← hsame]; exact hreload⟩
      | channels _ hnone =>
          rw [hraw] at hnone
          cases hnone
      | waits hdead =>
          rw [hdead] at halive
          cases halive
  · next onEnded tracking hraw htrigger =>
      cases hasks
      refine .inr ⟨hraw, ?_, _, htrigger, rfl, rfl⟩
      cases h with
      | raw _ hfound =>
          rw [hraw] at hfound
          cases hfound
      | channels _ _ _ _ _ _ _ hleft =>
          rw [hleft, carryAll, htrigger]
          rfl
      | waits hdead =>
          rw [hdead] at halive
          cases halive
  · cases hasks

theorem Asked.next {run : Run} (libm : Libm) (h : Asked run) (hgiven : AsGiven run)
    (halone : Alone run.executor) (view : ServerView) (own : Physics.BodyState) :
    Asked (run.step libm (.next view own)) := by
  have htick := nextCommand_tick libm run.executor view own
  have hsent : (run.step libm (.next view own)).sent.filterMap Sent.asks =
      run.sent.filterMap Sent.asks ++ (Sent.asks ⟨run.executor, view, own,
        (run.executor.nextCommand libm view own).1⟩).toList := by
    simp only [Run.step, List.filterMap_append, List.filterMap_cons, List.filterMap_nil]
    split <;> simp_all
  -- an older asking binds what is held as before
  have hraw : ∀ held, (run.step libm (.next view own)).executor.raw = some held →
      held.onEnded ∈ run.sent.filterMap Sent.asks → held.intent.reload = false := by
    intro held hheld hasked
    rcases htick.raw_cases hheld with ⟨-, was, -, rfl⟩ | ⟨-, hsame⟩
    · rfl
    · exact h.raw held hsame hasked
  have htrigger : ∀ held, (run.step libm (.next view own)).executor.trigger = some held →
      held.intent = .reload → held.onEnded ∉ run.sent.filterMap Sent.asks := by
    intro held hheld hreload
    obtain ⟨was, hwas, hintent, honEnded⟩ := htick.keeps.2.2 held hheld
    rw [honEnded]
    exact h.trigger was hwas (hintent ▸ hreload)
  rcases hasks : Sent.asks ⟨run.executor, view, own, (run.executor.nextCommand libm view own).1⟩
    with - | n
  · rw [hasks, Option.toList_none, List.append_nil] at hsent
    refine ⟨?_, ?_, ?_, ?_⟩
    · rw [hsent]
      exact h.once
    · rw [hsent]
      exact h.given
    · rw [hsent]
      exact hraw
    · rw [hsent]
      exact htrigger
  rw [hasks, Option.toList_some] at hsent
  have hnew : n ∉ run.sent.filterMap Sent.asks ∧ n < run.given.length := by
    rcases asks_cases htick hasks with ⟨held, hfound, rfl, hreload⟩ |
      ⟨-, -, held, hfound, rfl, hreload⟩
    · refine ⟨fun hasked => ?_,
        @AsGiven.lt run hgiven .raw held.onEnded (by rw [heldOn, hfound]; rfl)⟩
      rw [h.raw held hfound hasked] at hreload
      cases hreload
    · exact ⟨h.trigger held hfound hreload,
        @AsGiven.lt run hgiven .trigger held.onEnded (by rw [heldOn, hfound]; rfl)⟩
  refine ⟨?_, ?_, ?_, ?_⟩
  · rw [hsent]
    exact h.once.append (List.nodup_singleton n) (List.disjoint_singleton.mpr hnew.1)
  · rw [hsent]
    intro m hm
    rcases List.mem_append.mp hm with hbefore | hnow
    · exact h.given m hbefore
    · rw [List.mem_singleton.mp hnow]
      exact hnew.2
  · rw [hsent]
    intro held hheld hasked
    rcases List.mem_append.mp hasked with hbefore | hnow
    · exact hraw held hheld hbefore
    · rcases asks_cases htick hasks with ⟨was, hfound, -, -⟩ | ⟨hnone, -⟩
      · rcases htick.raw_cases hheld with ⟨-, _, -, rfl⟩ | ⟨hdead, -⟩
        · rfl
        · rw [Sent.asks, if_neg (by simp [hdead])] at hasks
          cases hasks
      · have hsome := htick.raw_isSome
        rw [show (run.executor.nextCommand libm view own).2.1.raw = some held from hheld, hnone]
          at hsome
        cases hsome
  · rw [hsent]
    intro held hheld hreload hasked
    rcases List.mem_append.mp hasked with hbefore | hnow
    · exact htrigger held hheld hreload hbefore
    · rcases asks_cases htick hasks with ⟨was, hfound, -, -⟩ | ⟨-, hleft, -⟩
      · have hraw : (run.executor.nextCommand libm view own).2.1.raw.isSome = true := by
          rw [htick.raw_isSome, hfound]
          rfl
        have hnone := (alone_step libm halone (.next view own) hraw).2.2
        rw [hheld] at hnone
        cases hnone
      · rw [show (run.step libm (.next view own)).executor.trigger = none from hleft] at hheld
        cases hheld

end Augusta.Harness.IntentExecutor
