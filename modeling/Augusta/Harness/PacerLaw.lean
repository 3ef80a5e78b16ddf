import Augusta.Harness.Reenactment
import Augusta.Host.Capturer
import Mathlib.Tactic.SplitIfs

/-! What a Pacer sends, however it is called.

      dues      7   8   8   12   9   13   14 …
      sent      c₀  f   ·   c₁   ·   c₂   f        c  a captured Command, in order, due or late
                                                   f  a filler, quiet, before the Leave

    One call goes one of four ways (`Called`); `Pacing` is what every sequence of them keeps. -/

namespace Augusta.Harness
open Physics (MovementInput)

/-- A Command sent, for which tick, and the captured one it is: none for a filler. -/
structure Outgoing where
  due : Tick
  captured : Option CommandAt
  command : Command

/-- One call of `Next`, what it sends logged. -/
def Pacer.call (first : Tick) (s : Pacer × List Outgoing) (due : Tick) : Pacer × List Outgoing :=
  match s.1.next first due with
  | (none, pacer) => (pacer, s.2)
  | (some command, pacer) =>
      let captured := if pacer.sent = s.1.sent then none else s.1.commands[s.1.sent]?
      (pacer, s.2 ++ [⟨due, captured, command⟩])

def Pacer.calls (script : Script) (first : Tick) (dues : List Tick) : Pacer × List Outgoing :=
  dues.foldl (Pacer.call first) (.ofScript script, [])

/-- What calls for these due ticks send, in order. -/
def outgoing (script : Script) (first : Tick) (dues : List Tick) : List Outgoing :=
  (Pacer.calls script first dues).2

/-! ### What is to be sent -/

/-- The last captured Command sent, and how many fillers since. -/
def sinceCaptured (out : List Outgoing) : Option CommandAt × ℕ :=
  out.foldl (fun since sent =>
    match sent.captured with
    | some captured => (some captured, 0)
    | none => (since.1, since.2 + 1)) (none, 0)

/-- The movement a filler goes on with. -/
def heldMovement (maxHeldTicks : ℕ) : Option CommandAt × ℕ → MovementInput
  | (none, _) => {}
  | (some captured, fillers) =>
      if fillers < maxHeldTicks then captured.command.movement
      else { captured.command.movement with direction := {}, sprint := false }

/-- A filler, after what was sent `before` it. -/
structure IsFiller (script : Script) (first : Tick) (before : List Outgoing) (sent : Outgoing) :
    Prop where
  quiet : sent.command.fire = false ∧ sent.command.reload = false
  movement : sent.command.movement =
    heldMovement (heldTicks script.tickRateHz) (sinceCaptured before)
  early : ∀ leave ∈ script.leave, offsetOf sent.due first < leave.toUInt64

/-- A captured Command as it goes out: not early, and as it was but for its Seen time's tick. -/
structure IsCaptured (script : Script) (first : Tick) (captured : CommandAt) (sent : Outgoing) :
    Prop where
  due : captured.offset.toUInt64 ≤ offsetOf sent.due first
  whole : sent.command =
    { captured.command with seenTick := seenBefore captured.delay sent.due }

/-- Whether a tick is past every captured Command. -/
def past (script : Script) (first due : Tick) : Bool :=
  script.commands.all fun captured => captured.offset.toUInt64 < offsetOf due first

/-- The contract of a Pacer, whatever ticks it is called for. -/
structure Paces (script : Script) (first : Tick) : Prop where
  inOrder : ∀ dues, (outgoing script first dues).filterMap (·.captured) <+: script.commands
  captured : ∀ dues, ∀ sent ∈ outgoing script first dues, ∀ captured ∈ sent.captured,
    IsCaptured script first captured sent
  onePerTick : ∀ dues, ((outgoing script first dues).map (·.due)).Pairwise (· < ·)
  fillers : ∀ dues before sent after, outgoing script first dues = before ++ sent :: after →
    sent.captured = none → IsFiller script first before sent
  /-- Called for ever later ticks, as many of them past the last captured Command as there are
      Commands, it has sent them all. -/
  complete : ∀ earlier later : List Tick, later.Pairwise (· < ·) →
    (∀ due ∈ earlier, ∀ next ∈ later, due < next) →
    script.commands.length ≤ (later.filter (past script first)).length →
    (outgoing script first (earlier ++ later)).filterMap (·.captured) = script.commands

/-! ### One call -/

/-- The ways a call of `Next` can go. -/
inductive Called (pacer : Pacer) (first due : Tick) : Option Command → Pacer → Prop
  | nothing (why : offsetOf due first < pacer.slot ∨
      ∃ leave ∈ pacer.leave, leave.toUInt64 ≤ offsetOf due first ∧
        ∀ captured ∈ pacer.commands[pacer.sent]?, ¬ captured.offset < leave) :
      Called pacer first due none pacer
  | captured (captured : CommandAt) (free : pacer.slot ≤ offsetOf due first)
      (next : pacer.commands[pacer.sent]? = some captured)
      (isDue : captured.offset.toUInt64 ≤ offsetOf due first)
      (beforeLeave : ∀ leave ∈ pacer.leave, captured.offset < leave)
      (command : Command)
      (whole : command = { captured.command with seenTick := seenBefore captured.delay due }) :
      Called pacer first due (some command)
        { pacer with
          slot := offsetOf due first + 1, sent := pacer.sent + 1, lastDelay := captured.delay
          last := some command, held := 0 }
  | held (last : Command) (free : pacer.slot ≤ offsetOf due first)
      (early : ∀ leave ∈ pacer.leave, offsetOf due first < leave.toUInt64)
      (notDue : ∀ captured ∈ pacer.commands[pacer.sent]?,
        ¬ captured.offset.toUInt64 ≤ offsetOf due first)
      (holding : pacer.last = some last) (room : pacer.held < pacer.maxHeldTicks)
      (command : Command) (quiet : command.fire = false ∧ command.reload = false)
      (movement : command.movement = last.movement) :
      Called pacer first due (some command)
        { pacer with slot := offsetOf due first + 1, held := pacer.held + 1 }
  | stopped (free : pacer.slot ≤ offsetOf due first)
      (early : ∀ leave ∈ pacer.leave, offsetOf due first < leave.toUInt64)
      (notDue : ∀ captured ∈ pacer.commands[pacer.sent]?,
        ¬ captured.offset.toUInt64 ≤ offsetOf due first)
      (spent : pacer.last = none ∨ pacer.maxHeldTicks ≤ pacer.held)
      (command : Command) (quiet : command.fire = false ∧ command.reload = false)
      (movement : command.movement =
        { (pacer.last.getD {}).movement with direction := {}, sprint := false }) :
      Called pacer first due (some command) { pacer with slot := offsetOf due first + 1 }

section
variable {pacer : Pacer} {first due : Tick}

theorem commandBeforeLeave_iff :
    pacer.commandBeforeLeave = true ↔ ∃ leave ∈ pacer.leave,
      ∃ captured ∈ pacer.commands[pacer.sent]?, captured.offset < leave := by
  rw [Pacer.commandBeforeLeave]
  cases pacer.leave with
  | none => simp
  | some leave =>
      cases pacer.commands[pacer.sent]? with
      | none => simp
      | some captured => simp

theorem atLeave_iff {dueOffset : UInt64} :
    (pacer.leave.any fun leave => leave.toUInt64 ≤ dueOffset) = true ↔
      ∃ leave ∈ pacer.leave, leave.toUInt64 ≤ dueOffset := by
  cases pacer.leave with
  | none => simp
  | some leave => simp

theorem toUInt64_lt_iff {a b : UInt32} : a.toUInt64 < b.toUInt64 ↔ a < b := by
  rw [UInt64.lt_iff_toNat_lt, UInt32.lt_iff_toNat_lt, UInt32.toNat_toUInt64, UInt32.toNat_toUInt64]

theorem dueCommand_eq_some {dueOffset : UInt64} {captured : CommandAt} :
    pacer.dueCommand dueOffset = some captured ↔
      pacer.commands[pacer.sent]? = some captured ∧ captured.offset.toUInt64 ≤ dueOffset := by
  rw [Pacer.dueCommand, Option.filter_eq_some_iff]
  simp

/-- One call goes one of the ways of `Called`. -/
theorem called_next (pacer : Pacer) (first due : Tick) :
    Called pacer first due (pacer.next first due).1 (pacer.next first due).2 := by
  rw [Pacer.next]
  simp only
  split_ifs with hnone
  · refine .nothing ?_
    rcases hnone with hslot | ⟨hleave, hbefore⟩
    · exact .inl hslot
    · obtain ⟨leave, hin, hle⟩ := atLeave_iff.mp hleave
      refine .inr ⟨leave, hin, hle, fun captured hnext hlt => hbefore ?_⟩
      exact commandBeforeLeave_iff.mpr ⟨leave, hin, captured, hnext, hlt⟩
  · push Not at hnone
    obtain ⟨hslot, hleave⟩ := hnone
    have hfree : pacer.slot ≤ offsetOf due first := UInt64.not_lt.mp hslot
    -- Where the Leave has come, a Command from before it has yet to go, and is late.
    have hlate : ∀ leave ∈ pacer.leave, leave.toUInt64 ≤ offsetOf due first →
        ∃ captured ∈ pacer.commands[pacer.sent]?, captured.offset < leave := by
      intro leave hin hle
      have hbefore := hleave (atLeave_iff.mpr ⟨leave, hin, hle⟩)
      obtain ⟨other, hother, hcaptured⟩ := commandBeforeLeave_iff.mp hbefore
      rwa [Option.mem_unique hin hother]
    cases hdue : pacer.dueCommand (offsetOf due first) with
    | some captured =>
        obtain ⟨hnext, hoffset⟩ := dueCommand_eq_some.mp hdue
        refine .captured captured hfree hnext hoffset (fun leave hin => ?_) _ rfl
        rcases UInt64.lt_or_le (offsetOf due first) leave.toUInt64 with hlt | hle
        · exact toUInt64_lt_iff.mp (UInt64.lt_of_le_of_lt hoffset hlt)
        · obtain ⟨other, hother, hbefore⟩ := hlate leave hin hle
          rwa [Option.mem_unique hnext hother]
    | none =>
        have hnotDue : ∀ captured ∈ pacer.commands[pacer.sent]?,
            ¬ captured.offset.toUInt64 ≤ offsetOf due first := by
          intro captured hnext hle
          rw [dueCommand_eq_some.mpr ⟨hnext, hle⟩] at hdue
          cases hdue
        have hearly : ∀ leave ∈ pacer.leave, offsetOf due first < leave.toUInt64 := by
          intro leave hin
          by_contra hnot
          have hle := UInt64.not_lt.mp hnot
          obtain ⟨captured, hnext, hbefore⟩ := hlate leave hin hle
          exact hnotDue captured hnext
            (UInt64.le_trans (UInt64.le_of_lt (toUInt64_lt_iff.mpr hbefore)) hle)
        simp only [Pacer.filler]
        split_ifs with hheld
        · obtain ⟨last, hlast⟩ := Option.isSome_iff_exists.mp hheld.2
          refine .held last hfree hearly hnotDue hlast hheld.1 _ ⟨rfl, rfl⟩ ?_
          rw [hlast]
          rfl
        · refine .stopped hfree hearly hnotDue ?_ _ ⟨rfl, rfl⟩ rfl
          rw [not_and_or] at hheld
          rcases hheld with hspent | hlast
          · exact .inr (Nat.not_lt.mp hspent)
          · exact .inl (Option.not_isSome_iff_eq_none.mp hlast)

end

/-! ### What the calls keep -/

/-- A Command sent is what it is to be, after what was sent `before` it. -/
def Fits (script : Script) (first : Tick) (before : List Outgoing) (sent : Outgoing) : Prop :=
  match sent.captured with
  | none => IsFiller script first before sent
  | some captured => IsCaptured script first captured sent ∧
      ∀ leave ∈ script.leave, captured.offset < leave

structure Pacing (script : Script) (first : Tick) (dues : List Tick) (pacer : Pacer)
    (out : List Outgoing) : Prop where
  fixed : pacer.commands = script.commands ∧ pacer.leave = script.leave ∧
    pacer.maxHeldTicks = heldTicks script.tickRateHz
  captured : pacer.sent ≤ script.commands.length ∧
    out.filterMap (·.captured) = script.commands.take pacer.sent
  slot : pacer.slot.toNat = 0 ∨ ∃ due ∈ dues, pacer.slot.toNat = (offsetOf due first).toNat + 1
  taken : ∀ sent ∈ out, offsetOf sent.due first < pacer.slot
  increasing : out.Pairwise fun a b => offsetOf a.due first < offsetOf b.due first
  last : pacer.last.map (·.movement) = (sinceCaptured out).1.map (·.command.movement)
  held : pacer.last.isSome → pacer.held = min (sinceCaptured out).2 pacer.maxHeldTicks
  sound : ∀ before sent after, out = before ++ sent :: after → Fits script first before sent

section
variable {script : Script} {first due : Tick} {dues : List Tick} {pacer : Pacer}
  {out : List Outgoing}

theorem toNat_offsetOf (due first : Tick) :
    (offsetOf due first).toNat = due.toNat - first.toNat := by
  rw [offsetOf]
  split_ifs with h
  · exact UInt64.toNat_sub_of_le _ _ (UInt64.le_of_lt h)
  · have hle := UInt64.le_iff_toNat_le.mp (UInt64.not_lt.mp h)
    rw [UInt64.toNat_zero]
    omega

/-- No tick of a Match is so late that the slot after it wraps. -/
theorem toNat_slot (hfirst : 0 < first) (due : Tick) :
    (offsetOf due first + 1).toNat = (offsetOf due first).toNat + 1 := by
  have hpos := UInt64.lt_iff_toNat_lt.mp hfirst
  have hdue := due.toNat_lt
  have hroom : (offsetOf due first).toNat + 1 < 2 ^ 64 := by
    rw [toNat_offsetOf]
    rw [UInt64.toNat_zero] at hpos
    omega
  rw [UInt64.toNat_add]
  exact Nat.mod_eq_of_lt hroom

theorem sinceCaptured_captured (out : List Outgoing) (due : Tick) (captured : CommandAt)
    (command : Command) :
    sinceCaptured (out ++ [⟨due, some captured, command⟩]) = (some captured, 0) := by
  rw [sinceCaptured, List.foldl_append]
  rfl

theorem sinceCaptured_filler (out : List Outgoing) (due : Tick) (command : Command) :
    sinceCaptured (out ++ [⟨due, none, command⟩]) =
      ((sinceCaptured out).1, (sinceCaptured out).2 + 1) := by
  rw [sinceCaptured, List.foldl_append]
  rfl

/-- What was sent before one of a list with one more. -/
theorem split_concat {last sent : Outgoing} {before after : List Outgoing}
    (h : out ++ [last] = before ++ sent :: after) :
    (before = out ∧ sent = last) ∨ ∃ rest, out = before ++ sent :: rest := by
  rcases List.eq_nil_or_concat after with rfl | ⟨rest, last', rfl⟩
  · obtain ⟨hout, hlast⟩ := List.append_inj' h rfl
    exact .inl ⟨hout.symm, (List.singleton_inj.mp hlast).symm⟩
  · refine .inr ⟨rest, ?_⟩
    rw [List.concat_eq_append, ← List.cons_append, ← List.append_assoc] at h
    exact (List.append_inj' h rfl).1

/-- One more sent, for a slot none was sent for. -/
theorem Pacing.slot_taken (h : Pacing script first dues pacer out) (hfirst : 0 < first)
    (hfree : pacer.slot ≤ offsetOf due first) (captured : Option CommandAt) (command : Command) :
    (∀ sent ∈ out ++ [(⟨due, captured, command⟩ : Outgoing)],
        offsetOf sent.due first < offsetOf due first + 1) ∧
      (out ++ [(⟨due, captured, command⟩ : Outgoing)]).Pairwise
        fun a b => offsetOf a.due first < offsetOf b.due first := by
  have hbefore : ∀ sent ∈ out, offsetOf sent.due first < offsetOf due first := fun sent hin =>
    UInt64.lt_of_lt_of_le (h.taken sent hin) hfree
  have hnext : offsetOf due first < offsetOf due first + 1 := by
    rw [UInt64.lt_iff_toNat_lt, toNat_slot hfirst]
    exact Nat.lt_succ_self _
  refine ⟨fun sent hin => ?_, List.pairwise_append.mpr ⟨h.increasing, List.pairwise_singleton .., ?_⟩⟩
  · rcases List.mem_append.mp hin with hold | hnew
    · exact UInt64.lt_trans (hbefore sent hold) hnext
    · rw [List.mem_singleton.mp hnew]
      exact hnext
  · intro sent hin last hlast
    rw [List.mem_singleton.mp hlast]
    exact hbefore sent hin

/-- What is sound stays so, and one more is. -/
theorem Pacing.sound_concat (h : Pacing script first dues pacer out) {sent : Outgoing}
    (hsent : Fits script first out sent) : ∀ before other after,
      out ++ [sent] = before ++ other :: after → Fits script first before other := by
  intro before other after hsplit
  rcases split_concat hsplit with ⟨rfl, rfl⟩ | ⟨rest, hold⟩
  · exact hsent
  · exact h.sound before other rest hold

/-- A filler's movement is what the Pacer holds. -/
theorem Pacing.heldMovement_eq (h : Pacing script first dues pacer out) :
    heldMovement (heldTicks script.tickRateHz) (sinceCaptured out) =
      if pacer.last.isSome ∧ pacer.held < pacer.maxHeldTicks then (pacer.last.getD {}).movement
      else { (pacer.last.getD {}).movement with direction := {}, sprint := false } := by
  have hlast := h.last
  have hheld := h.held
  rw [← h.fixed.2.2]
  cases hsince : sinceCaptured out with
  | mk captured fillers =>
      rw [hsince] at hlast hheld
      cases captured with
      | none =>
          have hnone : pacer.last = none := by simpa using hlast
          rw [hnone]
          rfl
      | some captured =>
          obtain ⟨last, hsome, hmovement⟩ := Option.map_eq_some_iff.mp hlast
          have hmin : pacer.held = min fillers pacer.maxHeldTicks := hheld (by rw [hsome]; rfl)
          have hsame : last.movement = captured.command.movement := hmovement
          rw [hsome, heldMovement, ← hsame]
          by_cases hroom : fillers < pacer.maxHeldTicks
          · rw [if_pos hroom, if_pos ⟨rfl, by omega⟩]
            rfl
          · rw [if_neg hroom, if_neg fun hheld => by omega]
            rfl

theorem pacing_start (script : Script) (first : Tick) :
    Pacing script first [] (.ofScript script) [] where
  fixed := ⟨rfl, rfl, rfl⟩
  captured := ⟨Nat.zero_le _, rfl⟩
  slot := .inl UInt64.toNat_zero
  taken sent hin := by cases hin
  increasing := .nil
  last := rfl
  held hsome := by cases hsome
  sound before sent after h := by simp at h

/-- One more call. -/
theorem pacing_call (hfirst : 0 < first) (h : Pacing script first dues pacer out) (due : Tick) :
    Pacing script first (dues ++ [due]) (Pacer.call first (pacer, out) due).1
      (Pacer.call first (pacer, out) due).2 := by
  have hcalled := called_next pacer first due
  rw [Pacer.call]
  generalize pacer.next first due = result at hcalled ⊢
  obtain ⟨command, after⟩ := result
  have hnewSlot : (offsetOf due first + 1).toNat = 0 ∨
      ∃ other ∈ dues ++ [due], (offsetOf due first + 1).toNat = (offsetOf other first).toNat + 1 :=
    .inr ⟨due, List.mem_append_right _ (List.mem_singleton_self due), toNat_slot hfirst due⟩
  cases hcalled with
  | nothing why =>
      refine { h with slot := ?_ }
      rcases h.slot with hzero | ⟨other, hin, hslot⟩
      · exact .inl hzero
      · exact .inr ⟨other, List.mem_append_left _ hin, hslot⟩
  | captured captured free next isDue beforeLeave command whole =>
      simp only [Nat.succ_ne_self, if_false, next]
      obtain ⟨htaken, hincreasing⟩ := h.slot_taken hfirst free (some captured) command
      have hnext : script.commands[pacer.sent]? = some captured := h.fixed.1 ▸ next
      obtain ⟨hlt, hget⟩ := List.getElem?_eq_some_iff.mp hnext
      refine ⟨h.fixed, ⟨hlt, ?_⟩, hnewSlot, htaken, hincreasing, ?_, ?_, h.sound_concat ?_⟩
      · rw [List.filterMap_append, h.captured.2, List.take_add_one, hnext]
        rfl
      · rw [sinceCaptured_captured, whole]
        rfl
      · rw [sinceCaptured_captured]
        intro _
        exact (Nat.zero_min _).symm
      · exact ⟨⟨isDue, whole⟩, h.fixed.2.1 ▸ beforeLeave⟩
  | held last free early notDue holding room command quiet movement =>
      simp only [if_true]
      obtain ⟨htaken, hincreasing⟩ := h.slot_taken hfirst free none command
      have hmovement := h.heldMovement_eq
      rw [holding] at hmovement
      have hmin := h.held (by rw [holding]; rfl)
      refine ⟨h.fixed, ⟨h.captured.1, ?_⟩, hnewSlot, htaken, hincreasing, ?_, ?_,
        h.sound_concat ⟨quiet, ?_, h.fixed.2.1 ▸ early⟩⟩
      · rw [List.filterMap_append, h.captured.2]
        exact List.append_nil _
      · rw [sinceCaptured_filler]
        exact h.last
      · intro _
        rw [sinceCaptured_filler]
        simp only
        omega
      · rw [movement, hmovement, if_pos ⟨rfl, room⟩]
        rfl
  | stopped free early notDue spent command quiet movement =>
      simp only [if_true]
      obtain ⟨htaken, hincreasing⟩ := h.slot_taken hfirst free none command
      refine ⟨h.fixed, ⟨h.captured.1, ?_⟩, hnewSlot, htaken, hincreasing, ?_, ?_,
        h.sound_concat ⟨quiet, ?_, h.fixed.2.1 ▸ early⟩⟩
      · rw [List.filterMap_append, h.captured.2]
        exact List.append_nil _
      · rw [sinceCaptured_filler]
        exact h.last
      · intro hsome
        have hmin := h.held hsome
        rcases spent with hnone | hfull
        · rw [hnone] at hsome
          cases hsome
        · rw [sinceCaptured_filler]
          simp only
          omega
      · rw [movement, h.heldMovement_eq, if_neg]
        rintro ⟨hsome, hroom⟩
        rcases spent with hnone | hfull
        · rw [hnone] at hsome
          cases hsome
        · omega

/-- All the calls. -/
theorem pacing_calls (hfirst : 0 < first) (script : Script) (dues : List Tick) :
    Pacing script first dues (Pacer.calls script first dues).1 (outgoing script first dues) := by
  induction dues using List.reverseRecOn with
  | nil => exact pacing_start script first
  | append_singleton dues due ih =>
      rw [outgoing, Pacer.calls, List.foldl_append, List.foldl_cons, List.foldl_nil]
      exact pacing_call hfirst ih due

/-! ### What goes out in the end -/

/-- A call past every captured Command sends the next, where all are from before the Leave. -/
theorem sent_call (h : Pacing script first dues pacer out)
    (hbefore : ∀ leave ∈ script.leave, ∀ captured ∈ script.commands, captured.offset < leave)
    (hfree : pacer.slot ≤ offsetOf due first) (hleft : pacer.sent < script.commands.length)
    (hpast : ∀ captured ∈ script.commands, captured.offset.toUInt64 < offsetOf due first) :
    (Pacer.call first (pacer, out) due).1.sent = pacer.sent + 1 := by
  have hcalled := called_next pacer first due
  have hnext : pacer.commands[pacer.sent]? = some script.commands[pacer.sent] := by
    rw [h.fixed.1]
    exact List.getElem?_eq_getElem hleft
  have hmem : script.commands[pacer.sent] ∈ script.commands := List.getElem_mem hleft
  rw [Pacer.call]
  generalize pacer.next first due = result at hcalled ⊢
  obtain ⟨command, after⟩ := result
  cases hcalled with
  | nothing why =>
      rcases why with hslot | ⟨leave, hin, -, hnot⟩
      · exact absurd hslot (UInt64.not_lt.mpr hfree)
      · exact absurd (hbefore leave (h.fixed.2.1 ▸ hin) _ hmem) (hnot _ hnext)
  | captured => rfl
  | held last free early notDue =>
      exact absurd (UInt64.le_of_lt (hpast _ hmem)) (notDue _ hnext)
  | stopped free early notDue =>
      exact absurd (UInt64.le_of_lt (hpast _ hmem)) (notDue _ hnext)

/-- No call takes back what went out. -/
theorem sent_le_call (first due : Tick) (s : Pacer × List Outgoing) :
    s.1.sent ≤ (Pacer.call first s due).1.sent := by
  have hcalled := called_next s.1 first due
  rw [Pacer.call]
  generalize s.1.next first due = result at hcalled ⊢
  obtain ⟨command, after⟩ := result
  cases hcalled with
  | captured => exact Nat.le_succ _
  | nothing | held | stopped => exact Nat.le_refl _

/-- A tick later than all those called for, and past a captured Command, has its slot free. -/
theorem Pacing.slot_free (h : Pacing script first dues pacer out)
    (hlater : ∀ other ∈ dues, other < due) (hpast : 0 < offsetOf due first) :
    pacer.slot ≤ offsetOf due first := by
  rw [UInt64.le_iff_toNat_le]
  rcases h.slot with hzero | ⟨other, hin, hslot⟩
  · omega
  · have hlt := UInt64.lt_iff_toNat_lt.mp (hlater other hin)
    rw [UInt64.lt_iff_toNat_lt, UInt64.toNat_zero, toNat_offsetOf] at hpast
    rw [hslot, toNat_offsetOf, toNat_offsetOf]
    omega

theorem past_iff : past script first due = true ↔
    ∀ captured ∈ script.commands, captured.offset.toUInt64 < offsetOf due first := by
  simp [past]

/-- Each later tick past them all sends one more, till none is left. -/
theorem sent_later (hfirst : 0 < first)
    (hbefore : ∀ leave ∈ script.leave, ∀ captured ∈ script.commands, captured.offset < leave)
    (earlier later : List Tick) (hlater : later.Pairwise (· < ·))
    (hafter : ∀ due ∈ earlier, ∀ next ∈ later, due < next) :
    min (later.filter (past script first)).length script.commands.length ≤
      (Pacer.calls script first (earlier ++ later)).1.sent := by
  induction later using List.reverseRecOn with
  | nil => exact Nat.le_trans (Nat.min_le_left ..) (Nat.zero_le _)
  | append_singleton later due ih =>
      obtain ⟨hbefore_due, -, hlast⟩ := List.pairwise_append.mp hlater
      have hsent := ih hbefore_due fun other hin next hnext =>
        hafter other hin next (List.mem_append_left _ hnext)
      have hpacing := pacing_calls hfirst script (earlier ++ later)
      have hmore : Pacer.calls script first (earlier ++ (later ++ [due])) =
          Pacer.call first (Pacer.calls script first (earlier ++ later)) due := by
        rw [← List.append_assoc, Pacer.calls, List.foldl_append]
        rfl
      have hle := sent_le_call first due (Pacer.calls script first (earlier ++ later))
      rw [hmore, List.filter_append, List.length_append]
      by_cases hpast : past script first due = true
      · rw [List.filter_cons_of_pos hpast, List.filter_nil, List.length_singleton]
        rcases Nat.lt_or_ge (Pacer.calls script first (earlier ++ later)).1.sent
          script.commands.length with hleft | hall
        · have hall := past_iff.mp hpast
          have hpos : 0 < offsetOf due first :=
            UInt64.lt_of_le_of_lt UInt64.zero_le (hall _ (List.getElem_mem hleft))
          have hnew : ∀ other ∈ earlier ++ later, other < due := by
            intro other hin
            rcases List.mem_append.mp hin with hold | hrecent
            · exact hafter other hold due (List.mem_append_right _ (List.mem_singleton_self due))
            · exact hlast other hrecent due (List.mem_singleton_self due)
          have hstep := sent_call hpacing hbefore (hpacing.slot_free hnew hpos) hleft hall
          change (Pacer.call first (Pacer.calls script first (earlier ++ later)) due).1.sent = _ at hstep
          omega
        · omega
      · rw [List.filter_cons_of_neg hpast, List.filter_nil, List.length_nil]
        omega

end

/-! ### The law -/

section
variable {script : Script} {first : Tick}

theorem paces_of_before (hfirst : 0 < first)
    (hbefore : ∀ leave ∈ script.leave, ∀ captured ∈ script.commands, captured.offset < leave) :
    Paces script first where
  inOrder dues := by
    rw [(pacing_calls hfirst script dues).captured.2]
    exact List.take_prefix ..
  captured dues sent hin captured hcaptured := by
    obtain ⟨before, after, hsplit⟩ := List.append_of_mem hin
    have hsound := (pacing_calls hfirst script dues).sound before sent after hsplit
    rw [Fits, hcaptured] at hsound
    exact hsound.1
  onePerTick dues := by
    rw [List.pairwise_map]
    refine (pacing_calls hfirst script dues).increasing.imp fun hlt => ?_
    rw [UInt64.lt_iff_toNat_lt, toNat_offsetOf, toNat_offsetOf] at hlt
    rw [UInt64.lt_iff_toNat_lt]
    omega
  fillers dues before sent after hsplit hfiller := by
    have hsound := (pacing_calls hfirst script dues).sound before sent after hsplit
    rwa [Fits, hfiller] at hsound
  complete earlier later hlater hafter henough := by
    have hpacing := pacing_calls hfirst script (earlier ++ later)
    have hsent := sent_later hfirst hbefore earlier later hlater hafter
    rw [hpacing.captured.2, List.take_of_length_le (by omega)]

/-- What goes out at all is from before the Leave. -/
theorem captured_before (hfirst : 0 < first) {dues : List Tick} {captured : CommandAt}
    (h : captured ∈ (outgoing script first dues).filterMap (·.captured)) :
    ∀ leave ∈ script.leave, captured.offset < leave := by
  obtain ⟨sent, hin, hcaptured⟩ := List.mem_filterMap.mp h
  obtain ⟨before, after, hsplit⟩ := List.append_of_mem hin
  have hsound := (pacing_calls hfirst script dues).sound before sent after hsplit
  rw [Fits, hcaptured] at hsound
  exact hsound.2

/-- The `count` ticks from `2 ^ 32` past the first: past every offset there is. -/
def lateTicks (first : Tick) (count : ℕ) : List Tick :=
  (List.range count).map fun i => UInt64.ofNat (first.toNat + 2 ^ 32 + i)

theorem toNat_lateTick {count i : ℕ} (hroom : first.toNat + 2 ^ 32 + count ≤ 2 ^ 64)
    (hi : i < count) :
    (UInt64.ofNat (first.toNat + 2 ^ 32 + i)).toNat = first.toNat + 2 ^ 32 + i := by
  have hlt : first.toNat + 2 ^ 32 + i < 2 ^ 64 := by omega
  exact UInt64.toNat_ofNat_of_lt hlt

theorem lateTicks_increasing {count : ℕ} (hroom : first.toNat + 2 ^ 32 + count ≤ 2 ^ 64) :
    (lateTicks first count).Pairwise (· < ·) := by
  rw [lateTicks, List.pairwise_map]
  refine List.pairwise_lt_range.imp_of_mem fun {i j} hi hj hlt => ?_
  rw [UInt64.lt_iff_toNat_lt, toNat_lateTick hroom (List.mem_range.mp hi),
    toNat_lateTick hroom (List.mem_range.mp hj)]
  omega

theorem past_lateTicks {count : ℕ} (hroom : first.toNat + 2 ^ 32 + count ≤ 2 ^ 64) :
    ∀ due ∈ lateTicks first count, past script first due = true := by
  intro due hin
  obtain ⟨i, hi, rfl⟩ := List.mem_map.mp hin
  refine past_iff.mpr fun captured _ => ?_
  have hoffset := captured.offset.toNat_lt
  rw [UInt64.lt_iff_toNat_lt, toNat_offsetOf, UInt32.toNat_toUInt64,
    toNat_lateTick hroom (List.mem_range.mp hi)]
  omega

/-- Called on, the Pacer would send even what is not from before the Leave. -/
theorem before_of_paces (hfirst : 0 < first)
    (hroom : first.toNat + 2 ^ 32 + script.commands.length ≤ 2 ^ 64) (h : Paces script first) :
    ∀ leave ∈ script.leave, ∀ captured ∈ script.commands, captured.offset < leave := by
  intro leave hleave captured hcaptured
  have henough : script.commands.length ≤
      ((lateTicks first script.commands.length).filter (past script first)).length := by
    rw [List.filter_eq_self.mpr (past_lateTicks hroom), lateTicks, List.length_map,
      List.length_range]
  have hall := h.complete [] (lateTicks first script.commands.length)
    (lateTicks_increasing hroom) (fun _ hin => by cases hin) henough
  rw [List.nil_append] at hall
  rw [← hall] at hcaptured
  exact captured_before hfirst hcaptured leave hleave

/-- CORRECT: a Pacer keeps its contract with a player's captured Commands exactly where each of
    them is from before the offset of the player's Leave, if it has one. -/
theorem pacer_law {capture : Capture.MatchCapture} {player : Capture.Player}
    (hread : Script.read capture player = some script) (hfirst : 0 < first)
    (hroom : first.toNat + 2 ^ 32 + script.commands.length ≤ 2 ^ 64) :
    script.commands = capture.events.filterMap (commandOf player) ∧
      (Paces script first ↔
        ∀ leave ∈ script.leave, ∀ captured ∈ script.commands, captured.offset < leave) :=
  ⟨(Script.read_eq_some hread).2.2.2.1, before_of_paces hfirst hroom, paces_of_before hfirst⟩

end

/-! ### A player who leaves -/

/-- A Match of one player, `entity` its body: its Commands of `ticks`, its Leave of a tick if it
    left, and the Match end. -/
def leavingCapture (ticks : List Tick) (left : Option Tick) (last : Tick) : Capture.MatchCapture :=
  let entrant : Host.CaptureEntrant := ⟨5, 1, "soldier", {}⟩
  let started := ({ header := {} } : Host.Capturer).opened ⟨9, [entrant], 100, 0⟩
  let (capturer, _) := started.enter entrant
  { header := { tickRateHz := 60 }
    joins := [⟨5, "soldier", {}⟩]
    events :=
      ticks.filterMap (fun tick => capturer.command tick 1 { fire := true, seenTick := 98 }) ++
        left.toList.filterMap (fun tick => capturer.leave tick 1) ++
          (capturer.endMatch last none).toList }

/-- Three Commands, the last two a tick apart, and a Leave two ticks after them. -/
theorem pacer_law_stays : ∃ script,
    Script.read (leavingCapture [100, 103, 104] (some 106) 109) 1 = some script ∧
      script.commands.map (·.offset) = [0, 3, 4] ∧ script.leave = some 6 ∧ Paces script 1 := by
  have hkept : (Script.read (leavingCapture [100, 103, 104] (some 106) 109) 1).map
      (fun script => (script.commands.map (·.offset), script.leave)) =
        some ([0, 3, 4], some 6) := by decide +kernel
  obtain ⟨script, hread, hkept⟩ := Option.map_eq_some_iff.mp hkept
  obtain ⟨hoffsets, hleave⟩ := Prod.mk.inj hkept
  have hlength : script.commands.length = 3 := by
    rw [← List.length_map (·.offset), hoffsets]
    rfl
  have hbefore :
      (script.commands.map (·.offset)).all (fun offset => decide (offset < 6)) = true := by
    rw [hoffsets]
    rfl
  refine ⟨script, hread, hoffsets, hleave, ?_⟩
  refine (pacer_law hread (by decide) (by rw [hlength]; decide)).2.mpr ?_
  intro leave hin captured hcaptured
  rw [hleave] at hin
  cases hin
  exact of_decide_eq_true (List.all_eq_true.mp hbefore _ (List.mem_map_of_mem hcaptured))

/-- The player's connection ended while the Match's last tick ran: it left the ended Match, its
    Leave at the offset of the Command it had sent, which never goes out. -/
theorem last_command_dropped : ∃ script,
    Script.read (leavingCapture [100] (some 100) 100) 1 = some script ∧
    script.commands.map (·.offset) = [0] ∧ script.leave = some 0 ∧
    (∀ dues, (outgoing script 1 dues).filterMap (·.captured) = []) ∧ ¬ Paces script 1 := by
  refine ⟨_, rfl, rfl, rfl, fun dues => ?_, fun h => ?_⟩
  · refine List.eq_nil_iff_forall_not_mem.mpr fun captured hin => ?_
    have hbefore := captured_before (by decide) hin 0 rfl
    exact absurd hbefore (UInt32.not_lt.mpr UInt32.zero_le)
  · have hbefore := before_of_paces (by decide) (by decide) h 0 rfl _ (List.mem_singleton_self _)
    revert hbefore
    decide

end Augusta.Harness
