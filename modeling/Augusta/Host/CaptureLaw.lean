import Augusta.Host.CaptureSound

/-! A capture file is a gapless prefix of its own Match's records, whatever the two threads do and
    however the disk fails.

      made m     header, Join, …, event, event, event, …      what the Match made
      files m    header, Join, …, ev                          what is on disk, torn if its write failed -/

namespace Augusta.Host
open Lib (entriesOf)
open Capture

namespace Captures
variable {encode : Encode}

/-! ### Captures that have stopped -/

/-- What a step makes of the captures' health, and of captures that have stopped: nothing more is
    queued, the header of a Match already begun apart. -/
structure Keeps (s s' : Captures) : Prop where
  mode : s'.writer.mode = s.writer.mode
  stays : s.writer.health = .stopped → s'.writer.health = .stopped
  begun : s.writer.health = .stopped → s'.begun = s.begun
  shut : s.writer.health = .stopped → ¬ s.Opening →
    ¬ s'.Opening ∧ s'.writer.pushed = s.writer.pushed
  opening : s.writer.health = .stopped → s.Opening →
    s'.Opening ∧ s'.capturer.match_ = s.capturer.match_ ∧ s'.writer.pushed = s.writer.pushed ∨
      ¬ s'.Opening ∧ (s'.writer.pushed = s.writer.pushed ∨
        ∃ e, s'.writer.pushed = s.writer.pushed ++ [(s.capturer.match_, e)])
  optional : s.writer.mode = .optional → s.writer.health ≠ .stopped →
    s'.writer.health ≠ .stopped

/-- `bytes` are the first of `pieces`, whole and in order, and some of the next where a write of
    the Match was `broken`; with none broken the header is whole and nothing is torn. -/
def Gapless (encode : Encode) (pieces : List Piece) (broken : Prop) (bytes : Encoded) : Prop :=
  ∃ (frames : List Encoded) (torn : Encoded), bytes = frames.flatten ++ torn ∧
    frames.map Except.ok <+: pieces.map encode ∧
    (¬ broken → frames ≠ [] ∧ torn = []) ∧
    (torn ≠ [] → ∃ next, torn <+: next ∧
      (frames ++ [next]).map Except.ok <+: pieces.map encode)

/-- What was handed to the writer being the first of `pieces`, its file is gapless. -/
theorem gapless_file {w : Writer} {m : MatchId} {pieces : List Piece} {bytes : Encoded}
    (h : w.Pipeline)
    (hpieces : (entriesOf m w.pushed).map Except.ok <+: pieces.map encode)
    (hfile : w.files.lookup m = some bytes) : Gapless encode pieces (m ∈ w.broken) bytes := by
  have hpieces : ∀ frames, frames <+: entriesOf m w.pushed →
      frames.map Except.ok <+: pieces.map encode := fun frames hframes =>
    (hframes.map _).trans hpieces
  by_cases hbroken : m ∈ w.broken
  · obtain ⟨next, torn, hbytes, hheld, hnext⟩ := h.torn m hbroken bytes hfile
    refine ⟨w.written m, torn, hbytes, hpieces _ (h.flowFailed m), fun hnot => absurd hbroken hnot,
      fun _ => ⟨next, (List.prefix_append _ _).trans hheld, hpieces _ hnext⟩⟩
  · obtain ⟨hbytes, hwritten⟩ := h.intact m hbroken bytes hfile
    exact ⟨w.written m, [], by rw [hbytes, List.append_nil], hpieces _ (h.flowFailed m),
      fun _ => ⟨hwritten, rfl⟩, fun hne => absurd rfl hne⟩

end Captures
end Augusta.Host
