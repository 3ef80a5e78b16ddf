import Augusta.Host.CapturePipeline
import Augusta.Host.CaptureRun

/-! What the Simulation thread's calls and the writer have of each other, over any run.

      made m      header, Join, …, event, event, event, …      what the Match made
      pushed m    header, Join, …, event                       what the writer was handed of it

    As long as the Match open is neither refused nor lost, all it made is handed over; once it is,
    its capture is stopped until its file is closed, so nothing after the gap is. -/

namespace Augusta.Host
open Lib (entriesOf)
open Capture

def IsHeader : Piece → Prop
  | .header _ => True
  | _ => False

namespace Captures
variable {encode : Encode}

/-- What the Match made, its header first. -/
def pieces (s : Captures) (m : MatchId) : List Piece := entriesOf m s.made

def Opening (s : Captures) : Prop := ∃ start, s.doing = .opening start

/-- Its header first, and no other. -/
def Headed (m : MatchId) (pieces : List Piece) : Prop :=
  ∃ header rest, pieces = .header header :: rest ∧ header.match_ = m ∧ ∀ p ∈ rest, ¬ IsHeader p

/-- Nothing of the Match has happened yet. -/
structure Untouched (made : List (MatchId × Piece)) (w : Writer) (m : MatchId) : Prop where
  made : entriesOf m made = []
  pushed : entriesOf m w.pushed = []
  lost : m ∉ w.lost
  refused : m ∉ w.refused
  unclosed : Item.kClose m ∉ w.items

/-- What the Simulation thread's calls and the writer have of each other. -/
structure Sound (encode : Encode) (s : Captures) : Prop where
  pipeline : s.writer.Pipeline
  health : s.writer.HealthSound
  fresh : ∀ m, m ∉ s.begun ∨ s.Opening ∧ m = s.capturer.match_ →
    Untouched s.made s.writer m
  starting : ∀ start, s.doing = .starting start →
    start.match_ ∉ s.begun ∧ s.capturer.isOpen = false
  opening : ∀ start, s.doing = .opening start →
    s.writer.finallyOpen = none ∧ s.capturer.match_ = start.match_
  busy : s.capturer.isOpen = false → s.doing = .nothing ∨ ∃ start, s.doing = .starting start
  openMatch : s.capturer.isOpen = true → s.capturer.match_ ∈ s.begun ∧
    Item.kClose s.capturer.match_ ∉ s.writer.items ∧
    (s.writer.finallyOpen = none ∨ s.writer.finallyOpen = some s.capturer.match_)
  lostStopped : s.capturer.isOpen = true → s.capturer.match_ ∈ s.writer.lost →
    s.capturer.match_ ∈ s.writer.stopped
  refusedStopped : s.capturer.isOpen = true → s.capturer.match_ ∈ s.writer.refused →
    s.capturer.match_ ∈ s.writer.stopped ∨ s.writer.health = .stopped
  openFile : s.capturer.isOpen = true → ¬ s.Opening → s.capturer.match_ ∉ s.writer.stopped →
    s.writer.finallyOpen = some s.capturer.match_
  closed : s.capturer.isOpen = false →
    s.writer.finallyOpen = none ∨ s.writer.health = .stopped
  admitted : ∀ m, (entriesOf m s.writer.pushed).map Except.ok <+: (s.pieces m).map encode
  whole : ∀ m ∉ s.writer.refused,
    (entriesOf m s.writer.pushed).map Except.ok = (s.pieces m).map encode
  refusedLost : ∀ m ∈ s.writer.refused, m ∈ s.writer.lost ∨ s.writer.health = .stopped
  headed : ∀ m ∈ s.begun, ¬ (s.Opening ∧ m = s.capturer.match_) → Headed m (s.pieces m)

theorem sound_start (header : Header) (mode : CaptureMode) (capacity : ℕ) :
    Sound encode (start header mode capacity) where
  pipeline := Writer.pipeline_start mode capacity
  health := ⟨fun h => absurd rfl h, fun _ => nofun⟩
  fresh _ _ := ⟨rfl, rfl, by simp [start], by simp [start], by simp [start, Writer.items]⟩
  starting _ h := nomatch h
  opening _ h := nomatch h
  busy _ := .inl rfl
  openMatch h := nomatch h
  lostStopped h := nomatch h
  refusedStopped h := nomatch h
  openFile h := nomatch h
  closed _ := .inl rfl
  admitted _ := List.prefix_rfl
  whole _ _ := rfl
  refusedLost _ h := nomatch h
  headed _ h := nomatch h

/-! ### The writer thread -/

/-- A step of the writer thread takes nothing from what the Simulation thread relies on. -/
theorem Sound.moves {s : Captures} {w : Writer} (h : Sound encode s) (hw : w.Pipeline)
    (hmoves : s.writer.Moves w) : Sound encode { s with writer := w } where
  pipeline := hw
  health := hmoves.sound h.health
  fresh m hm := by
    obtain ⟨hmade, hpushed, hlost, hrefused, hopen⟩ := h.fresh m hm
    refine ⟨hmade, by rw [hmoves.pushed]; exact hpushed, ?_, by rw [hmoves.refused]; exact hrefused,
      fun hclose => hopen (hmoves.items _ hclose)⟩
    intro hnow
    rcases hmoves.lost m hnow with hold | ⟨-, hne⟩
    · exact hlost hold
    · exact hne hpushed
  starting := h.starting
  opening start hstart := by
    obtain ⟨hnone, hmatch⟩ := h.opening start hstart
    refine ⟨?_, hmatch⟩
    rcases hmoves.finallyOpen with hsame | ⟨hafter, -⟩
    · rw [hsame]; exact hnone
    · exact hafter
  busy := h.busy
  openMatch hopen := by
    obtain ⟨hbegun, hclose, hlast⟩ := h.openMatch hopen
    refine ⟨hbegun, fun hnow => hclose (hmoves.items _ hnow), ?_⟩
    rcases hmoves.finallyOpen with hsame | ⟨hafter, -⟩
    · rw [hsame]; exact hlast
    · exact .inl hafter
  lostStopped hopen hlost := by
    obtain ⟨-, hclose, -⟩ := h.openMatch hopen
    rcases hmoves.lost _ hlost with hold | ⟨hstopped, -⟩
    · exact hmoves.stopped _ (h.lostStopped hopen hold) hclose
    · exact hstopped
  refusedStopped hopen hrefused := by
    obtain ⟨-, hclose, -⟩ := h.openMatch hopen
    rw [hmoves.refused] at hrefused
    exact (h.refusedStopped hopen hrefused).imp
      (fun hstopped => hmoves.stopped _ hstopped hclose) hmoves.health
  openFile hopen hopening hstopped := by
    obtain ⟨-, hclose, -⟩ := h.openMatch hopen
    have hwas := h.openFile hopen hopening fun hold => hstopped (hmoves.stopped _ hold hclose)
    rcases hmoves.finallyOpen with hsame | ⟨-, m, hm, hlast⟩
    · rw [hsame]; exact hwas
    · obtain rfl : m = s.capturer.match_ := Option.some.inj (hlast.symm.trans hwas)
      exact absurd hm hstopped
  closed hopen := by
    rcases h.closed hopen with hnone | hhealth
    · left
      rcases hmoves.finallyOpen with hsame | ⟨hafter, -⟩
      · rw [hsame]; exact hnone
      · exact hafter
    · exact .inr (hmoves.health hhealth)
  admitted m := by rw [hmoves.pushed]; exact h.admitted m
  whole m hm := by
    rw [hmoves.refused] at hm
    rw [hmoves.pushed]
    exact h.whole m hm
  refusedLost m hm := by
    rw [hmoves.refused] at hm
    exact (h.refusedLost m hm).imp (hmoves.growing m) hmoves.health
  headed := h.headed

/-! ### What a piece does -/

/-- A piece is the Match's header, its first, or comes after it. -/
def Fits (s : Captures) (piece : Piece) : Prop :=
  s.Opening ∧ (∃ header, piece = .header header ∧ header.match_ = s.capturer.match_) ∨
    ¬ s.Opening ∧ ¬ IsHeader piece

/-- The states the Simulation thread goes on to once a piece is admitted. -/
def Next (doing : Doing) : Prop :=
  doing = .nothing ∨ doing = .ending ∨ ∃ entrants, doing = .joining entrants

theorem Next.not_opening {doing : Doing} (h : Next doing) (start : CaptureStart) :
    doing ≠ .opening start ∧ doing ≠ .starting start := by
  rcases h with rfl | rfl | ⟨entrants, rfl⟩ <;> exact ⟨nofun, nofun⟩

theorem entriesOf_concat_other {α : Type} {m n : MatchId} {log : List (MatchId × α)} {a : α}
    (hne : n ≠ m) : entriesOf n (log ++ [(m, a)]) = entriesOf n log := by
  rw [Lib.entriesOf_append, Lib.entriesOf_other (Ne.symm hne), List.append_nil]

theorem entriesOf_concat_same {α : Type} {m : MatchId} {log : List (MatchId × α)} {a : α} :
    entriesOf m (log ++ [(m, a)]) = entriesOf m log ++ [a] := by
  rw [Lib.entriesOf_append, Lib.entriesOf_same]

/-- A Match with a piece more has its header first all the same. -/
theorem Sound.headed_concat {s : Captures} {piece : Piece} (h : Sound encode s)
    (hfits : s.Fits piece) {m : MatchId} (hm : m ∈ s.begun) :
    Headed m (entriesOf m (s.made ++ [(s.capturer.match_, piece)])) := by
  by_cases hmatch : m = s.capturer.match_
  · subst hmatch
    rw [entriesOf_concat_same]
    rcases hfits with ⟨hopening, header, rfl, hheader⟩ | ⟨hopening, hpiece⟩
    · have hnone := (h.fresh _ (.inr ⟨hopening, rfl⟩)).made
      exact ⟨header, [], by rw [hnone]; rfl, hheader, fun _ hp => nomatch hp⟩
    · obtain ⟨header, rest, hpieces, hheader, hrest⟩ := h.headed _ hm fun hand => hopening hand.1
      rw [pieces] at hpieces
      refine ⟨header, rest ++ [piece], by rw [hpieces]; rfl, hheader, ?_⟩
      intro p hp
      rw [List.mem_append, List.mem_singleton] at hp
      rcases hp with hp | rfl
      · exact hrest p hp
      · exact hpiece
  · rw [entriesOf_concat_other hmatch]
    exact h.headed m hm fun hand => hmatch hand.2

/-- A piece of the Match open that is not queued: its capture has stopped. -/
theorem Sound.refused {s : Captures} {piece : Piece} {w : Writer} {doing : Doing}
    (h : Sound encode s) (hopen : s.capturer.isOpen = true) (hfits : s.Fits piece)
    (hnext : Next doing) (hw : s.writer.Refuses w s.capturer.match_)
    (hfile : s.Opening → s.capturer.match_ ∈ w.stopped) :
    Sound encode
      { s with made := s.made ++ [(s.capturer.match_, piece)], writer := w, doing } where
  pipeline := hw.pipeline h.pipeline
  health := hw.sound h.health
  fresh m hm := by
    have hbegun : m ∉ s.begun := by
      rcases hm with hm | ⟨⟨start, hopening⟩, -⟩
      · exact hm
      · exact absurd hopening (hnext.not_opening start).1
    have hne : m ≠ s.capturer.match_ := fun heq => hbegun (heq ▸ (h.openMatch hopen).1)
    obtain ⟨hmade, hpushed, hlost, hrefused, hclose⟩ := h.fresh m (.inl hbegun)
    refine ⟨(entriesOf_concat_other hne).trans hmade, by rw [hw.pushed]; exact hpushed, ?_, ?_,
      by rw [hw.items]; exact hclose⟩
    · intro hnow
      rcases hw.lost m hnow with hold | ⟨heq, -⟩
      · exact hlost hold
      · exact hne heq
    · intro hnow
      rcases (hw.refused m).mp hnow with hold | heq
      · exact hrefused hold
      · exact hne heq
  starting start hstart := absurd hstart (hnext.not_opening start).2
  opening start hstart := absurd hstart (hnext.not_opening start).1
  busy hclosed := absurd (hopen.symm.trans hclosed) (by decide)
  openMatch _ := by
    obtain ⟨hbegun, hclose, hlast⟩ := h.openMatch hopen
    exact ⟨hbegun, by rw [hw.items]; exact hclose, by rw [hw.finallyOpen]; exact hlast⟩
  lostStopped _ hlost := by
    rcases hw.lost _ hlost with hold | ⟨-, hstopped⟩
    · exact hw.stopped _ (h.lostStopped hopen hold)
    · exact hstopped
  refusedStopped _ _ := hw.stops
  openFile _ _ hstopped := by
    rw [hw.finallyOpen]
    refine h.openFile hopen (fun hopening => hstopped (hfile hopening)) fun hold => ?_
    exact hstopped (hw.stopped _ hold)
  closed hclosed := absurd (hopen.symm.trans hclosed) (by decide)
  admitted m := by
    rw [hw.pushed]
    by_cases hne : m = s.capturer.match_
    · subst hne
      rw [pieces, entriesOf_concat_same, List.map_append]
      exact (h.admitted _).trans (List.prefix_append _ _)
    · rw [pieces, entriesOf_concat_other hne]
      exact h.admitted m
  whole m hm := by
    rw [hw.refused, not_or] at hm
    rw [hw.pushed, pieces, entriesOf_concat_other hm.2]
    exact h.whole m hm.1
  refusedLost m hm := by
    rcases (hw.refused m).mp hm with hold | rfl
    · exact (h.refusedLost m hold).imp (hw.growing m) hw.health
    · exact hw.losing h.pipeline
  headed m hm _ := h.headed_concat hfits hm

/-- A piece of the Match open that is queued: nothing of it was refused. -/
theorem Sound.given {s : Captures} {piece : Piece} {e : Encoded} {item : Item} {doing : Doing}
    (h : Sound encode s) (hopen : s.capturer.isOpen = true) (hfits : s.Fits piece)
    (hnext : Next doing) (hencode : encode piece = .ok e)
    (hframe : item.frameOf s.capturer.match_ = some e)
    (hallowed : item.Allowed s.writer.finallyOpen)
    (hfresh : item.opening = none ∨ entriesOf s.capturer.match_ s.writer.pushed = [])
    (hlost : s.capturer.match_ ∉ s.writer.lost) (hkept : s.capturer.match_ ∉ s.writer.refused)
    (n : ℕ) :
    Sound encode
      { s with
        made := s.made ++ [(s.capturer.match_, piece)]
        writer := { s.writer with
          recordsQueued := n
          queue := s.writer.queue ++ [item]
          pushed := s.writer.pushed ++ [(s.capturer.match_, e)] }
        doing } := by
  have hitems : { s.writer with
      recordsQueued := n
      queue := s.writer.queue ++ [item]
      pushed := s.writer.pushed ++ [(s.capturer.match_, e)] }.items = s.writer.items ++ [item] :=
    s.writer.items_append item
  have hlast : { s.writer with
      recordsQueued := n
      queue := s.writer.queue ++ [item]
      pushed := s.writer.pushed ++ [(s.capturer.match_, e)] }.finallyOpen =
        some s.capturer.match_ := by
    rw [Writer.finallyOpen, hitems, openAfter_concat]
    exact (Item.allowed_frame hframe hallowed).2
  have hclose : ∀ m, Item.kClose m ∈ s.writer.items ++ [item] → Item.kClose m ∈ s.writer.items := by
    intro m hm
    rw [List.mem_append, List.mem_singleton] at hm
    rcases hm with hm | rfl
    · exact hm
    · cases hframe
  exact {
    pipeline := h.pipeline.give hframe hallowed hlost hfresh n
    health := h.health
    fresh := by
      intro m hm
      have hbegun : m ∉ s.begun := by
        rcases hm with hm | ⟨⟨start, hopening⟩, -⟩
        · exact hm
        · exact absurd hopening (hnext.not_opening start).1
      have hne : m ≠ s.capturer.match_ := fun heq => hbegun (heq ▸ (h.openMatch hopen).1)
      obtain ⟨hmade, hpushed, hlost, hrefused, hnone⟩ := h.fresh m (.inl hbegun)
      refine ⟨(entriesOf_concat_other hne).trans hmade, (entriesOf_concat_other hne).trans hpushed,
        hlost, hrefused, fun hnow => hnone (hclose m (hitems ▸ hnow))⟩
    starting := fun start hstart => absurd hstart (hnext.not_opening start).2
    opening := fun start hstart => absurd hstart (hnext.not_opening start).1
    busy := fun hclosed => absurd (hopen.symm.trans hclosed) (by decide)
    openMatch := fun _ => ⟨(h.openMatch hopen).1,
      fun hnow => (h.openMatch hopen).2.1 (hclose _ (hitems ▸ hnow)), .inr hlast⟩
    lostStopped := fun _ => h.lostStopped hopen
    refusedStopped := fun _ => h.refusedStopped hopen
    openFile := fun _ _ _ => hlast
    closed := fun hclosed => absurd (hopen.symm.trans hclosed) (by decide)
    admitted := by
      intro m
      by_cases hne : m = s.capturer.match_
      · subst hne
        rw [pieces, entriesOf_concat_same, entriesOf_concat_same, List.map_append, List.map_append,
          List.map_singleton, List.map_singleton, hencode, h.whole _ hkept]
        exact List.prefix_rfl
      · rw [pieces, entriesOf_concat_other hne, entriesOf_concat_other hne]
        exact h.admitted m
    whole := by
      intro m hm
      by_cases hne : m = s.capturer.match_
      · subst hne
        rw [pieces, entriesOf_concat_same, entriesOf_concat_same, List.map_append, List.map_append,
          List.map_singleton, List.map_singleton, hencode, h.whole _ hkept]
        rfl
      · rw [pieces, entriesOf_concat_other hne, entriesOf_concat_other hne]
        exact h.whole m hm
    refusedLost := h.refusedLost
    headed := fun m hm _ => h.headed_concat hfits hm }

/-- A piece that comes after the header is queued, or refused with its capture stopped. -/
theorem Sound.queue {s : Captures} {piece : Piece} {doing : Doing} (h : Sound encode s)
    (hopen : s.capturer.isOpen = true) (hopening : ¬ s.Opening) (hpiece : ¬ IsHeader piece)
    (hnext : Next doing) (hok : (s.queue encode piece).capturer.failure = false) :
    Sound encode { s.queue encode piece with doing } := by
  have hfits : s.Fits piece := .inr ⟨hopening, hpiece⟩
  unfold Captures.queue Captures.admitted at hok ⊢
  cases hencode : encode piece with
  | ok e =>
    rcases s.writer.push_cases s.capturer.match_ e with hrefuses | ⟨hstopped, hhealth, hpush⟩
    · exact h.refused hopen hfits hnext hrefuses fun hnow => absurd hnow hopening
    · have hlast := h.openFile hopen hopening hstopped
      have hgiven := h.given hopen hfits hnext hencode
        (Item.frameOf_kRecord _ e) hlast (.inl rfl)
        (fun hlost => hstopped (h.lostStopped hopen hlost))
        (fun hrefused => (h.refusedStopped hopen hrefused).elim hstopped hhealth)
        (s.writer.recordsQueued + 1)
      simp only [hpush]
      exact hgiven
  | error error =>
    cases error with
    | failure => simp [hencode] at hok
    | recordTooLong =>
      exact h.refused hopen hfits hnext
        (s.writer.refuses_stopLocked s.capturer.match_ .recordTooLong)
        fun hnow => absurd hnow hopening

/-! ### The Simulation thread -/

/-- What a Capturer has besides the Match open is its own. -/
theorem Sound.recapture {s : Captures} {c : Capturer} (h : Sound encode s)
    (hmatch : c.match_ = s.capturer.match_) (hopen : c.isOpen = s.capturer.isOpen) :
    Sound encode { s with capturer := c } := by
  obtain ⟨header, m, isOpen, firstTick, players, sessions, failure⟩ := c
  cases hmatch
  cases hopen
  exact ⟨h.pipeline, h.health, h.fresh, h.starting, h.opening, h.busy, h.openMatch, h.lostStopped,
    h.refusedStopped, h.openFile, h.closed, h.admitted, h.whole, h.refusedLost, h.headed⟩

/-- The call is over. -/
theorem Sound.done {s : Captures} (h : Sound encode s) (hopening : ¬ s.Opening) :
    Sound encode { s with doing := .nothing } := by
  have hnot : ∀ P : Prop, ¬ ((∃ start, Doing.nothing = .opening start) ∧ P) := by
    rintro P ⟨⟨start, ⟨⟩⟩, _⟩
  exact { h with
    fresh := fun m hm => h.fresh m (hm.imp_right fun hand => absurd hand (hnot _))
    starting := fun start hd => nomatch hd
    opening := fun start hd => nomatch hd
    busy := fun _ => .inl rfl
    openFile := fun hopen _ => h.openFile hopen hopening
    headed := fun m hm _ => h.headed m hm fun hand => hopening hand.1 }

/-- The Match open is closed: its file's Close is queued. -/
theorem Sound.close {s : Captures} {c : Capturer} (h : Sound encode s)
    (hopen : s.capturer.isOpen = true) (hopening : ¬ s.Opening) (hclosed : c.isOpen = false) :
    Sound encode { s with
      capturer := c, doing := .nothing, writer := s.writer.close s.capturer.match_ } := by
  obtain ⟨hbegun, hclose, hlast⟩ := h.openMatch hopen
  have hitems : (s.writer.close s.capturer.match_).items =
      s.writer.items ++ [.kClose s.capturer.match_] := s.writer.items_append _
  have hafter : (s.writer.close s.capturer.match_).finallyOpen = none := by
    rw [Writer.finallyOpen, hitems, openAfter_concat]
    rfl
  have hnot : ∀ P : Prop, ¬ ((∃ start, Doing.nothing = .opening start) ∧ P) := by
    rintro P ⟨⟨start, ⟨⟩⟩, _⟩
  exact {
    pipeline := h.pipeline.close hlast
    health := h.health
    fresh := fun m hm => by
      have hm' : m ∉ s.begun := hm.elim id fun hand => absurd hand (hnot _)
      obtain ⟨hmade, hpushed, hlost, hrefused, hnone⟩ := h.fresh m (.inl hm')
      refine ⟨hmade, hpushed, hlost, hrefused, ?_⟩
      simp only [hitems, List.mem_append, List.mem_singleton, Item.kClose.injEq, not_or]
      exact ⟨hnone, fun heq => hm' (heq ▸ hbegun)⟩
    starting := by rintro start ⟨⟩
    opening := by rintro start ⟨⟩
    busy := fun _ => .inl rfl
    openMatch := fun ho => absurd (ho.symm.trans hclosed) (by decide)
    lostStopped := fun ho => absurd (ho.symm.trans hclosed) (by decide)
    refusedStopped := fun ho => absurd (ho.symm.trans hclosed) (by decide)
    openFile := fun ho => absurd (ho.symm.trans hclosed) (by decide)
    closed := fun _ => .inl hafter
    admitted := h.admitted
    whole := h.whole
    refusedLost := h.refusedLost
    headed := fun m hm _ => h.headed m hm fun hand => hopening hand.1 }

/-- With no Match open, a Match never begun may be about to be. -/
theorem Sound.about_to_start {s : Captures} {start : CaptureStart} (h : Sound encode s)
    (hopen : s.capturer.isOpen = false) (hopening : ¬ s.Opening)
    (hnew : start.match_ ∉ s.begun) : Sound encode { s with doing := .starting start } := by
  have hnot : ∀ P : Prop, ¬ ((∃ start', Doing.starting start = .opening start') ∧ P) :=
    fun P ⟨⟨_, hd⟩, _⟩ => nomatch hd
  exact { h with
    fresh := fun m hm => h.fresh m (hm.imp_right fun hand => absurd hand (hnot _))
    starting := fun start' hd => by cases hd; exact ⟨hnew, hopen⟩
    opening := fun _ hd => nomatch hd
    busy := fun _ => .inr ⟨start, rfl⟩
    openFile := fun ho => absurd (ho.symm.trans hopen) (by decide)
    headed := fun m hm _ => h.headed m hm fun hand => hopening hand.1 }

/-- A Match is begun, once the captures are found not stopped. -/
theorem Sound.begin {s : Captures} {start : CaptureStart} (h : Sound encode s)
    (hdoing : s.doing = .starting start) (hhealth : s.writer.health ≠ .stopped) :
    Sound encode { s with
      capturer := s.capturer.opened start, doing := .opening start
      begun := s.begun ++ [start.match_] } := by
  obtain ⟨hnew, hopen⟩ := h.starting start hdoing
  have hopening : ¬ s.Opening := fun ⟨start', hd⟩ => nomatch hdoing.symm.trans hd
  obtain ⟨hmade, hpushed, hlost, hrefused, hnone⟩ := h.fresh start.match_ (.inl hnew)
  have hlast : s.writer.finallyOpen = none := (h.closed hopen).resolve_right hhealth
  exact {
    pipeline := h.pipeline
    health := h.health
    fresh := by
      rintro m (hm | ⟨-, rfl⟩)
      · rw [List.mem_append, not_or] at hm
        exact h.fresh m (.inl hm.1)
      · exact ⟨hmade, hpushed, hlost, hrefused, hnone⟩
    starting := fun _ hd => nomatch hd
    opening := fun start' hd => by cases hd; exact ⟨hlast, rfl⟩
    busy := fun hclosed => nomatch hclosed
    openMatch := fun _ => ⟨List.mem_append_right _ (List.mem_singleton_self _), hnone, .inl hlast⟩
    lostStopped := fun _ hm => absurd hm hlost
    refusedStopped := fun _ hm => absurd hm hrefused
    openFile := fun _ hnot => absurd ⟨start, rfl⟩ hnot
    closed := fun hclosed => nomatch hclosed
    admitted := h.admitted
    whole := h.whole
    refusedLost := h.refusedLost
    headed := by
      intro m hm hnot
      rw [List.mem_append, List.mem_singleton] at hm
      rcases hm with hm | rfl
      · exact h.headed m hm fun hand => hopening hand.1
      · exact absurd ⟨⟨start, rfl⟩, rfl⟩ hnot }

/-- `Finish` leaves nothing queued, and stops the captures. -/
theorem Sound.finish {s : Captures} {w : Writer} (h : Sound encode s) (hdoing : s.doing = .nothing)
    (hfinish : s.writer.finish = some w) :
    Sound encode { s with writer := w, capturer := { s.capturer with isOpen := false } } := by
  unfold Writer.finish at hfinish
  split_ifs at hfinish
  cases hfinish
  have hopening : ¬ s.Opening := fun ⟨start, hd⟩ => nomatch hdoing.symm.trans hd
  exact { h with
    pipeline := { h.pipeline with }
    health := ⟨fun _ => nofun, fun _ => nofun⟩
    fresh := fun m hm => by
      obtain ⟨hmade, hpushed, hlost, hrefused, hnone⟩ :=
        h.fresh m (hm.imp_right fun hand => absurd hand.1 hopening)
      exact ⟨hmade, hpushed, hlost, hrefused, hnone⟩
    starting := fun start hd => nomatch hdoing.symm.trans hd
    busy := fun _ => .inl hdoing
    openMatch := nofun
    lostStopped := nofun
    refusedStopped := nofun
    openFile := nofun
    closed := fun _ => .inr rfl
    refusedLost := fun _ _ => .inr rfl }

/-- The Match open's header is handed over, or its capture stops. -/
theorem Sound.open {s s' : Captures} {start : CaptureStart} (h : Sound encode s)
    (hdoing : s.doing = .opening start) (hgo : s.goOn encode = some s')
    (hok : s'.capturer.failure = false) : Sound encode s' := by
  have hopening : s.Opening := ⟨start, hdoing⟩
  have hopen : s.capturer.isOpen = true := by
    by_contra hclosed
    rcases h.busy (Bool.eq_false_iff.mpr hclosed) with hd | ⟨start', hd⟩ <;>
      exact nomatch hdoing.symm.trans hd
  obtain ⟨hlast, hmatch⟩ := h.opening start hdoing
  obtain ⟨-, hpushed, hlost, hrefused, -⟩ := h.fresh _ (.inr ⟨hopening, rfl⟩)
  have hfits : s.Fits (.header (s.capturer.headerOf start)) :=
    .inl ⟨hopening, _, rfl, hmatch.symm⟩
  unfold goOn at hgo
  rw [hdoing] at hgo
  simp only [Captures.admitted] at hgo
  cases hencode : encode (.header (s.capturer.headerOf start)) with
  | ok e =>
    simp only [hencode] at hgo
    cases hgo
    exact h.given hopen hfits (.inr (.inr ⟨start.players, rfl⟩)) hencode
      (Item.frameOf_kOpen _ e) hlast (.inr hpushed) hlost hrefused s.writer.recordsQueued
  | error error =>
    simp only [hencode] at hgo
    cases error with
    | failure => cases hgo; cases hok
    | recordTooLong =>
      cases hgo
      have hrefuses := s.writer.refuses_stopLocked s.capturer.match_ .recordTooLong
      exact h.refused hopen hfits (.inl rfl) hrefuses fun _ =>
        s.writer.mem_stopLocked s.capturer.match_ .recordTooLong

/-- Once a record the codec cannot carry is made, it stays so. -/
theorem failure_admitted {s : Captures} {piece : Piece} {give : Writer → Encoded → Writer}
    (hok : (s.admitted encode piece give).capturer.failure = false) :
    s.capturer.failure = false ∧ (s.admitted encode piece give).capturer = s.capturer := by
  unfold Captures.admitted at hok ⊢
  cases hencode : encode piece with
  | ok e => simp only [hencode] at hok; exact ⟨hok, rfl⟩
  | error error =>
    simp only [hencode] at hok
    cases error with
    | failure => cases hok
    | recordTooLong => exact ⟨hok, rfl⟩

theorem Sound.goOn {s s' : Captures} (h : Sound encode s) (hgo : s.goOn encode = some s')
    (hok : s'.capturer.failure = false) : Sound encode s' := by
  have hbusy : s.doing ≠ .nothing → (∀ start, s.doing ≠ .starting start) →
      s.capturer.isOpen = true := by
    intro hnothing hstarting
    by_contra hclosed
    rcases h.busy (Bool.eq_false_iff.mpr hclosed) with hd | ⟨start', hd⟩
    · exact hnothing hd
    · exact hstarting start' hd
  obtain ⟨capturer, doing, writer, begun, made⟩ := s
  cases doing with
  | nothing => cases hgo
  | starting start =>
    simp only [Captures.goOn] at hgo
    split_ifs at hgo with hhealth
    · cases hgo
      exact h.done fun ⟨_, hd⟩ => nomatch hd
    · cases hgo
      exact h.begin rfl hhealth
  | opening start => exact h.open rfl hgo hok
  | joining entrants =>
    have hopening : ¬ Opening ⟨capturer, .joining entrants, writer, begun, made⟩ :=
      fun ⟨_, hd⟩ => nomatch hd
    cases entrants with
    | nil =>
      cases hgo
      exact h.done hopening
    | cons entrant rest =>
      cases hgo
      have h' := h.recapture (c := (capturer.enter entrant).1) rfl rfl
      exact h'.queue (hbusy nofun nofun) hopening id
        (.inr (.inr ⟨rest, rfl⟩)) hok
  | ending =>
    cases hgo
    exact h.close (hbusy nofun nofun) (fun ⟨_, hd⟩ => nomatch hd) rfl

/-- An event makes a record only of the Match open. -/
theorem Sound.event {s : Captures} {record : Option EventAt} (h : Sound encode s)
    (hdoing : s.doing = .nothing) (hrecord : record ≠ none → s.capturer.isOpen = true)
    (hok : (s.event encode record).capturer.failure = false) :
    Sound encode (s.event encode record) := by
  cases record with
  | none => exact h
  | some record =>
    have hopening : ¬ s.Opening := fun ⟨start, hd⟩ => nomatch hdoing.symm.trans hd
    have hqueue : Sound encode { s.queue encode (.event record) with doing := .nothing } :=
      h.queue (hrecord nofun) hopening (fun hp => hp) (.inl rfl) hok
    have hsame : { s.queue encode (.event record) with doing := .nothing } =
        s.queue encode (.event record) := by
      rw [← hdoing]
      unfold Captures.queue Captures.admitted
      cases encode (.event record) with
      | ok e => rfl
      | error error => cases error <;> rfl
    rwa [hsame] at hqueue

theorem Sound.step {s s' : Captures} {event : CaptureEvent} (h : Sound encode s)
    (hstep : s.step encode event = some s') (hok : s'.capturer.failure = false) :
    Sound encode s' := by
  have hopening : s.doing = .nothing → ¬ s.Opening :=
    fun hdoing ⟨start, hd⟩ => nomatch hdoing.symm.trans hd
  cases event with
  | startMatch start =>
    simp only [Captures.step, Captures.startMatch] at hstep
    split_ifs at hstep with hnew hopen
    · cases hstep
      have hclosed := h.close (c := { s.capturer with isOpen := false }) hopen (hopening hnew.1) rfl
      exact hclosed.about_to_start rfl (fun ⟨_, hd⟩ => nomatch hd) hnew.2
    · cases hstep
      exact h.about_to_start (Bool.eq_false_iff.mpr hopen) (hopening hnew.1) hnew.2
  | command tick entity command =>
    simp only [Captures.step] at hstep
    split_ifs at hstep with hdoing
    cases hstep
    refine h.event hdoing (fun hne => ?_) hok
    by_contra hopen
    exact hne (if_pos (.inl hopen))
  | leave tick entity =>
    simp only [Captures.step] at hstep
    split_ifs at hstep with hdoing
    cases hstep
    refine h.event hdoing (fun hne => ?_) hok
    by_contra hopen
    exact hne (if_pos (.inl hopen))
  | death tick victim killer =>
    simp only [Captures.step] at hstep
    split_ifs at hstep with hdoing
    cases hstep
    refine h.event hdoing (fun hne => ?_) hok
    by_contra hopen
    exact hne (if_pos (.inl hopen))
  | endMatch lastTick winner =>
    simp only [Captures.step] at hstep
    split_ifs at hstep with hdoing
    cases hrecord : s.capturer.endMatch lastTick winner with
    | none => rw [hrecord] at hstep; cases hstep; exact h
    | some record =>
      rw [hrecord] at hstep
      cases hstep
      have hopen : s.capturer.isOpen = true := by
        by_contra hclosed
        rw [Capturer.endMatch, if_pos hclosed] at hrecord
        cases hrecord
      exact h.queue hopen (hopening hdoing) (fun hp => hp) (.inr (.inl rfl)) hok
  | finish =>
    simp only [Captures.step] at hstep
    split_ifs at hstep with hdoing
    rw [Option.map_eq_some_iff] at hstep
    obtain ⟨w, hfinish, rfl⟩ := hstep
    exact h.finish hdoing hfinish
  | goOn => exact h.goOn hstep hok
  | take =>
    simp only [Captures.step, Option.map_eq_some_iff] at hstep
    obtain ⟨w, htake, rfl⟩ := hstep
    exact h.moves (h.pipeline.take htake).1 (.take h.pipeline htake)
  | handle disk =>
    simp only [Captures.step, Option.map_eq_some_iff] at hstep
    obtain ⟨w, hhandle, rfl⟩ := hstep
    obtain ⟨hw, hmoves⟩ := h.pipeline.handle hhandle
    exact h.moves hw hmoves
  | note =>
    simp only [Captures.step, Option.map_eq_some_iff] at hstep
    obtain ⟨w, hnote, rfl⟩ := hstep
    obtain ⟨hw, hmoves⟩ := h.pipeline.note hnote
    exact h.moves hw hmoves

/-! ### Runs -/

/-- Once a record the codec cannot carry is made, that is not forgotten. -/
theorem failure_goOn {s s' : Captures} (hgo : s.goOn encode = some s')
    (hok : s'.capturer.failure = false) : s.capturer.failure = false := by
  obtain ⟨capturer, doing, writer, begun, made⟩ := s
  cases doing with
  | nothing => cases hgo
  | starting start =>
    simp only [Captures.goOn] at hgo
    split_ifs at hgo <;> cases hgo <;> exact hok
  | opening start =>
    simp only [Captures.goOn] at hgo
    split at hgo <;> cases hgo <;> exact (failure_admitted hok).1
  | joining entrants =>
    cases entrants with
    | nil => cases hgo; exact hok
    | cons entrant rest =>
      cases hgo
      exact (failure_admitted hok).1
  | ending => cases hgo; exact hok

theorem failure_event {s : Captures} {record : Option EventAt}
    (hok : (s.event encode record).capturer.failure = false) : s.capturer.failure = false := by
  cases record with
  | none => exact hok
  | some record => exact (failure_admitted hok).1

theorem failure_step {s s' : Captures} {event : CaptureEvent}
    (hstep : s.step encode event = some s') (hok : s'.capturer.failure = false) :
    s.capturer.failure = false := by
  cases event with
  | startMatch start =>
    simp only [Captures.step, Captures.startMatch] at hstep
    split_ifs at hstep <;> cases hstep <;> exact hok
  | command tick entity command =>
    simp only [Captures.step] at hstep
    split_ifs at hstep
    cases hstep
    exact failure_event hok
  | leave tick entity =>
    simp only [Captures.step] at hstep
    split_ifs at hstep
    cases hstep
    exact failure_event hok
  | death tick victim killer =>
    simp only [Captures.step] at hstep
    split_ifs at hstep
    cases hstep
    exact failure_event hok
  | endMatch lastTick winner =>
    simp only [Captures.step] at hstep
    split_ifs at hstep
    split at hstep <;> cases hstep
    · exact (failure_admitted hok).1
    · exact hok
  | goOn => exact failure_goOn hstep hok
  | finish =>
    simp only [Captures.step] at hstep
    split_ifs at hstep
    rw [Option.map_eq_some_iff] at hstep
    obtain ⟨w, -, rfl⟩ := hstep
    exact hok
  | take =>
    simp only [Captures.step, Option.map_eq_some_iff] at hstep
    obtain ⟨w, -, rfl⟩ := hstep
    exact hok
  | handle disk =>
    simp only [Captures.step, Option.map_eq_some_iff] at hstep
    obtain ⟨w, -, rfl⟩ := hstep
    exact hok
  | note =>
    simp only [Captures.step, Option.map_eq_some_iff] at hstep
    obtain ⟨w, -, rfl⟩ := hstep
    exact hok

/-- The invariant holds after every run none of whose records the codec could not carry. -/
theorem sound_run {header : Header} {mode : CaptureMode} {capacity : ℕ}
    {events : List CaptureEvent} {s : Captures}
    (hrun : (start header mode capacity).run encode events = some s)
    (hok : s.capturer.failure = false) : Sound encode s := by
  refine Lib.run.invariant (I := fun s => s.capturer.failure = false → Sound encode s)
    (fun hs hstep hok => ?_) (fun _ => sound_start header mode capacity) hrun hok
  exact (hs (failure_step hstep hok)).step hstep hok

end Captures
end Augusta.Host
