import Augusta.Host.Capturer
import Augusta.Host.CaptureWriter
import Augusta.Lib.Run

/-! A server's captures: the Simulation thread's calls of its Capturer, each a step for each time
    it takes the writer's lock, and the writer thread's own steps, in any order.

      StartMatch ─▶ starting ─▶ opening ─▶ joining … ─▶ nothing     (the health, the header, a Join)
      EndMatch ─▶ ending ─▶ nothing                                 (the Match end, then the Close) -/

namespace Augusta.Host
open Capture

/-- Where the Simulation thread is in its call. -/
inductive Doing
  | nothing
  /-- About to look at the captures' health. -/
  | starting (start : CaptureStart)
  | opening (start : CaptureStart)
  /-- About to queue the Joins of these. -/
  | joining (entrants : List CaptureEntrant)
  /-- About to queue the Close. -/
  | ending
  deriving DecidableEq

structure Captures where
  capturer : Capturer
  doing : Doing := .nothing
  writer : Writer
  /-- The Matches whose capture was begun. -/
  begun : List MatchId := []
  /-- Every piece each Match made, oldest first. -/
  made : List (MatchId × Piece) := []

inductive CaptureEvent
  | startMatch (start : CaptureStart)
  | command (tick : Tick) (entity : EntityId) (command : Augusta.Command)
  | leave (tick : Tick) (entity : EntityId)
  | death (tick : Tick) (victim killer : EntityId)
  | endMatch (lastTick : Tick) (winner : Option SessionId)
  | finish
  /-- The Simulation thread goes on with its call. -/
  | goOn
  /-- The writer thread takes an item, handles it, notes that it failed. -/
  | take
  | handle (disk : Disk)
  | note

namespace Captures
variable (encode : Encode)

/-- Captures that have lost nothing, no Match open. -/
def start (header : Header) (mode : CaptureMode) (capacity : ℕ) : Captures where
  capturer := { header }
  writer := { mode, capacity }

/-- A piece of the Match open, which `Admit` lets through to the writer or not. -/
def admitted (s : Captures) (piece : Piece) (give : Writer → Encoded → Writer) : Captures :=
  let m := s.capturer.match_
  let made := s.made ++ [(m, piece)]
  match encode piece with
  | .ok encoded => { s with made, writer := give s.writer encoded }
  | .error .failure => { s with made, capturer := { s.capturer with failure := true } }
  | .error .recordTooLong =>
      { s with made, writer := (s.writer.stopLocked m .recordTooLong).refuse m }

/-- `Queue`. -/
def queue (s : Captures) (piece : Piece) : Captures :=
  s.admitted encode piece fun w encoded => w.push s.capturer.match_ encoded

/-- An event of the Match open, if it makes a record. -/
def event (s : Captures) (record : Option EventAt) : Captures :=
  match record with
  | some record => s.queue encode (.event record)
  | none => s

/-- The next time the Simulation thread takes the lock in its call. -/
def goOn (s : Captures) : Option Captures :=
  match s.doing with
  | .nothing => none
  | .starting start =>
      if s.writer.health = .stopped then some { s with doing := .nothing }
      else
        some { s with
          capturer := s.capturer.opened start
          doing := .opening start
          begun := s.begun ++ [start.match_] }
  | .opening start =>
      let header := .header (s.capturer.headerOf start)
      let s' := s.admitted encode header fun w encoded => w.enqueue s.capturer.match_ encoded
      match encode header with
      | .ok _ => some { s' with doing := .joining start.players }
      | .error _ => some { s' with doing := .nothing }
  | .joining [] => some { s with doing := .nothing }
  | .joining (entrant :: rest) =>
      let (capturer, join) := s.capturer.enter entrant
      some { ({ s with capturer }.queue encode join) with doing := .joining rest }
  | .ending =>
      some { s with
        capturer := s.capturer.ended
        doing := .nothing
        writer := s.writer.close s.capturer.match_ }

/-- `StartMatch`, of a Match never opened before: one still open is closed. -/
def startMatch (s : Captures) (start : CaptureStart) : Captures :=
  if s.capturer.isOpen then
    { s with
      capturer := { s.capturer with isOpen := false }
      doing := .starting start
      writer := s.writer.close s.capturer.match_ }
  else { s with doing := .starting start }

/-- What an event makes of the captures; none where it cannot happen. -/
def step (s : Captures) : CaptureEvent → Option Captures
  | .startMatch start =>
      if s.doing = .nothing ∧ start.match_ ∉ s.begun then some (s.startMatch start) else none
  | .command tick entity command =>
      if s.doing = .nothing then some (s.event encode (s.capturer.command tick entity command))
      else none
  | .leave tick entity =>
      if s.doing = .nothing then some (s.event encode (s.capturer.leave tick entity)) else none
  | .death tick victim killer =>
      if s.doing = .nothing then some (s.event encode (s.capturer.death tick victim killer))
      else none
  | .endMatch lastTick winner =>
      if s.doing = .nothing then
        match s.capturer.endMatch lastTick winner with
        | some record => some { (s.queue encode (.event record)) with doing := .ending }
        | none => some s
      else none
  | .finish =>
      if s.doing = .nothing then
        s.writer.finish.map fun writer =>
          { s with writer, capturer := { s.capturer with isOpen := false } }
      else none
  | .goOn => s.goOn encode
  | .take => s.writer.take.map fun writer => { s with writer }
  | .handle disk => (s.writer.handle disk).map fun writer => { s with writer }
  | .note => s.writer.note.map fun writer => { s with writer }

def run (s : Captures) (events : List CaptureEvent) : Option Captures :=
  Lib.run (step encode) s events

end Captures
end Augusta.Host
