import Augusta.Simulation.Replication

/-! `augusta::host`'s tick messages: what a tick sends its players, and how it is stopped.

      states, one a recipient ─ shots ─ hit confirmations ─ deaths ─ shot judgements
                  encode every one of them ─▶ broken: none is handed on
                                           ─▶ hand each on, until one is declined -/

namespace Augusta.Host
open Lib (Table)
open Link (AuthoritativeState TickMessage Outgoing)
open Protocol (EncodeError)
open Replication (Recipient RecipientUpdate Updates)
open Simulation (State ShotJudgement)

/-- Who a tick's messages go to: each player in the match. -/
structure TickRecipients where
  recipients : List Recipient
  /-- The connection of each recipient, by the entity its player controls. -/
  peers : Table EntityId PeerId
  /-- Of the peers, those that asked for Shot judgements. -/
  shotJudgementPeers : List PeerId := []

/-! ### In the Link's types -/

def updatesToLink (updates : Updates) : AuthoritativeState where
  tick := updates.tick
  bodies := updates.bodies

def fillRecipientFields (state : AuthoritativeState) (recipient : RecipientUpdate) :
    AuthoritativeState :=
  { state with
    acknowledgedSequence := recipient.acknowledgedSequence
    rifle := recipient.rifle
    health := recipient.health
    queuedCommands := recipient.queuedCommands }

/-- `ToLink` of a Shot judgement: a count of ticks past what it says is the most it says. -/
def judgementToLink (judgement : ShotJudgement) : Link.ShotJudgement where
  shotTick := judgement.shotTick
  shootersDelay := judgement.shootersDelay
  struck := judgement.struck
  part := judgement.part
  point := judgement.point
  target := judgement.target
  entries := judgement.entries.map fun entry =>
    { ticksAfterShot := UInt16.ofNat (min entry.ticksAfterShot.toNat 65535)
      players := entry.players.map fun player =>
        { entity := player.entity
          position := player.position
          stance := player.stance
          yaw := player.yaw } }
  entriesLeftOut := judgement.entriesLeftOut

/-! ### A tick's messages, encoded -/

structure Addressed where
  peers : List PeerId
  message : Outgoing
  deriving DecidableEq

/-- Each message encoded as it is added, and the first the protocol could not carry, after which none
    is kept. -/
structure TickMessages where
  addressed : List Addressed := []
  broken : Option EncodeError := none

def TickMessages.add (messages : TickMessages) (message : Except EncodeError Outgoing)
    (peers : List PeerId) : TickMessages :=
  match messages.broken, message with
  | some _, _ => messages
  | none, .error error => { messages with broken := some error }
  | none, .ok outgoing => { messages with addressed := messages.addressed ++ [⟨peers, outgoing⟩] }

/-- What stops a tick's messages. -/
inductive Stop (φ : Type)
  /-- `peers.at`, of a recipient that has no connection. -/
  | missing
  /-- One the protocol cannot carry. -/
  | broken (error : EncodeError)
  | transport (failure : φ)
  deriving DecidableEq

section
variable {φ σ : Type}

/-- One state, encoded once and readdressed to each recipient. -/
def addUpdates (messages : TickMessages) (state : State) (tick : Tick) (to_ : TickRecipients) :
    Except (Stop φ) TickMessages :=
  let updates := Replication.planUpdates state tick to_.recipients
  match updates.recipients with
  | [] => .ok messages
  | first :: _ =>
      let shared := Link.encode
        (.authoritativeState (fillRecipientFields (updatesToLink updates) first))
      updates.recipients.foldlM (fun messages recipient =>
        let own := fillRecipientFields (updatesToLink updates) recipient
        match to_.peers.lookup recipient.entity with
        | none => .error .missing
        | some peer =>
            .ok (messages.add (shared >>= fun encoded => Link.readdressed encoded own) [peer]))
        messages

/-- A shooter that is no longer a recipient is told nothing. -/
def addHitConfirmations (messages : TickMessages) (state : State) (to_ : TickRecipients) :
    TickMessages :=
  (Replication.planHitConfirmations state).foldl (fun messages hit =>
    match to_.peers.lookup hit.recipient with
    | none => messages
    | some peer => messages.add (Link.encode (.hitConfirmation hit.confirmed)) [peer]) messages

def addShotJudgements (messages : TickMessages) (judgements : List ShotJudgement)
    (to_ : TickRecipients) : TickMessages :=
  judgements.foldl (fun messages judgement =>
    match to_.peers.lookup judgement.shooter with
    | none => messages
    | some peer =>
        if peer ∈ to_.shotJudgementPeers then
          messages.add (Link.encode (.shotJudgement (judgementToLink judgement))) [peer]
        else messages) messages

/-- The first part of `ForEachTickMessage`. -/
def encodeTick (state : State) (judgements : List ShotJudgement) (tick : Tick)
    (to_ : TickRecipients) : Except (Stop φ) TickMessages := do
  let everyone := to_.peers.values
  let messages ← addUpdates {} state tick to_
  let messages := (Replication.planShots state tick).foldl (fun messages shot =>
    messages.add (Link.encode (.shot shot)) everyone) messages
  let messages := addHitConfirmations messages state to_
  let messages := (Replication.planDeaths state).foldl (fun messages death =>
    messages.add (Link.encode (.death death)) everyone) messages
  return addShotJudgements messages judgements to_

/-- Hands each on in order, until one is declined. -/
def handOn (send : σ → PeerId → Outgoing → Bool × σ) : σ → List (PeerId × Outgoing) → σ
  | s, [] => s
  | s, (peer, message) :: rest =>
      match send s peer message with
      | (true, s) => handOn send s rest
      | (false, s) => s

def forEachTickMessage (send : σ → PeerId → Outgoing → Bool × σ) (s : σ) (state : State)
    (judgements : List ShotJudgement) (tick : Tick) (to_ : TickRecipients) :
    Except (Stop φ) Unit × σ :=
  match encodeTick state judgements tick to_ with
  | .error stop => (.error stop, s)
  | .ok messages =>
      match messages.broken with
      | some error => (.error (.broken error), s)
      | none =>
          (.ok (), handOn send s
            (messages.addressed.flatMap fun outgoing => outgoing.peers.map (·, outgoing.message)))

/-! ### Sent -/

inductive SendOutcome
  | accepted | dropped
  deriving DecidableEq

/-- The network the messages go out on, and whether the runtime has failed meanwhile. -/
structure Network (ν φ : Type) where
  send : ν → PeerId → Outgoing → Except φ SendOutcome × ν
  halted : ν → Bool

/-- What is sent so far, what the transport did not fail on. -/
structure Sent (ν φ : Type) where
  network : ν
  sent : List (PeerId × Outgoing) := []
  failed : Option φ := none

variable {ν : Type}

/-- The sink of `SendTickMessages`. A recipient that drops a message is its own outcome. -/
def Network.sink (net : Network ν φ) (s : Sent ν φ) (peer : PeerId) (message : Outgoing) :
    Bool × Sent ν φ :=
  if net.halted s.network then (false, s)
  else
    match net.send s.network peer message with
    | (.error failure, network) => (false, { s with network, failed := some failure })
    | (.ok _, network) => (true, { s with network, sent := s.sent ++ [(peer, message)] })

def sendTickMessages (net : Network ν φ) (network : ν) (state : State)
    (judgements : List ShotJudgement) (tick : Tick) (to_ : TickRecipients) :
    Except (Stop φ) Unit × Sent ν φ :=
  match forEachTickMessage net.sink { network } state judgements tick to_ with
  | (.error stop, s) => (.error stop, s)
  | (.ok (), s) =>
      match s.failed with
      | some failure => (.error (.transport failure), s)
      | none => (.ok (), s)

end
end Augusta.Host
