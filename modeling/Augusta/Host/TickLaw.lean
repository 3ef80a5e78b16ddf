import Augusta.Host.TickMessages
import Mathlib.Tactic.Set

/-! Every message of a tick to whom it is for, or none at all.

      the plan   [r₁] state  [r₂] state  [all] shot  [shooter] hit  [all] death  [asked] judgement
      sent       all of it, or what of it came before the transport failed or the runtime had -/

namespace Augusta.Host
open Lib (Table)
open Link (AuthoritativeState TickMessage Outgoing)
open Protocol (EncodeError)
open Replication (Recipient)
open Simulation (State ShotJudgement)

/-! ### Who should be told what -/

/-- The whole state as one recipient is told it. -/
def ownState (state : State) (tick : Tick) (recipient : Recipient) : AuthoritativeState :=
  let body := state.bodies.find? fun body => body.entity = recipient.entity
  { tick
    acknowledgedSequence := recipient.acknowledgedSequence
    bodies := state.bodies.map fun body =>
      { entity := body.entity, body := body.body, yaw := body.yaw, pitch := body.pitch
        ads := body.ads }
    rifle := (body.map (·.rifle)).getD {}
    health := (body.map (·.health)).getD .zero
    queuedCommands := recipient.queuedCommands }

/-- A tick's messages, in order, and the peers each is for. -/
def planned (state : State) (judgements : List ShotJudgement) (tick : Tick) (to_ : TickRecipients) :
    List (List PeerId × TickMessage) :=
  (to_.recipients.map fun recipient =>
    ((to_.peers.lookup recipient.entity).toList,
      .authoritativeState (ownState state tick recipient))) ++
  (state.shots.map fun shot =>
    (to_.peers.values, .shot { shooter := shot.shooter, tick, origin := shot.origin, yaw := shot.yaw
                               pitch := shot.pitch })) ++
  (state.hits.filterMap fun hit => (to_.peers.lookup hit.shooter).map fun peer =>
    ([peer], .hitConfirmation { target := hit.target, damage := hit.damage, part := hit.part })) ++
  (state.deaths.map fun death =>
    (to_.peers.values, .death { victim := death.victim, killer := death.killer, yaw := death.yaw
                                pitch := death.pitch, part := death.part })) ++
  (judgements.filterMap fun judgement =>
    ((to_.peers.lookup judgement.shooter).filter (· ∈ to_.shotJudgementPeers)).map fun peer =>
      ([peer], .shotJudgement (judgementToLink judgement)))

/-- Each message to each of its peers. -/
def deliveries (plan : List (List PeerId × TickMessage)) : List (PeerId × TickMessage) :=
  plan.flatMap fun entry => entry.1.map (·, entry.2)

/-- A delivery as it is sent: its message encoded on its own. -/
def SentAs (delivery : PeerId × TickMessage) (sent : PeerId × Outgoing) : Prop :=
  sent.1 = delivery.1 ∧ Link.encode delivery.2 = .ok sent.2

/-! ### The messages added -/

def TickMessages.addEntry (messages : TickMessages) (entry : List PeerId × TickMessage) :
    TickMessages :=
  messages.add (Link.encode entry.2) entry.1

/-- Once broken, nothing is kept. -/
theorem foldl_addEntry_broken {messages : TickMessages} {error : EncodeError}
    (h : messages.broken = some error) (plan : List (List PeerId × TickMessage)) :
    (plan.foldl TickMessages.addEntry messages).broken = some error := by
  induction plan generalizing messages with
  | nil => exact h
  | cons entry rest ih =>
      refine ih ?_
      simp only [TickMessages.addEntry, TickMessages.add, h]

/-- Where one cannot be encoded, the messages are broken; otherwise each is kept, for its peers. -/
theorem foldl_addEntry (plan : List (List PeerId × TickMessage)) {messages : TickMessages}
    (h : messages.broken = none) :
    ((∃ entry ∈ plan, ∃ error, Link.encode entry.2 = .error error) →
      ∃ error, (plan.foldl TickMessages.addEntry messages).broken = some error) ∧
    ((∀ entry ∈ plan, ∃ outgoing, Link.encode entry.2 = .ok outgoing) →
      ∃ added, plan.foldl TickMessages.addEntry messages = ⟨messages.addressed ++ added, none⟩ ∧
        List.Forall₂ (fun entry outgoing => outgoing.peers = entry.1 ∧
          Link.encode entry.2 = .ok outgoing.message) plan added) := by
  induction plan generalizing messages with
  | nil =>
      refine ⟨fun ⟨_, hmem, _⟩ => (nomatch hmem), fun _ => ⟨[], ?_, .nil⟩⟩
      rw [List.append_nil, ← h]
      rfl
  | cons entry rest ih =>
      rw [List.foldl_cons]
      cases hencode : Link.encode entry.2 with
      | error error =>
          have hbroken : (messages.addEntry entry).broken = some error := by
            simp only [TickMessages.addEntry, TickMessages.add, h, hencode]
          refine ⟨fun _ => ⟨error, foldl_addEntry_broken hbroken rest⟩, fun hall => ?_⟩
          obtain ⟨outgoing, hok⟩ := hall entry List.mem_cons_self
          rw [hencode] at hok
          nomatch hok
      | ok outgoing =>
          have hadded : messages.addEntry entry =
              ⟨messages.addressed ++ [⟨entry.1, outgoing⟩], none⟩ := by
            simp only [TickMessages.addEntry, TickMessages.add, h, hencode]
          rw [hadded]
          obtain ⟨hbroken, hkept⟩ := @ih ⟨messages.addressed ++ [⟨entry.1, outgoing⟩], none⟩ rfl
          constructor
          · rintro ⟨other, hmem, error, herror⟩
            rcases List.mem_cons.mp hmem with rfl | hrest
            · rw [hencode] at herror
              nomatch herror
            · exact hbroken ⟨other, hrest, error, herror⟩
          · intro hall
            obtain ⟨added, hfold, heach⟩ :=
              hkept fun other hmem => hall other (List.mem_cons_of_mem _ hmem)
            refine ⟨⟨entry.1, outgoing⟩ :: added, ?_, .cons ⟨rfl, hencode⟩ heach⟩
            rw [hfold, List.append_assoc]
            rfl

/-! ### What is encoded is what is planned -/

section
variable {φ : Type} {state : State} {tick : Tick} {to_ : TickRecipients}

/-- Each recipient's State: its own fields filled in, whatever was there before. -/
theorem fillRecipientFields_eq (hsorted : state.bodies.Pairwise fun a b => a.entity ≤ b.entity)
    (recipient : Recipient) (recipients : List Recipient) :
    let updates := Replication.planUpdates state tick recipients
    let body := Replication.bodyOf state recipient.entity
    fillRecipientFields (updatesToLink updates)
      { entity := recipient.entity
        acknowledgedSequence := recipient.acknowledgedSequence
        rifle := (body.map (·.rifle)).getD {}
        health := (body.map (·.health)).getD .zero
        queuedCommands := recipient.queuedCommands } = ownState state tick recipient := by
  simp only [fillRecipientFields, updatesToLink, Replication.planUpdates, ownState,
    Replication.bodyOf_eq_find? hsorted]

/-- A recipient's State, added as encoded on its own. -/
def addState (state : State) (tick : Tick) (to_ : TickRecipients) (messages : TickMessages)
    (recipient : Recipient) : Except (Stop φ) TickMessages :=
  match to_.peers.lookup recipient.entity with
  | none => .error .missing
  | some peer =>
      .ok (messages.add (Link.encode (.authoritativeState (ownState state tick recipient))) [peer])

theorem foldlM_addState (those : List Recipient) (messages : TickMessages)
    (hall : ∀ recipient ∈ those, recipient.entity ∈ to_.peers) :
    those.foldlM (addState (φ := φ) state tick to_) messages =
      .ok ((those.map fun recipient => ((to_.peers.lookup recipient.entity).toList,
        TickMessage.authoritativeState (ownState state tick recipient))).foldl
          TickMessages.addEntry messages) := by
  induction those generalizing messages with
  | nil => rfl
  | cons recipient others ih =>
      obtain ⟨peer, hpeer⟩ := AList.mem_iff_lookup.mp (hall recipient List.mem_cons_self)
      rw [List.foldlM_cons, addState, hpeer, Except.ok_bind,
        ih _ fun other hmem => hall other (List.mem_cons_of_mem _ hmem), List.map_cons,
        List.foldl_cons, hpeer]
      rfl

/-- The shared encoding, readdressed to each recipient, is each one's own. -/
theorem addUpdates_eq (hsorted : state.bodies.Pairwise fun a b => a.entity ≤ b.entity)
    (hpeers : ∀ recipient ∈ to_.recipients, recipient.entity ∈ to_.peers)
    (messages : TickMessages) :
    addUpdates (φ := φ) messages state tick to_ =
      .ok ((to_.recipients.map fun recipient =>
        ((to_.peers.lookup recipient.entity).toList,
          TickMessage.authoritativeState (ownState state tick recipient))).foldl
        TickMessages.addEntry messages) := by
  rcases hrecipients : to_.recipients with _ | ⟨first, rest⟩
  · simp only [addUpdates, Replication.planUpdates, hrecipients, List.map_nil, List.foldl_nil]
  · have hshared : ∀ recipient,
        (Link.encode (.authoritativeState (ownState state tick first)) >>= fun encoded =>
          Link.readdressed encoded (ownState state tick recipient)) =
            Link.encode (.authoritativeState (ownState state tick recipient)) :=
      fun recipient => Link.encode_bind_readdressed rfl rfl
    have hown : ∀ recipient,
        _ = ownState state tick recipient := fun recipient =>
      fillRecipientFields_eq hsorted recipient []
    simp only [updatesToLink, Replication.planUpdates] at hown
    rw [← hrecipients, ← foldlM_addState to_.recipients messages hpeers, hrecipients]
    simp only [addUpdates, Replication.planUpdates, hrecipients, List.map_cons, updatesToLink]
    simp only [List.foldlM_cons, List.foldlM_map, hown, hshared]
    all_goals rfl

/-- A tick's messages, each encoded on its own. -/
theorem encodeTick_eq (hsorted : state.bodies.Pairwise fun a b => a.entity ≤ b.entity)
    (hpeers : ∀ recipient ∈ to_.recipients, recipient.entity ∈ to_.peers)
    (judgements : List ShotJudgement) :
    encodeTick (φ := φ) state judgements tick to_ =
      .ok ((planned state judgements tick to_).foldl TickMessages.addEntry {}) := by
  have hjudgements : ∀ messages, addShotJudgements messages judgements to_ =
      (judgements.filterMap fun judgement =>
        ((to_.peers.lookup judgement.shooter).filter (· ∈ to_.shotJudgementPeers)).map fun peer =>
          ([peer], TickMessage.shotJudgement (judgementToLink judgement))).foldl
        TickMessages.addEntry messages := by
    intro messages
    rw [addShotJudgements, List.foldl_filterMap]
    congr 1
    funext messages judgement
    cases to_.peers.lookup judgement.shooter with
    | none => rfl
    | some peer =>
        by_cases hasked : peer ∈ to_.shotJudgementPeers
        · simp only [hasked, if_true, Option.filter_some, decide_true, Option.map_some]
          rfl
        · simp only [hasked, if_false, Option.filter_some, decide_false, Option.map_none,
            Bool.false_eq_true]
  have hhits : ∀ messages : TickMessages, addHitConfirmations messages state to_ =
      (state.hits.filterMap fun hit => (to_.peers.lookup hit.shooter).map fun peer =>
        ([peer], TickMessage.hitConfirmation
          { target := hit.target, damage := hit.damage, part := hit.part })).foldl
        TickMessages.addEntry messages := by
    intro messages
    rw [addHitConfirmations, Replication.planHitConfirmations, List.foldl_filterMap, List.foldl_map]
    congr 1
    funext messages hit
    cases to_.peers.lookup hit.shooter <;> rfl
  rw [encodeTick, addUpdates_eq hsorted hpeers, Except.ok_bind]
  dsimp only
  rw [hhits, hjudgements]
  simp only [planned, List.foldl_append, List.foldl_map, Replication.planShots,
    Replication.planDeaths]
  rfl

end

/-! ### Handed on -/

section
variable {ν φ : Type} {net : Network ν φ}

/-- What is sent is as much of what there is to send as the network and the runtime let. -/
theorem handOn_sink (all : List (PeerId × Outgoing)) (s : Sent ν φ) (hfailed : s.failed = none) :
    ∃ sent, (handOn net.sink s all).sent = s.sent ++ sent ∧ sent <+: all ∧
      (sent = all ∧ (handOn net.sink s all).failed = none ∨
        net.halted (handOn net.sink s all).network = true ∨
        ∃ failure, (handOn net.sink s all).failed = some failure) := by
  induction all generalizing s with
  | nil => exact ⟨[], (List.append_nil _).symm, List.prefix_rfl, .inl ⟨rfl, hfailed⟩⟩
  | cons first rest ih =>
      obtain ⟨peer, message⟩ := first
      rw [handOn, Network.sink]
      by_cases hhalted : net.halted s.network = true
      · rw [if_pos hhalted]
        exact ⟨[], (List.append_nil _).symm, List.nil_prefix, .inr (.inl hhalted)⟩
      · rw [if_neg hhalted]
        rcases hsend : net.send s.network peer message with ⟨failure | outcome, network⟩
        · exact ⟨[], (List.append_nil _).symm, List.nil_prefix, .inr (.inr ⟨failure, rfl⟩)⟩
        · obtain ⟨sent, hsent, hprefix, hstopped⟩ :=
            ih { s with network, sent := s.sent ++ [(peer, message)] } hfailed
          refine ⟨(peer, message) :: sent, ?_, ?_, ?_⟩
          · rw [hsent, List.append_assoc]
            rfl
          · exact (List.prefix_cons_inj _).mpr hprefix
          · exact hstopped.imp_left fun ⟨hall, hnone⟩ => ⟨by rw [hall], hnone⟩

/-- What is handed on is each message to each of its peers, in the plan's order. -/
theorem deliveries_sentAs {plan : List (List PeerId × TickMessage)} {added : List Addressed}
    (h : List.Forall₂ (fun entry outgoing => outgoing.peers = entry.1 ∧
      Link.encode entry.2 = .ok outgoing.message) plan added) :
    List.Forall₂ SentAs (deliveries plan)
      (added.flatMap fun outgoing => outgoing.peers.map (·, outgoing.message)) := by
  induction h with
  | nil => exact .nil
  | cons hfirst _ ih =>
      obtain ⟨hpeers, hencode⟩ := hfirst
      rw [deliveries, List.flatMap_cons, List.flatMap_cons, hpeers]
      refine List.rel_append (List.forall₂_map_left_iff.mpr (List.forall₂_map_right_iff.mpr ?_)) ih
      exact List.forall₂_same.mpr fun peer _ => ⟨rfl, hencode⟩

/-- A tick whose messages cannot all be encoded. -/
def CannotBeEncoded (plan : List (List PeerId × TickMessage)) : Prop :=
  ∃ entry ∈ plan, ∃ error, Link.encode entry.2 = .error error

theorem forall_encoded_of_not {plan : List (List PeerId × TickMessage)}
    (h : ¬ CannotBeEncoded plan) : ∀ entry ∈ plan, ∃ outgoing, Link.encode entry.2 = .ok outgoing := by
  intro entry hmem
  rcases hencode : Link.encode entry.2 with error | outgoing
  · exact absurd ⟨entry, hmem, error, hencode⟩ h
  · exact ⟨outgoing, rfl⟩

/-- What `SendTickMessages` did, against the tick's plan. -/
structure SentAsPlanned (net : Network ν φ) (network : ν) (plan : List (List PeerId × TickMessage))
    (result : Except (Stop φ) Unit) (after : Sent ν φ) : Prop where
  /-- The tick is refused exactly when one of its messages cannot be encoded on its own. -/
  refused : (∃ error, result = .error (.broken error)) ↔ CannotBeEncoded plan
  /-- A tick refused sends nothing. -/
  none_sent : CannotBeEncoded plan → after = { network }
  /-- Otherwise all is sent in the plan's order, up to where a failure stops it. -/
  all_sent : ¬ CannotBeEncoded plan → ∃ whole, List.Forall₂ SentAs (deliveries plan) whole ∧
    after.sent <+: whole ∧
      (result = .ok () ∧ after.sent = whole ∨ net.halted after.network = true ∨
        ∃ failure, result = .error (.transport failure))

/-- CORRECT: a tick's messages are sent all or none, each to whom it is for and in their order, and
    an Authoritative State readdressed is the one that encoding it anew would give. -/
theorem tick_messages_law (net : Network ν φ) (network : ν) (state : State)
    (judgements : List ShotJudgement) (tick : Tick) (to_ : TickRecipients)
    (hsorted : state.bodies.Pairwise fun a b => a.entity ≤ b.entity)
    (hpeers : ∀ recipient ∈ to_.recipients, recipient.entity ∈ to_.peers) :
    let outcome := sendTickMessages net network state judgements tick to_
    SentAsPlanned net network (planned state judgements tick to_) outcome.1 outcome.2 ∧
    ∀ first own : Recipient,
      (Link.encode (.authoritativeState (ownState state tick first)) >>= fun shared =>
        Link.readdressed shared (ownState state tick own)) =
          Link.encode (.authoritativeState (ownState state tick own)) := by
  intro outcome
  refine ⟨?_, fun first own => Link.encode_bind_readdressed rfl rfl⟩
  obtain ⟨hbroken, hkept⟩ := foldl_addEntry (planned state judgements tick to_)
    (rfl : ({} : TickMessages).broken = none)
  by_cases hcannot : CannotBeEncoded (planned state judgements tick to_)
  · obtain ⟨error, herror⟩ := hbroken hcannot
    have houtcome : outcome = (.error (.broken error), { network }) := by
      simp only [outcome, sendTickMessages, forEachTickMessage, encodeTick_eq hsorted hpeers,
        herror]
    rw [houtcome]
    exact ⟨iff_of_true ⟨error, rfl⟩ hcannot, fun _ => rfl, fun h => absurd hcannot h⟩
  · obtain ⟨added, hadded, heach⟩ := hkept (forall_encoded_of_not hcannot)
    set whole := added.flatMap fun outgoing => outgoing.peers.map (·, outgoing.message)
    set after := handOn net.sink { network } whole
    obtain ⟨sent, hsent, hprefix, hstopped⟩ :=
      @handOn_sink ν φ net whole { network } rfl
    rw [List.nil_append] at hsent
    have houtcome : outcome = ((after.failed.map (Except.error ∘ Stop.transport)).getD (.ok ()),
        after) := by
      simp only [outcome, sendTickMessages, forEachTickMessage, encodeTick_eq hsorted hpeers,
        hadded, List.nil_append]
      cases after.failed <;> rfl
    rw [houtcome]
    refine ⟨iff_of_false ?_ hcannot, fun h => absurd h hcannot, fun _ =>
      ⟨whole, deliveries_sentAs heach, hsent ▸ hprefix, ?_⟩⟩
    · rintro ⟨error, herror⟩
      cases hfailed : after.failed <;> rw [hfailed] at herror <;> cases herror
    · rcases hstopped with ⟨hall, hnone⟩ | hhalted | ⟨failure, hfailure⟩
      · exact .inl ⟨by rw [hnone]; rfl, hsent.trans hall⟩
      · exact .inr (.inl hhalted)
      · exact .inr (.inr ⟨failure, by rw [hfailure]; rfl⟩)

end

/-- A tick of three players: the second has died of the first's round, the third has left since it
    fired one that struck. -/
def threePlayersTick : State where
  tick := 9
  bodies := [{ entity := 1, body := {}, yaw := .zero, pitch := .zero, ads := true, health := .one
               rifle := {} }]
  alive := [1]
  deaths := [{ victim := 2, killer := 1, yaw := .zero, pitch := .zero, part := .head }]
  shots := [{ shooter := 1, origin := {}, yaw := .zero, pitch := .zero }]
  hits := [{ shooter := 3, target := 1, damage := .one, health := .one, part := .limb
             reachedZero := false },
    { shooter := 1, target := 2, damage := .one, health := .zero, part := .head
      reachedZero := true }]

def twoRecipients : TickRecipients where
  recipients := [{ entity := 2, acknowledgedSequence := 4, queuedCommands := 1 },
    { entity := 1, acknowledgedSequence := 7, queuedCommands := 2 }]
  peers := ((∅ : Table EntityId PeerId).insert 1 11).insert 2 22
  shotJudgementPeers := [11]

/-- A network that takes `left` messages more, then fails. -/
def failingNetwork : Network ℕ Unit where
  send left _ _ :=
    match left with
    | 0 => (.error (), 0)
    | left + 1 => (.ok .accepted, left)
  halted _ := false

/-- To a network that fails at its seventh message, the first six are sent. -/
theorem tick_messages_law_failing :
    let judgements : List ShotJudgement := [{ shooter := 1 }, { shooter := 3 }]
    let outcome := sendTickMessages failingNetwork 6 threePlayersTick judgements 9 twoRecipients
    SentAsPlanned failingNetwork 6 (planned threePlayersTick judgements 9 twoRecipients) outcome.1
      outcome.2 ∧
    outcome.2.sent.map (·.1) = [22, 11, 22, 11, 11, 22] ∧ outcome.1 = .error (.transport ()) :=
  ⟨(tick_messages_law failingNetwork 6 threePlayersTick [{ shooter := 1 }, { shooter := 3 }] 9
      twoRecipients (by decide) (by decide)).1, by decide +kernel, by decide +kernel⟩

end Augusta.Host
