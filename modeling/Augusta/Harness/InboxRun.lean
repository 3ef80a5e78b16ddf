import Augusta.Harness.Inbox
import Mathlib.Tactic.SplitIfs

/-! Runs of `Inbox` over what a correct server sends: the reliable messages in order, the states in
    any order, any number of times, at any moment. -/

namespace Augusta.Harness
open Link

/-- A server as one client hears it: what it sends reliably, in order, and each state it sends with
    the Match the state is of. -/
structure CorrectServer where
  session : SessionId
  reliable : List ServerMessage
  sent : List (SessionId × AuthoritativeState)
  /-- Every admission is the one the client has. -/
  admission : ∀ accepted, .admission accepted ∈ reliable → accepted.session = session
  /-- No two Matches have a name, or a body, in common. -/
  names : ∀ start other, .matchStart start ∈ reliable → .matchStart other ∈ reliable →
    start.name = other.name → start = other
  entities : ∀ start other entity, .matchStart start ∈ reliable → .matchStart other ∈ reliable →
    entityInMatch start entity → entityInMatch other entity → start = other
  /-- A state is of a Match that starts, and its bodies are players' of it. -/
  bodies : ∀ name state, (name, state) ∈ sent → ∃ start, .matchStart start ∈ reliable ∧
    start.name = name ∧ ∀ body ∈ state.bodies, entityInMatch start body.entity
  /-- A tick is of one Match. -/
  ticks : ∀ name state other late, (name, state) ∈ sent → (other, late) ∈ sent →
    state.tick = late.tick → name = other

/-- `messages` is what a client may have been handed of what `server` sends. -/
structure Handed (server : CorrectServer) (messages : List ServerMessage) : Prop where
  reliable : (messages.filter ServerMessage.reliable).IsPrefix server.reliable
  states : ∀ state, .authoritativeState state ∈ messages → ∃ name, (name, state) ∈ server.sent

/-- What a published view holds belongs to its Match. -/
structure ViewLaw (server : CorrectServer) (viewer : Bool) (view : ServerView) : Prop where
  named : view.inMatch = true → ∃ start, view.matchStart = some start ∧
    (viewer = true ∨ ∃ accepted, view.accepted = some accepted ∧
      sessionInMatch start accepted.session)
  newest : view.authoritative = view.recentAuthoritative.getLast?
  ticks : (view.recentAuthoritative.map (·.tick)).Pairwise (· < ·)
  kept : view.recentAuthoritative.length ≤ kRecentStatesKept
  own : ∀ state ∈ view.recentAuthoritative, ∃ start, view.matchStart = some start ∧
    (start.name, state) ∈ server.sent ∧ ∀ name, (name, state) ∈ server.sent → name = start.name
  lobby : view.inMatch = false → view.recentAuthoritative = []

/-- No bodiless state of another Match is handed in while in a Match, newer than any held. -/
def NoBodilessStray (server : CorrectServer) (viewer : Bool) (messages : List ServerMessage) :
    Prop :=
  ∀ before state after, messages = before ++ .authoritativeState state :: after →
    state.bodies = [] → ∀ start, (Inbox.run viewer before).inProgress = some start →
      Inbox.isNews (Inbox.run viewer before).view state = true → (start.name, state) ∈ server.sent

section
variable {server : CorrectServer} {viewer : Bool}

/-- `ViewLaw`, and what carries it: the start is the server's, and the client's session is in it. -/
structure Held (server : CorrectServer) (viewer : Bool) (inbox : Inbox) : Prop where
  role : inbox.viewer = viewer
  accepted : ∀ accepted, inbox.view.accepted = some accepted → accepted.session = server.session
  started : inbox.view.inMatch = true → ∃ start, inbox.view.matchStart = some start ∧
    .matchStart start ∈ server.reliable ∧ inbox.view.accepted.isSome ∧
    (viewer = true ∨ sessionInMatch start server.session)
  newest : inbox.view.authoritative = inbox.view.recentAuthoritative.getLast?
  ticks : (inbox.view.recentAuthoritative.map (·.tick)).Pairwise (· < ·)
  kept : inbox.view.recentAuthoritative.length ≤ kRecentStatesKept
  own : ∀ state ∈ inbox.view.recentAuthoritative, ∃ start, inbox.view.matchStart = some start ∧
    (start.name, state) ∈ server.sent
  lobby : inbox.view.inMatch = false → inbox.view.recentAuthoritative = []

theorem Held.law {inbox : Inbox} (h : Held server viewer inbox) :
    ViewLaw server viewer inbox.view where
  named := by
    intro hin
    obtain ⟨start, hstart, -, haccepted, hnamed⟩ := h.started hin
    refine ⟨start, hstart, hnamed.imp_right fun hsession => ?_⟩
    obtain ⟨accepted, haccepted⟩ := Option.isSome_iff_exists.mp haccepted
    exact ⟨accepted, haccepted, by rw [h.accepted accepted haccepted]; exact hsession⟩
  newest := h.newest
  ticks := h.ticks
  kept := h.kept
  own := by
    intro state hstate
    obtain ⟨start, hstart, hsent⟩ := h.own state hstate
    exact ⟨start, hstart, hsent, fun name hname => server.ticks _ _ _ _ hname hsent rfl⟩
  lobby := h.lobby

theorem held_init : Held server viewer { viewer := viewer } where
  role := rfl
  accepted := by simp
  started := by simp
  newest := rfl
  ticks := by simp
  kept := by simp
  own := by simp
  lobby := by simp

/-- A message that changes none of what `Held` reads keeps it. -/
theorem Held.same {inbox inbox' : Inbox} (h : Held server viewer inbox)
    (hrole : inbox'.viewer = inbox.viewer) (haccepted : inbox'.view.accepted = inbox.view.accepted)
    (hstart : inbox'.view.matchStart = inbox.view.matchStart)
    (hin : inbox'.view.inMatch = inbox.view.inMatch)
    (hnewest : inbox'.view.authoritative = inbox.view.authoritative)
    (hrecent : inbox'.view.recentAuthoritative = inbox.view.recentAuthoritative) :
    Held server viewer inbox' := by
  constructor <;> simp only [hrole, haccepted, hstart, hin, hnewest, hrecent]
  · exact h.role
  · exact h.accepted
  · exact h.started
  · exact h.newest
  · exact h.ticks
  · exact h.kept
  · exact h.own
  · exact h.lobby

theorem held_joinAccepted {inbox : Inbox} {accepted : Admission}
    (hsession : accepted.session = server.session) (h : Held server viewer inbox) :
    Held server viewer (inbox.onJoinAccepted accepted) := by
  unfold Inbox.onJoinAccepted
  split_ifs
  · split
    · exact h
    · refine { h with accepted := ?_, started := fun hin => ?_ }
      · rintro _ ⟨⟩; exact hsession
      · obtain ⟨start, hstart, hreliable, -, hnamed⟩ := h.started hin
        exact ⟨start, hstart, hreliable, rfl, hnamed⟩
  · exact h

theorem held_matchStart {inbox : Inbox} {start : MatchStart}
    (hreliable : .matchStart start ∈ server.reliable) (h : Held server viewer inbox) :
    Held server viewer (inbox.onMatchStart start) := by
  unfold Inbox.onMatchStart
  split_ifs with htakes
  · refine ⟨h.role, h.accepted, fun _ => ⟨start, rfl, hreliable, ?_⟩, rfl, by simp [forgetStates],
      by simp [forgetStates], by simp [forgetStates], by simp⟩
    unfold Inbox.takes at htakes
    cases haccepted : inbox.view.accepted with
    | none => simp [haccepted] at htakes
    | some accepted =>
        simp only [haccepted, h.role, h.accepted accepted haccepted, Bool.or_eq_true] at htakes
        exact ⟨by simp [forgetStates, haccepted], htakes⟩
  · exact h

theorem held_matchEnd {inbox : Inbox} {ended : MatchEnd} (h : Held server viewer inbox) :
    Held server viewer (inbox.onMatchEnd ended) :=
  ⟨h.role, h.accepted, by simp [Inbox.onMatchEnd], rfl, by simp [Inbox.onMatchEnd, forgetStates],
    by simp [Inbox.onMatchEnd, forgetStates], by simp [Inbox.onMatchEnd, forgetStates],
    by simp [Inbox.onMatchEnd, forgetStates]⟩

/-- The kept states are the newest of those held and the new one. -/
theorem keepState_recent (view : ServerView) (state : AuthoritativeState) :
    ∃ kept, kept.IsSuffix view.recentAuthoritative ∧
      (keepState view state).recentAuthoritative = kept ++ [state] ∧
      (view.recentAuthoritative.length ≤ kRecentStatesKept → kept.length < kRecentStatesKept) := by
  unfold keepState
  split_ifs with hfull
  · refine ⟨_, List.tail_suffix _, rfl, fun _ => ?_⟩
    rw [List.length_tail, hfull]; decide
  · exact ⟨_, List.suffix_refl _, rfl, fun hle => Nat.lt_of_le_of_ne hle hfull⟩

theorem held_keepState {inbox : Inbox} {state : AuthoritativeState} {start : MatchStart}
    (hstart : inbox.inProgress = some start) (hnews : Inbox.isNews inbox.view state = true)
    (hsent : (start.name, state) ∈ server.sent) (h : Held server viewer inbox) :
    Held server viewer { inbox with view := keepState inbox.view state } := by
  obtain ⟨kept, hsuffix, hrecent, hlength⟩ := keepState_recent inbox.view state
  obtain ⟨hin, hstart⟩ : inbox.view.inMatch = true ∧ inbox.view.matchStart = some start := by
    unfold Inbox.inProgress at hstart; split_ifs at hstart with hin; exact ⟨hin, hstart⟩
  refine ⟨h.role, h.accepted, h.started, ?_, ?_, ?_, ?_, ?_⟩ <;> simp only [hrecent]
  · simp [keepState]
  · rw [List.map_append, List.pairwise_append]
    refine ⟨h.ticks.sublist (hsuffix.sublist.map _), by simp, ?_⟩
    intro tick htick late hlate
    obtain ⟨old, hold, rfl⟩ := List.mem_map.mp htick
    obtain rfl : late = state.tick := by simpa using hlate
    have hold := hsuffix.subset hold
    unfold Inbox.isNews at hnews
    rw [h.newest] at hnews
    cases hlast : inbox.view.recentAuthoritative.getLast? with
    | none => rw [List.getLast?_eq_none_iff.mp hlast] at hold; cases hold
    | some newest =>
        simp only [hlast, decide_eq_true_eq] at hnews
        obtain ⟨older, hsplit⟩ := List.getLast?_eq_some_iff.mp hlast
        rw [hsplit, List.mem_append, List.mem_singleton] at hold
        rcases hold with hold | rfl
        · have hticks := h.ticks
          rw [hsplit, List.map_append, List.pairwise_append] at hticks
          have holder : old.tick < newest.tick :=
            hticks.2.2 _ (List.mem_map_of_mem hold) _ (List.mem_singleton_self _)
          exact UInt64.lt_trans holder hnews
        · exact hnews
  · have := hlength h.kept
    rw [List.length_append, List.length_singleton]; omega
  · intro old hold
    rcases List.mem_append.mp hold with hold | hold
    · exact h.own old (hsuffix.subset hold)
    · rw [List.mem_singleton.mp hold]
      exact ⟨start, hstart, hsent⟩
  · intro hout
    rw [show inbox.view.inMatch = false from hout] at hin; cases hin

/-- A state kept is one of the Match in progress: each body says so, and with none the caller. -/
theorem sent_of_bodies {state : AuthoritativeState} {start : MatchStart} {name : SessionId}
    (hreliable : .matchStart start ∈ server.reliable) (hsent : (name, state) ∈ server.sent)
    (hbodies : state.bodies.all (fun body => entityInMatch start body.entity) = true)
    (hnone : state.bodies = [] → (start.name, state) ∈ server.sent) :
    (start.name, state) ∈ server.sent := by
  cases hcase : state.bodies with
  | nil => exact hnone hcase
  | cons body rest =>
      have hbody : body ∈ state.bodies := by simp [hcase]
      obtain ⟨other, hother, rfl, hall⟩ := server.bodies name state hsent
      have := List.all_eq_true.mp hbodies body hbody
      rw [server.entities start other body.entity hreliable hother this (hall body hbody)]
      exact hsent

theorem held_state {inbox : Inbox} {state : AuthoritativeState} {name : SessionId}
    (hsent : (name, state) ∈ server.sent)
    (hstray : state.bodies = [] → ∀ start, inbox.inProgress = some start →
      Inbox.isNews inbox.view state = true → (start.name, state) ∈ server.sent)
    (h : Held server viewer inbox) : Held server viewer (inbox.onAuthoritativeState state) := by
  unfold Inbox.onAuthoritativeState
  split
  · exact h
  · next start hstart =>
      split_ifs with hbodies hnews
      · have hin : inbox.view.inMatch = true := by
          unfold Inbox.inProgress at hstart; split_ifs at hstart with hin; exact hin
        obtain ⟨_, hsome, hreliable, -⟩ := h.started hin
        obtain rfl : start = _ := by
          simpa [Inbox.inProgress, hin, hsome] using hstart.symm
        exact held_keepState hstart hnews
          (sent_of_bodies hreliable hsent hbodies fun hnone => hstray hnone start hstart hnews) h
      · exact h
      · exact h

theorem held_step {inbox : Inbox} (message : ServerMessage)
    (hreliable : message.reliable = true → message ∈ server.reliable)
    (hsent : ∀ state, message = .authoritativeState state → ∃ name, (name, state) ∈ server.sent)
    (hstray : ∀ state, message = .authoritativeState state → state.bodies = [] →
      ∀ start, inbox.inProgress = some start → Inbox.isNews inbox.view state = true →
        (start.name, state) ∈ server.sent)
    (h : Held server viewer inbox) : Held server viewer (inbox.receive message) := by
  cases message with
  | admission accepted => exact held_joinAccepted (server.admission _ (hreliable rfl)) h
  | joinRefusal | lobby | replayList => exact h.same rfl rfl rfl rfl rfl rfl
  | matchStart start => exact held_matchStart (hreliable rfl) h
  | matchEnd ended => exact held_matchEnd h
  | authoritativeState state =>
      obtain ⟨name, hname⟩ := hsent state rfl
      exact held_state hname (hstray state rfl) h
  | shot shot =>
      simp only [Inbox.receive, Inbox.onShot]
      split
      · exact h
      · split_ifs <;> exact h.same rfl rfl rfl rfl rfl rfl
  | hitConfirmation hit =>
      simp only [Inbox.receive, Inbox.onHitConfirmation]
      split
      · exact h
      · split_ifs <;> exact h.same rfl rfl rfl rfl rfl rfl
  | death death =>
      simp only [Inbox.receive, Inbox.onDeath]
      split
      · exact h
      · split_ifs <;> exact h.same rfl rfl rfl rfl rfl rfl
  | shotJudgement judgement =>
      simp only [Inbox.receive, Inbox.onShotJudgement]
      split_ifs <;> exact h.same rfl rfl rfl rfl rfl rfl

theorem Handed.before {before after : List ServerMessage} (h : Handed server (before ++ after)) :
    Handed server before where
  reliable := by
    have := h.reliable
    rw [List.filter_append] at this
    exact (List.prefix_append _ _).trans this
  states := fun state hstate => h.states state (List.mem_append_left _ hstate)

theorem Handed.mem_reliable {messages : List ServerMessage} (h : Handed server messages)
    {message : ServerMessage} (hmem : message ∈ messages) (hreliable : message.reliable = true) :
    message ∈ server.reliable :=
  h.reliable.subset (List.mem_filter.mpr ⟨hmem, hreliable⟩)

theorem NoBodilessStray.before {before after : List ServerMessage}
    (h : NoBodilessStray server viewer (before ++ after)) :
    NoBodilessStray server viewer before := by
  rintro first state rest rfl
  exact h first state (rest ++ after) (by simp)

theorem held_run (messages : List ServerMessage) (hhanded : Handed server messages)
    (hstray : NoBodilessStray server viewer messages) :
    Held server viewer (Inbox.run viewer messages) := by
  induction messages using List.reverseRecOn with
  | nil => exact held_init
  | append_singleton messages message ih =>
      rw [Inbox.run_concat]
      have hmem : message ∈ messages ++ [message] := by simp
      refine held_step message (hhanded.mem_reliable hmem) ?_ ?_ (ih hhanded.before hstray.before)
      · rintro state rfl; exact hhanded.states state hmem
      · rintro state rfl; exact hstray messages state [] rfl

/-- CORRECT exactly when no bodiless state strays: every view published on the way holds only what
    belongs to its Match. -/
theorem view_law (messages : List ServerMessage) (hhanded : Handed server messages) :
    (∀ before after, messages = before ++ after →
      ViewLaw server viewer (Inbox.run viewer before).view) ↔
      NoBodilessStray server viewer messages := by
  constructor
  · -- a bodiless state that is news is kept, so the law says it is of the Match in progress
    rintro hlaw before state after rfl hnone start hstart hnews
    have hkept : (Inbox.run viewer (before ++ [.authoritativeState state])).view =
        keepState (Inbox.run viewer before).view state := by
      rw [Inbox.run_concat]
      simp [Inbox.receive, Inbox.onAuthoritativeState, hstart, hnone, hnews]
    have hview := hlaw (before ++ [.authoritativeState state]) after (by simp)
    rw [hkept] at hview
    obtain ⟨_, hsame, hsent, -⟩ := hview.own state (by simp [keepState])
    have hin : (Inbox.run viewer before).view.matchStart = some start := by
      unfold Inbox.inProgress at hstart; split_ifs at hstart; exact hstart
    obtain rfl : start = _ := Option.some.inj (hin.symm.trans hsame)
    exact hsent
  · rintro hstray before after rfl
    exact (held_run before hhanded.before hstray.before).law

end

/-- Two Matches of one player, its body 1 and then 2; the first ends with no one left alive. -/
def twoMatches : CorrectServer where
  session := 10
  reliable :=
    [.admission ⟨10, 60, {}, "soldier"⟩, .matchStart ⟨[⟨10, 1, "soldier", {}⟩], 1, 100⟩,
      .matchEnd ⟨none⟩, .matchStart ⟨[⟨10, 2, "soldier", {}⟩], 9, 200⟩]
  sent := [(100, { tick := 5 }), (200, { tick := 9, bodies := [{ entity := 2 }] })]
  admission := by simp
  names := by
    simp only [List.mem_cons, reduceCtorEq, false_or, List.not_mem_nil, or_false,
      ServerMessage.matchStart.injEq]
    rintro start other (rfl | rfl) (rfl | rfl) h <;> first | rfl | cases h
  entities := by
    simp only [List.mem_cons, reduceCtorEq, false_or, List.not_mem_nil, or_false,
      ServerMessage.matchStart.injEq]
    rintro start other entity (rfl | rfl) (rfl | rfl) h h'
    · rfl
    · simp only [entityInMatch, List.any_cons, List.any_nil, Bool.or_false, beq_iff_eq] at h h'
      subst h; cases h'
    · simp only [entityInMatch, List.any_cons, List.any_nil, Bool.or_false, beq_iff_eq] at h h'
      subst h; cases h'
    · rfl
  bodies := by
    simp only [List.mem_cons, List.not_mem_nil, or_false, Prod.mk.injEq]
    rintro name state (⟨rfl, rfl⟩ | ⟨rfl, rfl⟩)
    · exact ⟨⟨[⟨10, 1, "soldier", {}⟩], 1, 100⟩, .inr (.inl rfl), rfl, by simp⟩
    · exact ⟨⟨[⟨10, 2, "soldier", {}⟩], 9, 200⟩, .inr (.inr (.inr rfl)), rfl,
        by simp [entityInMatch]⟩
  ticks := by
    simp only [List.mem_cons, List.not_mem_nil, or_false, Prod.mk.injEq]
    rintro name state other late (⟨rfl, rfl⟩ | ⟨rfl, rfl⟩) (⟨rfl, rfl⟩ | ⟨rfl, rfl⟩) h <;> simp_all

/-- The first Match's last state, late: it arrives when the second Match has started. -/
def lateState : List ServerMessage := twoMatches.reliable ++ [.authoritativeState { tick := 5 }]

theorem handed_lateState : Handed twoMatches lateState where
  reliable := ⟨[], rfl⟩
  states := by
    intro state hstate
    refine ⟨100, ?_⟩
    simpa [lateState, twoMatches] using hstate

theorem view_law_lateState :
    (∀ before after, lateState = before ++ after →
      ViewLaw twoMatches false (Inbox.run false before).view) ↔
      NoBodilessStray twoMatches false lateState :=
  view_law lateState handed_lateState

/-- The view of the second Match holds the first Match's state. -/
theorem late_state_held :
    Handed twoMatches lateState ∧
    (Inbox.run false lateState).view.recentAuthoritative = [{ tick := 5 }] ∧
    ¬ ViewLaw twoMatches false (Inbox.run false lateState).view := by
  have hrecent : (Inbox.run false lateState).view.recentAuthoritative = [{ tick := 5 }] := by
    decide
  refine ⟨handed_lateState, hrecent, fun h => ?_⟩
  obtain ⟨start, hstart, hsent, -⟩ := h.own { tick := 5 } (by rw [hrecent]; simp)
  have : (Inbox.run false lateState).view.matchStart =
      some ⟨[⟨10, 2, "soldier", {}⟩], 9, 200⟩ := by decide
  obtain rfl := Option.some.inj (this.symm.trans hstart)
  simp [twoMatches] at hsent

end Augusta.Harness
