import Augusta.Host.Impl
import Augusta.Host.MatchRun

/-! Who is in a `Match`, read off as the Session each peer has, and the players a server keeps beside
    it.

      match.members   peer ─▶ session            join  adds one, with the next ID
      players         session ─▶ peer            leave takes one out
                      one to one                 all else changes none -/

namespace Augusta.Host
open Lib (Table)

namespace Match
variable {ids : ℕ → SessionId} {m : Match} {peer other : PeerId} {session : SessionId}

theorem sessionOf_eq_some : m.sessionOf peer = some session ↔
    ∃ member, m.members.lookup peer = some member ∧ member.session = session :=
  Option.map_eq_some_iff

theorem mem_sessions : session ∈ m.membersBySession.map (·.session) ↔
    ∃ peer, m.sessionOf peer = some session := by
  simp only [membersBySession, List.mem_map, List.mem_insertionSort, AList.mem_values_iff,
    sessionOf_eq_some]
  constructor
  · rintro ⟨member, ⟨peer, hmember⟩, rfl⟩
    exact ⟨peer, member, hmember, rfl⟩
  · rintro ⟨peer, member, hmember, rfl⟩
    exact ⟨member, ⟨peer, hmember⟩, rfl⟩

theorem mem_playing : session ∈ m.playing ↔
    m.inMatch = true ∧ ∃ peer, m.sessionOf peer = some session := by
  rw [playing]
  split_ifs with hmatch
  · simp [hmatch, mem_sessions]
  · simp [hmatch]

theorem isPlaying_iff : m.isPlaying session = true ↔
    m.inMatch = true ∧ ∃ peer, m.sessionOf peer = some session := by
  simp only [isPlaying, Bool.and_eq_true, List.any_eq_true, beq_iff_eq, AList.mem_values_iff,
    sessionOf_eq_some]
  refine and_congr_right fun _ => ?_
  constructor
  · rintro ⟨member, ⟨peer, hmember⟩, rfl⟩
    exact ⟨peer, member, hmember, rfl⟩
  · rintro ⟨peer, member, hmember, rfl⟩
    exact ⟨member, ⟨peer, hmember⟩, rfl⟩

theorem mem_roster (h : session ∈ m.getRoster.players.map (·.session)) :
    ∃ peer, m.sessionOf peer = some session := by
  rw [getRoster] at h
  split_ifs at h with hmatch
  · cases h
  · rw [List.map_map] at h
    exact mem_sessions.mp h

/-! ### What each operation makes of the Sessions -/

/-- A change of the members that renames no one: what they are ready for is all that differs. -/
theorem lookup_mapEntries_session {members : Table PeerId Member} {f : PeerId → Member → Member}
    (hsession : ∀ peer member, (f peer member).session = member.session) :
    ((members.mapEntries f).lookup peer).map (·.session) = (members.lookup peer).map (·.session) := by
  rw [AList.lookup_mapEntries, Option.map_map]
  exact congrArg (fun g => (members.lookup peer).map g) (funext fun member => hsession peer member)

theorem carry_session (previous next : UInt32) (peer : PeerId) (member : Member) :
    (carry previous next peer member).session = member.session ∧
      (carry previous next peer member).character = member.character := by
  rw [carry]
  split_ifs <;> exact ⟨rfl, rfl⟩

/-- Where `peer` leaves from. -/
theorem leave_cases (m : Match) (peer : PeerId) :
    (peer ∉ m.members ∧ m.leave peer = (.none, m)) ∨
    (m.inMatch = true ∧ m.leave peer = (.endedMatch, { m with
      members := m.members.erase peer
      inMatch := false
      rosterVersion := m.rosterVersion + 1
      ticksSinceEnd := 0 })) ∨
    (m.inMatch = true ∧ m.leave peer = (.fromMatch, { m with members := m.members.erase peer })) ∨
    (m.inMatch = false ∧ m.leave peer = (.fromLobby, { m with
      rosterVersion := m.rosterVersion + 1
      members := (m.members.erase peer).mapEntries
        (carry m.rosterVersion (m.rosterVersion + 1)) })) := by
  by_cases hin : peer ∈ m.members
  · cases hmatch : m.inMatch with
    | false => exact .inr (.inr (.inr ⟨rfl, by simp [leave, hin, hmatch]⟩))
    | true =>
        by_cases hlast : (m.members.erase peer).size = 0
        · exact .inr (.inl ⟨rfl, by simp [leave, hin, hmatch, hlast, endMatch]⟩)
        · exact .inr (.inr (.inl ⟨rfl, by simp [leave, hin, hmatch, hlast]⟩))
  · exact .inl ⟨hin, by simp [leave, hin]⟩

theorem sessionOf_leave (m : Match) (peer other : PeerId) :
    (m.leave peer).2.sessionOf other = if other = peer then none else m.sessionOf other := by
  have herase : ((m.members.erase peer).lookup other).map (·.session) =
      if other = peer then none else m.sessionOf other := by
    rw [AList.lookup_erase_eq]
    split_ifs <;> rfl
  rcases m.leave_cases peer with ⟨hout, h⟩ | ⟨-, h⟩ | ⟨-, h⟩ | ⟨-, h⟩
  · rw [h]
    split_ifs with hsame
    · rw [hsame, sessionOf, AList.lookup_eq_none.mpr hout]
      rfl
    · rfl
  · rw [h]
    exact herase
  · rw [h]
    exact herase
  · rw [h, ← herase]
    exact lookup_mapEntries_session fun other member => (carry_session _ _ other member).1

theorem sessionOf_ready (m : Match) (peer : PeerId) (version : UInt32) (other : PeerId) :
    (m.ready peer version).2.sessionOf other = m.sessionOf other := by
  rw [ready]
  split_ifs
  · rfl
  · refine lookup_mapEntries_session fun other member => ?_
    split_ifs <;> rfl

theorem sessionOf_endMatch (m : Match) (winner : Option SessionId) (other : PeerId) :
    (m.endMatch winner).2.sessionOf other = m.sessionOf other := by
  rw [endMatch]
  split_ifs <;> rfl

theorem sessionOf_tryStart (ids : ℕ → SessionId) (m : Match) (other : PeerId) :
    (m.tryStart ids).2.sessionOf other = m.sessionOf other := by
  rw [tryStart]
  split_ifs <;> rfl

theorem sessionOf_tick (m : Match) (other : PeerId) : m.tick.sessionOf other = m.sessionOf other := by
  rw [tick]
  split_ifs <;> rfl

/-- A Join is answered with the Session the peer has, or with the next ID, in the Lobby. -/
theorem join_cases {request : JoinRequest} {admission : Admission} {joined : Match}
    (h : m.join ids peer request = (.ok admission, joined)) :
    (joined = m ∧ m.sessionOf peer = some admission.session) ∨
      (m.sessionOf peer = none ∧ m.inMatch = false ∧ m.members.size < m.playerCount ∧
        request.character ∈ m.characters ∧ admission.session = ids m.idsTaken ∧
        joined = { m with
          members := m.members.insert peer ⟨ids m.idsTaken, request.character, request.spawn, 0⟩
          rosterVersion := m.rosterVersion + 1
          idsTaken := m.idsTaken + 1 }) := by
  rw [join] at h
  cases hmember : m.members.lookup peer with
  | some existing =>
      rw [hmember] at h
      obtain ⟨hadmission, rfl⟩ := Prod.mk.inj h
      cases hadmission
      exact .inl ⟨rfl, by rw [sessionOf, hmember]; rfl⟩
  | none =>
      rw [hmember] at h
      cases hrefusal : m.refusalOf request with
      | some refusal =>
          rw [hrefusal] at h
          cases h
      | none =>
          rw [hrefusal] at h
          obtain ⟨hadmission, rfl⟩ := Prod.mk.inj h
          cases hadmission
          obtain ⟨hlobby, hroom⟩ := refusalOf_eq_none hrefusal
          refine .inr ⟨by rw [sessionOf, hmember]; rfl, hlobby, hroom, ?_, rfl, rfl⟩
          rw [refusalOf] at hrefusal
          split at hrefusal
          · cases hrefusal
          · split at hrefusal
            · cases hrefusal
            · split_ifs at hrefusal with hcharacter
              exact hcharacter

/-! ### What is kept of the members -/

/-- Each member has room, a character there is, and an ID its `Match` gave it alone. -/
structure Booked (ids : ℕ → SessionId) (m : Match) : Prop where
  room : m.members.size ≤ m.playerCount
  cast : ∀ peer member, m.members.lookup peer = some member → member.character ∈ m.characters
  given : ∀ peer session, m.sessionOf peer = some session → ∃ i < m.idsTaken, session = ids i
  apart : ∀ peer other session, m.sessionOf peer = some session →
    m.sessionOf other = some session → peer = other

/-- No member is new: some may be gone, and none is another's. -/
structure Fewer (m m' : Match) : Prop where
  characters : m'.characters = m.characters
  playerCount : m'.playerCount = m.playerCount
  idsTaken : m.idsTaken ≤ m'.idsTaken
  size : m'.members.size ≤ m.members.size
  kept : ∀ peer member, m'.members.lookup peer = some member → ∃ old,
    m.members.lookup peer = some old ∧ old.session = member.session ∧
      old.character = member.character

namespace Fewer
variable {m' : Match}

theorem refl (m : Match) : Fewer m m :=
  ⟨rfl, rfl, le_rfl, le_rfl, fun _ member h => ⟨member, h, rfl, rfl⟩⟩

theorem sessionOf (h : Fewer m m') (hpeer : m'.sessionOf peer = some session) :
    m.sessionOf peer = some session := by
  obtain ⟨member, hmember, hsession⟩ := sessionOf_eq_some.mp hpeer
  obtain ⟨old, hold, hsame, -⟩ := h.kept peer member hmember
  exact sessionOf_eq_some.mpr ⟨old, hold, hsame.trans hsession⟩

theorem booked (h : Fewer m m') (hbooked : Booked ids m) : Booked ids m' where
  room := by
    rw [h.playerCount]
    exact h.size.trans hbooked.room
  cast := by
    intro peer member hmember
    obtain ⟨old, hold, -, hcharacter⟩ := h.kept peer member hmember
    rw [h.characters, ← hcharacter]
    exact hbooked.cast peer old hold
  given := by
    intro peer session hpeer
    obtain ⟨i, hi, hsession⟩ := hbooked.given peer session (h.sessionOf hpeer)
    exact ⟨i, hi.trans_le h.idsTaken, hsession⟩
  apart := by
    intro peer other session hpeer hother
    exact hbooked.apart peer other session (h.sessionOf hpeer) (h.sessionOf hother)

end Fewer

/-- A change of what the members are ready for. -/
theorem fewer_mapEntries {f : PeerId → Member → Member} {members : Table PeerId Member}
    (hf : ∀ peer member, (f peer member).session = member.session ∧
      (f peer member).character = member.character)
    {member : Member} (h : (members.mapEntries f).lookup peer = some member) :
    ∃ old, members.lookup peer = some old ∧ old.session = member.session ∧
      old.character = member.character := by
  rw [AList.lookup_mapEntries, Option.map_eq_some_iff] at h
  obtain ⟨old, hold, rfl⟩ := h
  exact ⟨old, hold, (hf peer old).1.symm, (hf peer old).2.symm⟩

theorem lookup_of_erase {members : Table PeerId Member} {member : Member}
    (h : (members.erase other).lookup peer = some member) : members.lookup peer = some member := by
  rw [AList.lookup_erase_eq] at h
  split_ifs at h
  exact h

theorem fewer_leave (m : Match) (peer : PeerId) : Fewer m (m.leave peer).2 := by
  have hsize := AList.size_erase_le m.members peer
  rcases m.leave_cases peer with ⟨-, h⟩ | ⟨-, h⟩ | ⟨-, h⟩ | ⟨-, h⟩ <;> rw [h]
  · exact Fewer.refl m
  · exact ⟨rfl, rfl, le_rfl, hsize, fun _ member h => ⟨member, lookup_of_erase h, rfl, rfl⟩⟩
  · exact ⟨rfl, rfl, le_rfl, hsize, fun _ member h => ⟨member, lookup_of_erase h, rfl, rfl⟩⟩
  · refine ⟨rfl, rfl, le_rfl, by simpa using hsize, fun other member hmember => ?_⟩
    obtain ⟨old, hold, hsame⟩ := fewer_mapEntries (carry_session _ _) hmember
    exact ⟨old, lookup_of_erase hold, hsame⟩

theorem fewer_ready (m : Match) (peer : PeerId) (version : UInt32) :
    Fewer m (m.ready peer version).2 := by
  rw [ready]
  split_ifs
  · exact Fewer.refl m
  · refine ⟨rfl, rfl, le_rfl, by simp, fun other member hmember => fewer_mapEntries ?_ hmember⟩
    intro other member
    split_ifs <;> exact ⟨rfl, rfl⟩

theorem fewer_endMatch (m : Match) (winner : Option SessionId) : Fewer m (m.endMatch winner).2 := by
  rw [endMatch]
  split_ifs
  · exact ⟨rfl, rfl, le_rfl, le_rfl, fun _ member h => ⟨member, h, rfl, rfl⟩⟩
  · exact Fewer.refl m

theorem fewer_tick (m : Match) : Fewer m m.tick := by
  rw [tick]
  split_ifs
  · exact ⟨rfl, rfl, le_rfl, le_rfl, fun _ member h => ⟨member, h, rfl, rfl⟩⟩
  · exact Fewer.refl m

theorem fewer_tryStart (ids : ℕ → SessionId) (m : Match) : Fewer m (m.tryStart ids).2 := by
  have hsame : ∀ (peer : PeerId) (member : Member), m.members.lookup peer = some member →
      ∃ old, m.members.lookup peer = some old ∧ old.session = member.session ∧
        old.character = member.character :=
    fun _ member h => ⟨member, h, rfl, rfl⟩
  rw [tryStart]
  split_ifs
  · exact Fewer.refl m
  · exact ⟨rfl, rfl, Nat.le_succ _, le_rfl, hsame⟩
  · exact Fewer.refl m

theorem sessionOf_insert (m : Match) (peer : PeerId) (member : Member) (version : UInt32) (taken : ℕ)
    (other : PeerId) :
    { m with
      members := m.members.insert peer member, rosterVersion := version
      idsTaken := taken : Match }.sessionOf other =
      if other = peer then some member.session else m.sessionOf other := by
  simp only [Match.sessionOf, AList.lookup_insert_eq]
  split_ifs <;> rfl

/-- The one way in: the next ID, which no one else has. -/
theorem booked_join (hids : Function.Injective ids) (h : Booked ids m) {request : JoinRequest}
    {admission : Admission} {joined : Match}
    (hjoin : m.join ids peer request = (.ok admission, joined)) : Booked ids joined := by
  rcases join_cases hjoin with ⟨rfl, -⟩ | ⟨hnone, -, hroom, hcharacter, -, rfl⟩
  · exact h
  · have hnew (other : PeerId) : m.sessionOf other ≠ some (ids m.idsTaken) := by
      intro hother
      obtain ⟨i, hi, hsame⟩ := h.given other _ hother
      exact absurd (hids hsame) (by omega)
    refine ⟨?_, ?_, ?_, ?_⟩
    · have hout : peer ∉ m.members := by
        intro hin
        obtain ⟨member, hmember⟩ := AList.mem_iff_lookup.mp hin
        rw [sessionOf, hmember] at hnone
        cases hnone
      exact (AList.size_insert hout _).trans_le hroom
    · intro other member hmember
      rw [AList.lookup_insert_eq] at hmember
      split_ifs at hmember
      · cases hmember
        exact hcharacter
      · exact h.cast other member hmember
    · intro other session hother
      rw [sessionOf_insert] at hother
      split_ifs at hother
      · cases hother
        exact ⟨m.idsTaken, Nat.lt_succ_self _, rfl⟩
      · obtain ⟨i, hi, hsame⟩ := h.given other session hother
        exact ⟨i, hi.trans (Nat.lt_succ_self _), hsame⟩
    · intro first second session hfirst hsecond
      rw [sessionOf_insert] at hfirst hsecond
      split_ifs at hfirst hsecond with hpeer hother hother
      · exact hpeer.trans hother.symm
      · cases hfirst
        exact absurd hsecond (hnew second)
      · cases hsecond
        exact absurd hfirst (hnew first)
      · exact h.apart first second session hfirst hsecond

/-- A peer admitted has a Session, and the others the ones they had. -/
theorem sessionOf_join {request : JoinRequest} {admission : Admission} {joined : Match}
    (hjoin : m.join ids peer request = (.ok admission, joined)) (other : PeerId) :
    joined.sessionOf other =
      if other = peer then some admission.session else m.sessionOf other := by
  rcases join_cases hjoin with ⟨rfl, hsession⟩ | ⟨-, -, -, -, hsession, rfl⟩
  · split_ifs with hsame
    · rw [hsame, hsession]
    · rfl
  · rw [sessionOf_insert, hsession]

theorem booked_ofConfig (config : MatchConfig) : Booked ids (.ofConfig config) where
  room := Nat.zero_le _
  cast := by
    intro peer member h
    cases h
  given := by
    intro peer session h
    cases h
  apart := by
    intro peer other session h
    cases h

/-- A member is listed once. -/
theorem nodup_sessions (h : Booked ids m) : (m.membersBySession.map (·.session)).Nodup := by
  have hperm : (m.membersBySession.map (·.session)).Perm (m.members.values.map (·.session)) :=
    (List.perm_insertionSort _ _).map _
  refine hperm.nodup_iff.mpr ?_
  rw [AList.values, List.map_map]
  refine List.Nodup.map_on ?_ (List.Nodup.of_map _ m.members.nodupKeys)
  rintro ⟨peer, member⟩ hmember ⟨other, member'⟩ hmember' hsame
  have hpeer := AList.mem_entries_iff.mp hmember
  have hother := AList.mem_entries_iff.mp hmember'
  obtain rfl := h.apart peer other member.session
    (sessionOf_eq_some.mpr ⟨member, hpeer, rfl⟩) (sessionOf_eq_some.mpr ⟨member', hother, hsame.symm⟩)
  rw [hpeer] at hother
  cases hother
  rfl

end Match
end Augusta.Host
