import Augusta.Capture.FileLaw
import Augusta.Harness.Reenactment
import Augusta.Host.Capturer
import Augusta.Protocol.Canonical
import Augusta.Simulation.World
import Mathlib.Data.List.Nodup

/-! Whether a Reenactment compares each player with itself.

      capture     player 1 at s₁   player 2 at s₂   …
      Match       plays 1 at s₁    plays 2 at s₂    …    anyone at s
      number of   the first of the capture that spawned where its body did

    The number is a player's own exactly where no two of the capture spawned at one point, and no one
    else at theirs. -/

namespace Augusta.Harness
open Capture (Player MatchCapture)
open Link (MatchPlayer MatchStart)
open Math (snapPosition Vec3)

/-! ### What a capture that reads holds -/

/-- A capture's players: no more than a number names, each spawned on the position grid. -/
structure Readable (capture : MatchCapture) : Prop where
  count : capture.joins.length ≤ 255
  grid : ∀ join ∈ capture.joins, snapPosition join.spawn = join.spawn

section
variable {parse : Lib.Protobuf.Bytes → Option Protocol.Pb.CaptureRecord}

theorem snapped_of_read {isUtf8 : Protocol.Text → Bool} {pb : Protocol.Pb.CaptureRecord}
    {wire : Protocol.CapturedJoinWire} (h : pb.read isUtf8 = .ok (.join wire)) :
    snapPosition wire.spawn = wire.spawn := by
  cases pb with
  | notSet => cases h
  | header body | command body =>
      obtain ⟨_, -, heq⟩ := Except.map_eq_ok.mp h
      cases heq
  | join body =>
      obtain ⟨read, hread, heq⟩ := Except.map_eq_ok.mp h
      cases heq
      obtain ⟨spawn, hspawn, hread⟩ := Except.bind_eq_ok.mp hread
      obtain ⟨session, -, hread⟩ := Except.bind_eq_ok.mp hread
      obtain ⟨character, -, hread⟩ := Except.bind_eq_ok.mp hread
      obtain ⟨player, -, hread⟩ := Except.bind_eq_ok.mp hread
      rw [← Except.pure_eq_ok.mp hread]
      exact Protocol.Inbound.snap_of_vecFromSteps hspawn
  | leave body | matchEnd body =>
      obtain ⟨_, -, h⟩ := Except.bind_eq_ok.mp h
      cases h
  | death body =>
      obtain ⟨_, -, h⟩ := Except.bind_eq_ok.mp h
      obtain ⟨_, -, h⟩ := Except.bind_eq_ok.mp h
      cases h

theorem snapped_of_decodeCapture {payload : Lib.Protobuf.Bytes} {join : Link.CapturedJoin}
    (h : Link.decodeCapture parse payload = some (.join join)) :
    snapPosition join.join.spawn = join.join.spawn := by
  rw [Link.decodeCapture] at h
  split at h
  · next record hrecord =>
      cases record with
      | join wire =>
          cases Option.some.inj h
          rw [Protocol.decodeCaptureRecord] at hrecord
          split_ifs at hrecord
          split at hrecord
          · cases hrecord
          · exact snapped_of_read hrecord
      | _ => cases Option.some.inj h
  · cases h

/-- Each record read is what some payload decodes to. -/
theorem decoded_of_readRecords {fuel : ℕ} {order : Capture.RecordOrder} {s : Capture.Stream}
    {read : List Link.CaptureRecord × Bool}
    (h : Capture.readRecords parse fuel order s = .ok read) :
    ∀ record ∈ read.1, ∃ payload, Link.decodeCapture parse payload = some record := by
  induction fuel generalizing order s read with
  | zero => cases h
  | succ fuel ih =>
      rw [Capture.readRecords] at h
      cases hframe : Capture.readFrame s with
      | end_ => rw [hframe] at h; cases h; simp
      | torn => rw [hframe] at h; cases h; simp
      | unreadable => rw [hframe] at h; cases h
      | read payload after =>
          rw [hframe] at h
          cases hdecode : Link.decodeCapture parse payload with
          | none => simp [hdecode] at h
          | some first =>
              cases hadmit : order.admits first with
              | none => simp [hdecode, hadmit] at h
              | some order' =>
                  simp only [hdecode, hadmit] at h
                  obtain ⟨rest, hrest, h⟩ := Except.bind_eq_ok.mp h
                  rw [← Except.pure_eq_ok.mp h]
                  intro record hin
                  rcases List.mem_cons.mp hin with rfl | hin
                  · exact ⟨payload, hdecode⟩
                  · exact ih hrest record hin

/-- What `ReadCapture` gives is so. -/
theorem readable_of_readCapture {s : Capture.Stream} {capture : MatchCapture}
    (h : Capture.readCapture parse s = .ok capture) : Readable capture where
  count := Capture.readCapture_joins_le h
  grid := by
    obtain ⟨file, hfile, h⟩ := Except.bind_eq_ok.mp h
    rw [← Except.pure_eq_ok.mp h]
    unfold Capture.readCaptureFile at hfile
    split_ifs at hfile
    obtain ⟨s, -, hfile⟩ := Except.bind_eq_ok.mp hfile
    obtain ⟨s, -, hfile⟩ := Except.bind_eq_ok.mp hfile
    obtain ⟨⟨header, s⟩, -, hfile⟩ := Except.bind_eq_ok.mp hfile
    obtain ⟨⟨records, torn⟩, hread, hfile⟩ := Except.bind_eq_ok.mp hfile
    rw [← Except.pure_eq_ok.mp hfile]
    intro join hjoin
    obtain ⟨record, hin, hof⟩ := List.mem_filterMap.mp hjoin
    obtain ⟨payload, hdecode⟩ := decoded_of_readRecords hread record hin
    cases record with
    | join captured =>
        obtain rfl := Option.some.inj hof
        exact snapped_of_decodeCapture hdecode
    | header | event => cases hof

end

/-! ### A Match of a Reenactment -/

/-- A Match start in which each captured player is played, by a body and a session of its own:
    `plays` says by whom, 0 for a place that is anyone's. Where it asked to spawn went to the server
    and came back over the wire. -/
structure Reenacts (script : Script) (start : MatchStart) (plays : MatchPlayer → Player) : Prop where
  entities : (start.players.map (·.entity)).Nodup
  sessions : (start.players.map (·.session)).Nodup
  each : ∀ n, 1 ≤ n → n ≤ script.spawns.length → ∃ player ∈ start.players, (plays player).toNat = n
  spawned : ∀ player ∈ start.players, plays player ≠ 0 →
    ∃ spawn, script.spawns[(plays player).toNat - 1]? = some spawn ∧
      player.spawn = snapPosition (snapPosition spawn)

/-- Each body and each session is given the number of the captured player it plays. -/
def NamesEach (script : Script) (view : ServerView) (start : MatchStart)
    (plays : MatchPlayer → Player) : Prop :=
  ∀ player ∈ start.players, numberOfEntity script view player.entity = plays player ∧
    numberOfSession script view player.session = plays player

/-- The captured player a body plays. -/
def playedBy (start : MatchStart) (plays : MatchPlayer → Player) (entity : EntityId) : Player :=
  ((start.players.find? fun player => player.entity == entity).map plays).getD 0

/-- The Deaths are paired player by player: every captured and every observed one is there, `matched`
    says which with which. -/
def PairsEach (script : Script) (view : ServerView) (start : MatchStart)
    (plays : MatchPlayer → Player) (observed : List ObservedDeath) : Prop :=
  ∃ matched, pairDeaths script view observed =
      matched.map (fun pair => ⟨pair.1, pair.2.map (toldAs script view)⟩) ∧
    Lib.Pairing.Paired DeathAt.victim (fun death => playedBy start plays death.victim)
      script.deaths observed matched

/-- No two captured players spawned at one point, and no one else at theirs. -/
structure Apart (script : Script) (start : MatchStart) (plays : MatchPlayer → Player) : Prop where
  captured : script.spawns.Pairwise fun a b => a.equals b = false
  others : ∀ player ∈ start.players, plays player = 0 →
    ∀ spawn ∈ script.spawns, spawn.equals player.spawn = false

section
variable {script : Script} {view : ServerView} {start : MatchStart} {plays : MatchPlayer → Player}
  {capture : MatchCapture} {player : Player}

/-- A number is that of the first captured player that spawned there. -/
theorem numberAt_eq {spawn : Vec3} {i : ℕ} (hi : i < script.spawns.length)
    (hsame : script.spawns[i].equals spawn = true)
    (hfirst : ∀ j, (hj : j < i) → script.spawns[j].equals spawn = false) :
    numberAt script spawn = UInt8.ofNat (i + 1) := by
  have hfind : script.spawns.findIdx? (fun other => other.equals spawn) = some i := by
    rw [List.findIdx?_eq_some_iff_getElem]
    exact ⟨hi, hsame, fun j hj => by rw [hfirst j hj]; exact Bool.false_ne_true⟩
  rw [numberAt, hfind]

theorem numberAt_eq_zero_iff (hcount : script.spawns.length ≤ 255) (spawn : Vec3) :
    numberAt script spawn = 0 ↔ ∀ other ∈ script.spawns, other.equals spawn = false := by
  rw [← List.findIdx?_eq_none_iff, numberAt]
  cases hfind : script.spawns.findIdx? fun other => other.equals spawn with
  | none => simp
  | some i =>
      obtain ⟨hi, -, -⟩ := List.findIdx?_eq_some_iff_getElem.mp hfind
      simp only [reduceCtorEq, iff_false]
      intro hzero
      have hnat := congrArg UInt8.toNat hzero
      rw [UInt8.toNat_ofNat_of_lt' (by simp only [UInt8.size]; omega)] at hnat
      cases hnat

/-- Where a key is each entry's own, looking it up finds the entry. -/
theorem find?_of_nodup {κ : Type} [DecidableEq κ] {key : MatchPlayer → κ} {players : List MatchPlayer}
    (hnodup : (players.map key).Nodup) {found : MatchPlayer} (hin : found ∈ players) :
    players.find? (fun player => key player == key found) = some found := by
  induction players with
  | nil => cases hin
  | cons first rest ih =>
      rw [List.map_cons, List.nodup_cons] at hnodup
      rcases List.mem_cons.mp hin with rfl | hin
      · rw [List.find?_cons_of_pos (by simp)]
      · have hother : key first ≠ key found := fun hsame =>
          hnodup.1 (hsame ▸ List.mem_map_of_mem hin)
        rw [List.find?_cons_of_neg (by simpa using hother)]
        exact ih hnodup.2 hin

/-- The number a body or a session is given is that of where its player spawned. -/
theorem numbers_eq (h : Reenacts script start plays) (hview : view.matchStart = some start)
    {player : MatchPlayer} (hin : player ∈ start.players) :
    numberOfEntity script view player.entity = numberAt script player.spawn ∧
      numberOfSession script view player.session = numberAt script player.spawn := by
  have hentity := find?_of_nodup h.entities hin
  have hsession := find?_of_nodup h.sessions hin
  constructor
  · rw [numberOfEntity, numberOf, findPlayer, hview, Option.bind_some, hentity]
  · rw [numberOfSession, numberOf, findPlayer, hview, Option.bind_some, hsession]

/-- A captured player spawned where the capture says, to the bit. -/
theorem spawned_at (h : Reenacts script start plays) (hgrid : ∀ s ∈ script.spawns, snapPosition s = s)
    {player : MatchPlayer} (hin : player ∈ start.players) (hplays : plays player ≠ 0) :
    ∃ hi : (plays player).toNat - 1 < script.spawns.length,
      player.spawn = script.spawns[(plays player).toNat - 1] ∧
        script.spawns[(plays player).toNat - 1].equals player.spawn = true := by
  obtain ⟨spawn, hspawn, hwhere⟩ := h.spawned player hin hplays
  obtain ⟨hi, hget⟩ := List.getElem?_eq_some_iff.mp hspawn
  have hon : snapPosition spawn = spawn := hgrid spawn (hget ▸ List.getElem_mem hi)
  have hfinite : spawn.isFinite = true := hon ▸ Math.Vec3.snap_isFinite spawn Math.kPositionGrid
  refine ⟨hi, ?_, ?_⟩
  · rw [hwhere, hon, hon, hget]
  · rw [hwhere, hon, hon, hget]
    exact Math.Vec3.equals_self hfinite

/-- Where the captured players spawned apart, each is given its own number. -/
theorem namesEach_of_apart (h : Reenacts script start plays) (hview : view.matchStart = some start)
    (hgrid : ∀ s ∈ script.spawns, snapPosition s = s) (hcount : script.spawns.length ≤ 255)
    (hapart : Apart script start plays) : NamesEach script view start plays := by
  intro player hin
  have hnumber : numberAt script player.spawn = plays player := by
    by_cases hplays : plays player = 0
    · rw [hplays]
      exact (numberAt_eq_zero_iff hcount _).mpr (hapart.others player hin hplays)
    · obtain ⟨hi, hwhere, hsame⟩ := spawned_at h hgrid hin hplays
      have hpos : (plays player).toNat ≠ 0 := fun hzero => hplays (UInt8.toNat_inj.mp hzero)
      have hfirst := numberAt_eq hi hsame fun j hj => by
        rw [hwhere]
        exact List.pairwise_iff_getElem.mp hapart.captured j _ (by omega) hi hj
      rw [hfirst, Nat.sub_add_cancel (by omega), UInt8.ofNat_toNat]
  rw [(numbers_eq h hview hin).1, (numbers_eq h hview hin).2]
  exact ⟨hnumber, hnumber⟩

/-- Where each is given its own number, they spawned apart. -/
theorem apart_of_namesEach (h : Reenacts script start plays) (hview : view.matchStart = some start)
    (hgrid : ∀ s ∈ script.spawns, snapPosition s = s) (hcount : script.spawns.length ≤ 255)
    (hnames : NamesEach script view start plays) : Apart script start plays where
  captured := by
    rw [List.pairwise_iff_getElem]
    intro i j hi hj hij
    by_contra hsame
    rw [Bool.not_eq_false] at hsame
    obtain ⟨player, hin, hplays⟩ := h.each (j + 1) (by omega) (by omega)
    have hne : plays player ≠ 0 := fun hzero => by rw [hzero] at hplays; cases hplays
    obtain ⟨hat, hwhere, -⟩ := spawned_at h hgrid hin hne
    have hspawn : player.spawn = script.spawns[j] := by
      rw [hwhere]
      congr 1
      omega
    -- The first that spawned there is `i` or one before it.
    have hnumber : numberAt script player.spawn = plays player :=
      (numbers_eq h hview hin).1.symm.trans (hnames player hin).1
    have hfound : ∃ k, script.spawns.findIdx? (fun other => other.equals player.spawn) = some k ∧
        k ≤ i := by
      cases hfind : script.spawns.findIdx? fun other => other.equals player.spawn with
      | none =>
          have hnone := List.findIdx?_eq_none_iff.mp hfind script.spawns[i] (List.getElem_mem hi)
          rw [hspawn, hsame] at hnone
          cases hnone
      | some k =>
          refine ⟨k, rfl, Nat.le_of_not_lt fun hlt => ?_⟩
          obtain ⟨_, _, hbefore⟩ := List.findIdx?_eq_some_iff_getElem.mp hfind
          exact hbefore i hlt (hspawn ▸ hsame)
    obtain ⟨k, hfind, hk⟩ := hfound
    rw [numberAt, hfind] at hnumber
    have hnat := congrArg UInt8.toNat hnumber
    rw [UInt8.toNat_ofNat_of_lt' (by simp only [UInt8.size]; omega)] at hnat
    omega
  others player hin hplays := by
    refine (numberAt_eq_zero_iff hcount _).mp ?_
    rw [← (numbers_eq h hview hin).1, (hnames player hin).1, hplays]

/-- Where each body is given its own number, Deaths are paired player by player. -/
theorem pairsEach_of_namesEach (hview : view.matchStart = some start)
    (hnames : NamesEach script view start plays) (observed : List ObservedDeath) :
    PairsEach script view start plays observed := by
  have hvictim : (DeathAt.victim ∘ toldAs script view) =
      fun death => playedBy start plays death.victim := by
    funext death
    rw [Function.comp_apply, toldAs, playedBy]
    simp only [numberOfEntity, numberOf, findPlayer, hview, Option.bind_some]
    cases hfind : start.players.find? fun player => player.entity == death.victim with
    | none => rfl
    | some player =>
        have hin := List.mem_of_find?_eq_some hfind
        have hentity : player.entity = death.victim := by
          simpa using List.find?_some hfind
        have hnumber := (hnames player hin).1
        rw [numberOfEntity, numberOf, findPlayer, hview, Option.bind_some, hentity, hfind] at hnumber
        exact hnumber
  refine ⟨_, ?_, Lib.Pairing.paired script.deaths observed⟩
  rw [pairDeaths, Lib.Pairing.pairing_map, hvictim, List.map_map]
  rfl

/-- CORRECT: a Reenactment gives every body and session the number of the captured player it plays,
    and pairs Deaths player by player, exactly where the captured players spawned apart from each
    other and from everyone else. -/
theorem compares_each (hread : Script.read capture player = some script)
    (hcapture : Readable capture) (hview : view.matchStart = some start)
    (h : Reenacts script start plays) :
    (NamesEach script view start plays ∧ ∀ observed, PairsEach script view start plays observed) ↔
      Apart script start plays := by
  have hspawns := (Script.read_eq_some hread).2.1
  have hcount : script.spawns.length ≤ 255 := by
    rw [hspawns, List.length_map]
    exact hcapture.count
  have hgrid : ∀ s ∈ script.spawns, snapPosition s = s := by
    rw [hspawns]
    intro s hin
    obtain ⟨join, hjoin, rfl⟩ := List.mem_map.mp hin
    exact hcapture.grid join hjoin
  constructor
  · rintro ⟨hnames, -⟩
    exact apart_of_namesEach h hview hgrid hcount hnames
  · intro hapart
    have hnames := namesEach_of_apart h hview hgrid hcount hapart
    exact ⟨hnames, pairsEach_of_namesEach hview hnames⟩

end

/-! ### A duel, at two points and at one -/

/-- The capture of a Match of two, spawned there, in which the first kills the second. -/
def duelCapture (first second : Vec3) : MatchCapture :=
  let entrants : List Host.CaptureEntrant := [⟨5, 1, "soldier", first⟩, ⟨6, 2, "soldier", second⟩]
  let started := ({ header := {} } : Host.Capturer).opened ⟨9, entrants, 100, 0⟩
  let capturer := entrants.foldl (fun capturer entrant => (capturer.enter entrant).1) started
  { header := { tickRateHz := 60 }
    joins := entrants.map fun entrant =>
      ⟨entrant.session, entrant.character, snapPosition entrant.spawn⟩
    events := (capturer.death 103 2 1).toList }

/-- Its Reenactment's Match: the same two, under other names. -/
def duelAgain (first second : Vec3) : MatchStart where
  players := [⟨7, 11, "soldier", first⟩, ⟨8, 12, "soldier", second⟩]
  firstTick := 40

def duelPlays (player : MatchPlayer) : Player := if player.entity = 11 then 1 else 2

theorem duel_reenacts {first second : Vec3} {script : Script}
    (hspawns : script.spawns = [snapPosition first, snapPosition second])
    (hfirst : snapPosition first = first) (hsecond : snapPosition second = second) :
    Reenacts script (duelAgain first second) duelPlays where
  entities := (by decide : ([11, 12] : List EntityId).Nodup)
  sessions := (by decide : ([7, 8] : List SessionId).Nodup)
  each n hpos hle := by
    rw [hspawns] at hle
    have hn : n = 1 ∨ n = 2 := by
      rw [List.length_cons, List.length_singleton] at hle
      omega
    rcases hn with rfl | rfl
    · exact ⟨_, List.mem_cons_self, rfl⟩
    · exact ⟨_, List.mem_cons_of_mem _ List.mem_cons_self, rfl⟩
  spawned player hin _ := by
    rw [hspawns]
    rcases List.mem_cons.mp hin with rfl | hin
    · exact ⟨_, rfl, by rw [hfirst, hfirst, hfirst]⟩
    · rw [List.mem_singleton.mp hin]
      exact ⟨_, rfl, by rw [hsecond, hsecond, hsecond]⟩

theorem duelCapture_readable {first second : Vec3} : Readable (duelCapture first second) where
  count := (by decide : 2 ≤ 255)
  grid join hin := by
    obtain ⟨entrant, -, rfl⟩ := List.mem_map.mp hin
    exact Vec3.snap_snap _ _

/-- Two captured players a metre apart. -/
theorem compares_each_duel : ∃ script, Script.read (duelCapture {} ⟨.one, .zero, .zero⟩) 1 = some script ∧
    ((NamesEach script { matchStart := some (duelAgain {} ⟨.one, .zero, .zero⟩) }
        (duelAgain {} ⟨.one, .zero, .zero⟩) duelPlays ∧
      ∀ observed, PairsEach script { matchStart := some (duelAgain {} ⟨.one, .zero, .zero⟩) }
        (duelAgain {} ⟨.one, .zero, .zero⟩) duelPlays observed) ↔
      Apart script (duelAgain {} ⟨.one, .zero, .zero⟩) duelPlays) := by
  obtain ⟨script, hread⟩ : ∃ script,
      Script.read (duelCapture {} ⟨.one, .zero, .zero⟩) 1 = some script := ⟨_, rfl⟩
  have hagain := duel_reenacts (Script.read_eq_some hread).2.1 (by decide +kernel)
    (by decide +kernel)
  exact ⟨script, hread, compares_each hread duelCapture_readable rfl hagain⟩

/-- With no Game policy for it a Map of one Spawn point spawns both there: the second is given the
    first's number, and its captured Death and the one told stay unpaired. -/
theorem shared_point_misnamed :
    (∀ (world : Simulation.World) (clips : Prediction.Clips),
      (world.startMatch (fun _ _ => none) [⟨1, ⟨5, "soldier"⟩, clips, none⟩,
        ⟨2, ⟨6, "soldier"⟩, clips, none⟩] [{}]).2 = [{}, {}]) ∧
    ∃ script, Script.read (duelCapture {} {}) 1 = some script ∧
      Reenacts script (duelAgain {} {}) duelPlays ∧
      numberOfEntity script { matchStart := some (duelAgain {} {}) } 12 = 1 ∧
      numberOfSession script { matchStart := some (duelAgain {} {}) } 8 = 1 ∧
      pairDeaths script { matchStart := some (duelAgain {} {}) } [⟨44, 12, 11⟩] =
        [⟨some ⟨3, 2, 1⟩, none⟩, ⟨none, some ⟨4, 1, 1⟩⟩] ∧
      ¬ NamesEach script { matchStart := some (duelAgain {} {}) } (duelAgain {} {}) duelPlays := by
  refine ⟨fun world clips => ?_, _, rfl, duel_reenacts rfl (by decide +kernel) (by decide +kernel),
    by decide +kernel, by decide +kernel, by decide +kernel, fun hnames => ?_⟩
  · simp [Simulation.World.startMatch, Simulation.World.assignSpawns, Simulation.World.spawnsOf,
      Policy.inOrderSpawns, List.range_succ]
  · have hsecond := (hnames ⟨8, 12, "soldier", {}⟩ (List.mem_cons_of_mem _ List.mem_cons_self)).1
    revert hsecond
    decide +kernel

end Augusta.Harness
