import Augusta.Policy.Answers
import Mathlib.Data.List.Perm.Basic
import Mathlib.Data.List.FinRange

/-! What is taken of a hook's answers, and what is not.

      {winner = …}   of a living player's session, or {draw = true}           nothing else
      {{…}, {…}, …}  an entry for each player, in any order                    nothing else  -/

namespace Augusta.Policy
open Scripting (Text Value Number text)

/-! ### Canonical strings -/

theorem hexDigit_injective {m n : ℕ} (hm : m < 16) (hn : n < 16) (h : hexDigit m = hexDigit n) :
    m = n := by
  have hall : ∀ m < 16, ∀ n < 16, hexDigit m = hexDigit n → m = n := by decide
  exact hall m hm n hn h

theorem hexDigit_ne_dash {n : ℕ} (hn : n < 16) : hexDigit n ≠ kDash := by
  have hall : ∀ n < 16, hexDigit n ≠ kDash := by decide
  exact hall n hn

theorem hexByte_injective {a b : UInt8} (h : hexByte a = hexByte b) : a = b := by
  have ha := a.toNat_lt
  have hb := b.toNat_lt
  simp only [hexByte, List.cons.injEq, and_true] at h
  have hhigh := hexDigit_injective (by omega) (by omega) h.1
  have hlow := hexDigit_injective (by omega) (by omega) h.2
  exact UInt8.toNat_inj.mp (by omega)

/-- Without its dashes, a canonical string is its bytes' digits. -/
theorem filter_sessionText (session : SessionId) :
    (sessionText session).filter (· ≠ kDash) = (Lib.bigEndian 16 session).flatMap hexByte := by
  have hdigits : ∀ byte : UInt8, (hexByte byte).filter (· ≠ kDash) = hexByte byte := by
    intro byte
    have hlt := byte.toNat_lt
    refine List.filter_eq_self.mpr fun digit hdigit => ?_
    simp only [hexByte, List.mem_cons, List.not_mem_nil, or_false] at hdigit
    rcases hdigit with rfl | rfl
    · exact decide_eq_true (hexDigit_ne_dash (by omega))
    · exact decide_eq_true (hexDigit_ne_dash (by omega))
  have hentry : ∀ entry : UInt8 × ℕ,
      ((if entry.2 = 4 ∨ entry.2 = 6 ∨ entry.2 = 8 ∨ entry.2 = 10 then [kDash] else []) ++
        hexByte entry.1).filter (· ≠ kDash) = hexByte entry.1 := by
    intro entry
    rw [List.filter_append, hdigits]
    split <;> simp
  rw [sessionText, List.filter_flatMap]
  simp only [hentry]
  rw [← List.flatMap_map, List.zipIdx_map_fst]

theorem flatMap_hexByte_injective {as bs : List UInt8}
    (h : as.flatMap hexByte = bs.flatMap hexByte) : as = bs := by
  induction as generalizing bs with
  | nil =>
    cases bs with
    | nil => rfl
    | cons b bs => simp [hexByte] at h
  | cons a as ih =>
    cases bs with
    | nil => simp [hexByte] at h
    | cons b bs =>
      rw [List.flatMap_cons, List.flatMap_cons] at h
      obtain ⟨hfirst, hrest⟩ := List.append_inj h rfl
      rw [hexByte_injective hfirst, ih hrest]

/-- Two sessions with one canonical string are one. -/
theorem sessionText_injective {a b : SessionId} (ha : a < 2 ^ 128) (hb : b < 2 ^ 128)
    (h : sessionText a = sessionText b) : a = b := by
  have hbytes : Lib.bigEndian 16 a = Lib.bigEndian 16 b := by
    refine flatMap_hexByte_injective ?_
    rw [← filter_sessionText, ← filter_sessionText, h]
  rw [← @Lib.ofBigEndian_bigEndian 16 a ha, hbytes, @Lib.ofBigEndian_bigEndian 16 b hb]

/-! ### Whole numbers -/

/-- A number is taken exactly when it is one of `1, …, max`. -/
theorem wholeNumberUpTo_eq_some {value : Value} {max k : ℕ} (hmax : max < 2 ^ 53) :
    wholeNumberUpTo value max = some k ↔
      value = .number (.finite k) ∧ 1 ≤ k ∧ k ≤ max := by
  have hbounds : ∀ n < 2 ^ 53, Number.ofNat n = .finite n := fun n hn => by
    rw [Number.ofNat, Lib.roundDouble_natCast hn]
  cases value with
  | number number =>
    rw [wholeNumberUpTo, hbounds 1 (by norm_num), hbounds max hmax]
    cases number with
    | nan => simp [Number.lt, Number.eq]
    | infinite negative => cases negative <;> simp [Number.lt]
    | finite x =>
      simp only [Number.lt, Number.eq, Number.floor, Number.toNat, Bool.or_eq_true, decide_eq_true_eq,
        Bool.not_eq_true', decide_eq_false_iff_not, Value.number.injEq, Number.finite.injEq]
      constructor
      · intro h
        split at h
        · exact absurd h (by simp)
        · next hin =>
          simp only [not_or, not_lt, not_not] at hin
          obtain ⟨⟨hone, hmost⟩, hwhole⟩ := hin
          rw [Option.some.injEq] at h
          have hnonneg : 0 ≤ ⌊x⌋ := Int.floor_nonneg.mpr (by push_cast at hone; linarith)
          have hk : (k : ℤ) = ⌊x⌋ := by rw [← h, Int.toNat_of_nonneg hnonneg]
          have hx : x = k := by rw [hwhole, ← hk, Int.cast_natCast]
          rw [hx] at hone hmost
          exact ⟨hx, by exact_mod_cast hone, by exact_mod_cast hmost⟩
      · rintro ⟨rfl, hone, hmost⟩
        have hlow : ¬ ((k : ℚ) < (1 : ℕ)) := not_lt.mpr (by exact_mod_cast hone)
        have hhigh : ¬ ((max : ℚ) < k) := not_lt.mpr (by exact_mod_cast hmost)
        have hfloor : ⌊(k : ℚ)⌋ = k := Int.floor_natCast k
        have hin : ¬ (((k : ℚ) < (1 : ℕ) ∨ (max : ℚ) < k) ∨ ¬ (k : ℚ) = (⌊(k : ℚ)⌋ : ℤ)) := by
          rw [hfloor, Int.cast_natCast]
          simp only [hlow, hhigh, not_true, or_self, not_false_eq_true]
        rw [if_neg hin, hfloor, Int.toNat_natCast]
  | _ => simp [wholeNumberUpTo]

/-! ### One entry for each player -/

/-- An entry that puts a player at a Spawn point, counted from one. -/
def entryOf (session : SessionId) (index : ℕ) : Value :=
  .record [(kSession, .string (sessionText session)),
    (kSpawnPoint, .number (.finite ((index + 1 : ℕ) : ℚ)))]

/-- The Match's players are apart by their Session IDs, and those are UUIDs. -/
structure Apart (players : List SessionId) : Prop where
  nodup : players.Nodup
  uuid : ∀ session ∈ players, session < 2 ^ 128

theorem names_iff {named : Text} {session : SessionId} :
    names named session = true ↔ sessionText session = named := by
  rw [names, decide_eq_true_eq]

/-- A canonical string names its own player, and no other. -/
theorem playerNamed_eq_some {players : List SessionId} (happart : Apart players) {value : Value}
    {player : ℕ} : playerNamed value players = some player ↔
      ∃ h : player < players.length, value = .string (sessionText players[player]) := by
  cases value with
  | string named =>
    rw [playerNamed, List.findIdx?_eq_some_iff_getElem]
    constructor
    · rintro ⟨hlt, hnamed, -⟩
      refine ⟨hlt, ?_⟩
      rw [names_iff.mp hnamed]
    · rintro ⟨hlt, hvalue⟩
      rw [Value.string.injEq] at hvalue
      subst hvalue
      refine ⟨hlt, names_iff.mpr rfl, fun other hless hnamed => ?_⟩
      have hsame := sessionText_injective (happart.uuid _ (List.getElem_mem _))
        (happart.uuid _ (List.getElem_mem _)) (names_iff.mp hnamed)
      have := (List.Nodup.getElem_inj_iff happart.nodup).mp hsame
      omega
  | _ => simp only [playerNamed, reduceCtorEq, exists_false]

section
variable {players : List SessionId} {spawnPoints : ℕ} (happart : Apart players)
  (hpoints : spawnPoints < 2 ^ 53)
include happart hpoints

/-- An entry is taken exactly when it puts a player none before it has put at a point there is. -/
theorem readEntry_eq_ok {assigned next : List (Option ℕ)}
    (hlength : assigned.length = players.length) {entry : Value} :
    readEntry players spawnPoints assigned entry = .ok next ↔
      ∃ (player : ℕ) (h : player < players.length) (index : ℕ), index < spawnPoints ∧
        assigned[player]? = some none ∧ entry = entryOf players[player] index ∧
        next = assigned.set player (some index) := by
  have hslot : ∀ player < players.length,
      (¬ (assigned.getD player none).isSome = true ↔ assigned[player]? = some none) := by
    intro player hplayer
    rw [List.getD_eq_getElem?_getD, List.getElem?_eq_getElem (by omega), Option.getD_some,
      Option.some.injEq]
    simp
  constructor
  · intro hread
    unfold readEntry at hread
    split at hread
    · next first session second point =>
      split at hread
      · exact absurd hread nofun
      · next hkeys =>
        rw [not_or, not_not, not_not] at hkeys
        obtain ⟨rfl, rfl⟩ := hkeys
        split at hread
        · exact absurd hread nofun
        · next player hnamed =>
          obtain ⟨hplayer, rfl⟩ := (playerNamed_eq_some happart).mp hnamed
          split at hread
          · exact absurd hread nofun
          · next hfree =>
            split at hread
            · exact absurd hread nofun
            · next spawnPoint hpoint =>
              obtain ⟨rfl, hone, hmost⟩ := (wholeNumberUpTo_eq_some hpoints).mp hpoint
              refine ⟨player, hplayer, spawnPoint - 1, by omega, (hslot player hplayer).mp hfree,
                ?_, (Except.ok.inj hread).symm⟩
              rw [entryOf, Nat.sub_add_cancel hone]
    · exact absurd hread nofun
  · rintro ⟨player, hplayer, index, hindex, hfree, rfl, rfl⟩
    have hnamed := (playerNamed_eq_some happart).mpr ⟨hplayer, rfl⟩
    have hpoint : wholeNumberUpTo (.number (.finite ((index + 1 : ℕ) : ℚ))) spawnPoints =
        some (index + 1) :=
      (wholeNumberUpTo_eq_some hpoints).mpr ⟨rfl, by omega, by omega⟩
    have hkeys : ¬ (kSession ≠ kSession ∨ kSpawnPoint ≠ kSpawnPoint) := by simp
    simp only [entryOf, readEntry, if_neg hkeys, hnamed, if_neg ((hslot player hplayer).mpr hfree), hpoint,
      Nat.add_sub_cancel]

end

/-- Changing what one of a list's elements is left out as puts it in. -/
theorem filterMap_perm_cons {α β : Type*} {list : List α} (hnodup : list.Nodup) {a : α}
    (ha : a ∈ list) {f g : α → Option β} {b : β} (hf : f a = none) (hg : g a = some b)
    (hother : ∀ c ∈ list, c ≠ a → g c = f c) :
    (list.filterMap g).Perm (b :: list.filterMap f) := by
  induction list with
  | nil => exact absurd ha List.not_mem_nil
  | cons c rest ih =>
    rw [List.nodup_cons] at hnodup
    rcases List.mem_cons.mp ha with rfl | hin
    · have hsame : rest.filterMap g = rest.filterMap f := by
        refine List.filterMap_congr fun c hc => hother c (List.mem_cons_of_mem _ hc) ?_
        rintro rfl
        exact hnodup.1 hc
      rw [List.filterMap_cons_some hg, List.filterMap_cons_none hf, hsame]
    · have hne : c ≠ a := by
        rintro rfl
        exact hnodup.1 hin
      have hrest := ih hnodup.2 hin fun d hd => hother d (List.mem_cons_of_mem _ hd)
      have hhere := hother c (List.mem_cons_self ..) hne
      cases hfc : f c with
      | none =>
        rw [List.filterMap_cons_none (hhere.trans hfc), List.filterMap_cons_none hfc]
        exact hrest
      | some d =>
        rw [List.filterMap_cons_some (hhere.trans hfc), List.filterMap_cons_some hfc]
        exact (hrest.cons d).trans (List.Perm.swap b d _)

/-! ### The whole answer -/

/-- The entries that put each player where `slot` has it, those it leaves out left out. -/
def entriesAt (players : List SessionId) (slot : Fin players.length → Option ℕ) : List Value :=
  (List.finRange players.length).filterMap fun player => (slot player).map (entryOf players[player])

/-- One more player put somewhere is one more entry. -/
theorem entriesAt_cons {players : List SessionId} {slot next : Fin players.length → Option ℕ}
    {player : Fin players.length} {index : ℕ} (hfree : slot player = none)
    (hput : next player = some index) (hother : ∀ other, other ≠ player → next other = slot other) :
    (entriesAt players next).Perm (entryOf players[player] index :: entriesAt players slot) := by
  refine filterMap_perm_cons (List.nodup_finRange _) (List.mem_finRange player) ?_ ?_ ?_
  · rw [hfree]
    rfl
  · rw [hput]
    rfl
  · intro other _ hne
    rw [hother other hne]

theorem entriesAt_all {players : List SessionId} {indices : List ℕ}
    (hlength : indices.length = players.length) {slot : Fin players.length → Option ℕ}
    (hslot : ∀ player : Fin players.length, slot player = some (indices.getD player 0)) :
    entriesAt players slot = List.zipWith entryOf players indices := by
  have hmap : entriesAt players slot = (List.finRange players.length).map
      fun player : Fin players.length => entryOf players[player] (indices.getD player 0) := by
    rw [← List.filterMap_eq_map]
    refine List.filterMap_congr fun player _ => ?_
    rw [hslot]
    rfl
  rw [hmap]
  refine List.ext_getElem (by simp [hlength]) fun i hi _ => ?_
  have hin : i < indices.length := by
    simp only [List.length_map, List.length_finRange] at hi
    omega
  simp [List.getElem?_eq_getElem hin]

theorem getD_none {assigned : List (Option ℕ)} {player : ℕ} (hin : player < assigned.length) :
    assigned.getD player none = assigned[player] := by
  rw [List.getD_eq_getElem?_getD, List.getElem?_eq_getElem hin, Option.getD_some]

section
variable {players : List SessionId} {spawnPoints : ℕ} (happart : Apart players)
  (hpoints : spawnPoints < 2 ^ 53)
include happart hpoints

/-- An entry taken is one more of those the Spawn points read so far came from. -/
theorem entriesAt_readEntry {assigned next : List (Option ℕ)}
    (hlength : assigned.length = players.length) {entry : Value}
    (hread : readEntry players spawnPoints assigned entry = .ok next) :
    (entriesAt players fun player => next.getD player none).Perm
        (entry :: entriesAt players fun player => assigned.getD player none) ∧
      next.length = players.length ∧
      ∀ index, some index ∈ next → index < spawnPoints ∨ some index ∈ assigned := by
  obtain ⟨player, hplayer, index, hindex, hfree, rfl, rfl⟩ :=
    (readEntry_eq_ok happart hpoints hlength).mp hread
  refine ⟨?_, by rw [List.length_set, hlength], fun other hother => ?_⟩
  · refine @entriesAt_cons players _ _ ⟨player, hplayer⟩ index ?_ ?_ ?_
    · rw [List.getD_eq_getElem?_getD, hfree]
      rfl
    · rw [List.getD_eq_getElem?_getD, List.getElem?_set_self (by omega)]
      rfl
    · intro other hne
      have hdiffer : player ≠ other.val := fun h => hne (Fin.ext h.symm)
      rw [List.getD_eq_getElem?_getD, List.getElem?_set_ne hdiffer, ← List.getD_eq_getElem?_getD]
  · rcases List.mem_or_eq_of_mem_set hother with hin | hnew
    · exact .inr hin
    · exact .inl (by rw [Option.some.inj hnew]; exact hindex)

/-- So an answer read to its end is, in some order, those its Spawn points came from. -/
theorem entriesAt_foldlM {entries : List Value} {assigned final : List (Option ℕ)}
    (hlength : assigned.length = players.length)
    (hread : entries.foldlM (readEntry players spawnPoints) assigned = .ok final) :
    (entriesAt players fun player => final.getD player none).Perm
        (entries ++ entriesAt players fun player => assigned.getD player none) ∧
      final.length = players.length ∧
      ∀ index, some index ∈ final → index < spawnPoints ∨ some index ∈ assigned := by
  induction entries generalizing assigned with
  | nil =>
    obtain rfl := Except.ok.inj hread
    exact ⟨.refl _, hlength, fun _ => .inr⟩
  | cons entry rest ih =>
    rw [List.foldlM_cons, Except.bind_eq_ok] at hread
    obtain ⟨next, hentry, hrest⟩ := hread
    obtain ⟨hperm, hsame, hwithin⟩ := entriesAt_readEntry happart hpoints hlength hentry
    obtain ⟨hfinal, hkept, hall⟩ := ih hsame hrest
    refine ⟨hfinal.trans ?_, hkept, fun index hindex => ?_⟩
    · rw [List.cons_append]
      exact (hperm.append_left rest).trans List.perm_middle
    · rcases hall index hindex with hless | hin
      · exact .inl hless
      · exact hwithin index hin

omit happart hpoints in
theorem allAssigned_eq_ok {assigned : List (Option ℕ)} {indices : List ℕ} :
    allAssigned assigned = .ok indices ↔ assigned = indices.map some := by
  rw [allAssigned]
  induction assigned generalizing indices with
  | nil =>
    cases indices with
    | nil => exact ⟨fun _ => rfl, fun _ => rfl⟩
    | cons index indices => exact ⟨nofun, nofun⟩
  | cons slot rest ih =>
    rw [List.mapM_cons, Except.bind_eq_ok]
    constructor
    · rintro ⟨index, hslot, hread⟩
      obtain ⟨others, hothers, hcons⟩ := Except.bind_eq_ok.mp hread
      obtain rfl := Except.ok.inj hcons
      cases slot with
      | none => exact absurd hslot nofun
      | some found =>
        obtain rfl := Except.ok.inj hslot
        rw [ih.mp hothers, List.map_cons]
    · intro hsame
      cases indices with
      | nil => exact absurd hsame nofun
      | cons index indices =>
        rw [List.map_cons, List.cons.injEq] at hsame
        obtain ⟨rfl, hrest⟩ := hsame
        exact ⟨index, rfl, Except.bind_eq_ok.mpr ⟨indices, ih.mpr hrest, rfl⟩⟩

/-- An answer that is what is left to read, in any order, is read to its end. -/
theorem foldlM_readEntry {indices : List ℕ} (hlength : indices.length = players.length)
    (hwithin : ∀ index ∈ indices, index < spawnPoints) {entries : List Value}
    {assigned : List (Option ℕ)} (hassigned : assigned.length = players.length)
    (hpart : ∀ (player : ℕ) index, assigned[player]? = some (some index) →
      indices[player]? = some index)
    (hentries : entries.Perm (entriesAt players fun player =>
      if assigned.getD player none = none then some (indices.getD player 0) else none)) :
    entries.foldlM (readEntry players spawnPoints) assigned = .ok (indices.map some) := by
  induction entries generalizing assigned with
  | nil =>
    have hnone := List.filterMap_eq_nil_iff.mp hentries.nil_eq.symm
    rw [List.foldlM_nil]
    refine congrArg Except.ok (List.ext_getElem? fun player => ?_)
    rcases Nat.lt_or_ge player players.length with hin | hout
    · have hslot := hnone ⟨player, hin⟩ (List.mem_finRange _)
      have hfull : assigned.getD player none ≠ none := fun h => by
        simp only [h, if_true] at hslot
        exact absurd hslot nofun
      rw [getD_none (by omega)] at hfull
      obtain ⟨index, hindex⟩ := Option.ne_none_iff_exists'.mp hfull
      have hsome : assigned[player]? = some (some index) := by
        rw [List.getElem?_eq_getElem (by omega), hindex]
      rw [hsome, List.getElem?_map, hpart player index hsome]
      rfl
    · rw [List.getElem?_eq_none (by omega), List.getElem?_eq_none (by rw [List.length_map]; omega)]
  | cons entry rest ih =>
    have hmem := hentries.subset (List.mem_cons_self ..)
    obtain ⟨⟨player, hplayer⟩, -, hentry⟩ := List.mem_filterMap.mp hmem
    have hin : player < indices.length := by omega
    have hgetD : indices.getD player 0 = indices[player] := by
      rw [List.getD_eq_getElem?_getD, List.getElem?_eq_getElem hin, Option.getD_some]
    simp only [hgetD] at hentry
    split at hentry
    · next hslot =>
      obtain rfl := Option.some.inj hentry
      have hfree : assigned[player]? = some none := by
        rw [getD_none (by omega)] at hslot
        rw [List.getElem?_eq_getElem (by omega), hslot]
      have hread := (readEntry_eq_ok happart hpoints hassigned).mpr
        ⟨player, hplayer, indices[player], hwithin _ (List.getElem_mem hin), hfree, rfl, rfl⟩
      rw [List.foldlM_cons, Except.bind_eq_ok]
      refine ⟨_, hread, ih (by rw [List.length_set, hassigned]) ?_ ?_⟩
      · intro other index hother
        by_cases hsame : player = other
        · subst hsame
          rw [List.getElem?_set_self (by omega), Option.some.injEq, Option.some.injEq] at hother
          rw [List.getElem?_eq_getElem hin, hother]
        · rw [List.getElem?_set_ne hsame] at hother
          exact hpart other index hother
      · refine (hentries.trans (@entriesAt_cons players _ _ ⟨player, hplayer⟩ indices[player]
          ?_ ?_ ?_)).cons_inv
        · rw [List.getD_eq_getElem?_getD, List.getElem?_set_self (by omega)]
          rfl
        · rw [if_pos hslot, hgetD]
        · intro other hne
          have hdiffer : player ≠ other.val := fun h => hne (Fin.ext h.symm)
          have hsame : (assigned.set player (some indices[player])).getD other none =
              assigned.getD other none := by
            rw [List.getD_eq_getElem?_getD, List.getElem?_set_ne hdiffer,
              ← List.getD_eq_getElem?_getD]
          rw [hsame]
    · exact absurd hentry nofun

end

/-- An answer that gives each of `players` one of the Spawn points, in `indices`: exactly one
    record of exactly a session and a spawn_point for each of them, in any order. -/
structure Assigns (answer : Value) (players : List SessionId) (spawnPoints : ℕ)
    (indices : List ℕ) : Prop where
  all : indices.length = players.length
  within : ∀ index ∈ indices, index < spawnPoints
  entries : ∃ entries, answer = .list entries ∧
    entries.Perm (List.zipWith entryOf players indices)

/-- An answer is taken exactly when it gives every player a Spawn point. -/
theorem readSpawnAssignment_eq_ok {players : List SessionId} (happart : Apart players)
    {spawnPoints : ℕ} (hpoints : spawnPoints < 2 ^ 53) {answer : Value} {indices : List ℕ} :
    readSpawnAssignment answer players spawnPoints = .ok indices ↔
      Assigns answer players spawnPoints indices := by
  constructor
  · intro hread
    cases answer with
    | list entries =>
      rw [readSpawnAssignment, Except.bind_eq_ok] at hread
      obtain ⟨final, hfinal, hall⟩ := hread
      obtain rfl := allAssigned_eq_ok.mp hall
      have hstart : (List.replicate players.length (none : Option ℕ)).length = players.length :=
        List.length_replicate
      obtain ⟨hperm, hkept, hwithin⟩ := entriesAt_foldlM happart hpoints hstart hfinal
      rw [List.length_map] at hkept
      refine ⟨hkept, fun index hindex => ?_, entries, rfl, ?_⟩
      · rcases hwithin index (List.mem_map_of_mem hindex) with hless | hnone
        · exact hless
        · exact absurd (List.eq_of_mem_replicate hnone) nofun
      · have hbegan : (entriesAt players fun player : Fin players.length =>
            (List.replicate players.length (none : Option ℕ)).getD player none) = [] := by
          refine List.filterMap_eq_nil_iff.mpr fun player _ => ?_
          have hslot : (List.replicate players.length (none : Option ℕ)).getD player none = none := by
            rw [getD_none (by rw [hstart]; exact player.isLt), List.getElem_replicate]
          simp only [hslot, Option.map_none]
        rw [hbegan, List.append_nil] at hperm
        refine hperm.symm.trans (.of_eq (entriesAt_all hkept fun player => ?_))
        have hin : (player : ℕ) < indices.length := by omega
        rw [getD_none (by rw [List.length_map]; exact hin), List.getElem_map,
          List.getD_eq_getElem?_getD, List.getElem?_eq_getElem hin, Option.getD_some]
    | _ => exact absurd hread nofun
  · rintro ⟨hlength, hwithin, entries, rfl, hperm⟩
    rw [readSpawnAssignment, Except.bind_eq_ok]
    refine ⟨indices.map some, ?_, allAssigned_eq_ok.mpr rfl⟩
    refine foldlM_readEntry happart hpoints hlength hwithin List.length_replicate ?_ ?_
    · intro player index hplayer
      rw [List.getElem?_replicate] at hplayer
      split at hplayer <;> simp at hplayer
    · refine hperm.trans (.of_eq (entriesAt_all hlength fun player => ?_).symm)
      rw [List.getD_eq_getElem?_getD, List.getElem?_replicate, if_pos player.isLt]
      rfl

/-! ### Match ends -/

/-- A value that ends the Match: a draw, or a win of one of those alive. -/
inductive Ends (returned : Value) (aliveSessions : List SessionId) : Option SessionId → Prop
  | draw (is : returned = .record [(kDraw, .boolean true)]) : Ends returned aliveSessions none
  | win {session : SessionId} (alive : session ∈ aliveSessions) (someone : session ≠ 0)
      (is : returned = .record [(kWinner, .string (sessionText session))]) :
      Ends returned aliveSessions (some session)

/-- The winner a string names is the living player it is the session of. -/
theorem winnerOf_eq_some {named : Text} {aliveSessions : List SessionId}
    (huuid : ∀ session ∈ aliveSessions, session < 2 ^ 128) {winner : SessionId} :
    winnerOf named aliveSessions = some winner ↔
      winner ∈ aliveSessions ∧ winner ≠ 0 ∧ sessionText winner = named := by
  constructor
  · intro hfound
    have hnamed := List.find?_some hfound
    rw [Bool.and_eq_true, decide_eq_true_eq, names_iff] at hnamed
    exact ⟨List.mem_of_find?_eq_some hfound, hnamed⟩
  · rintro ⟨halive, hsomeone, hnamed⟩
    have hsome : (winnerOf named aliveSessions).isSome = true := by
      rw [winnerOf, List.find?_isSome]
      refine ⟨winner, halive, ?_⟩
      rw [Bool.and_eq_true, decide_eq_true_eq, names_iff]
      exact ⟨hsomeone, hnamed⟩
    obtain ⟨first, hfirst⟩ := Option.isSome_iff_exists.mp hsome
    have hfound := List.find?_some hfirst
    rw [Bool.and_eq_true, decide_eq_true_eq, names_iff] at hfound
    rw [hfirst, sessionText_injective (huuid _ (List.mem_of_find?_eq_some hfirst)) (huuid _ halive)
      (hfound.2.trans hnamed.symm)]

/-- The hook's answer ends the Match exactly when it is a draw or a living player's win. -/
theorem readTickAction_eq_ok {returned : Value} {aliveSessions : List SessionId}
    (huuid : ∀ session ∈ aliveSessions, session < 2 ^ 128) {winner : Option SessionId} :
    readTickAction returned aliveSessions = .ok (some (.matchEnd winner)) ↔
      Ends returned aliveSessions winner := by
  constructor
  · intro hread
    unfold readTickAction at hread
    split at hread
    · exact absurd hread nofun
    · next key value =>
      unfold readActionField at hread
      split at hread
      · next draw =>
        split at hread
        · next hdraw =>
          obtain ⟨rfl, rfl⟩ := hdraw
          cases hread
          exact .draw rfl
        · exact absurd hread nofun
      · next named =>
        split at hread
        · exact absurd hread nofun
        · next hkey =>
          split at hread
          · exact absurd hread nofun
          · next first hfirst =>
            cases hread
            obtain ⟨halive, hsomeone, rfl⟩ := (winnerOf_eq_some huuid).mp hfirst
            rw [not_not] at hkey
            rw [hkey]
            exact .win halive hsomeone rfl
      · exact absurd hread nofun
    · exact absurd hread nofun
  · rintro (his | ⟨halive, hsomeone, his⟩)
    · rw [his, readTickAction, readActionField, if_pos ⟨rfl, rfl⟩]
    · have hwinner := (winnerOf_eq_some huuid).mpr ⟨halive, hsomeone, rfl⟩
      have hkey : ¬ kWinner ≠ kWinner := not_not.mpr rfl
      rw [his, readTickAction, readActionField, if_neg hkey]
      simp only [hwinner]

end Augusta.Policy
