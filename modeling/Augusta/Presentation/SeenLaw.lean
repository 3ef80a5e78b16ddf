import Augusta.Presentation.Frames
import Mathlib.Data.List.TakeWhile

/-! What is shown at the Seen time, and what interpolating all that was recorded would show.

      the log      u₁ u₂ … u₁₂ u₁₃ … u₄₀      every update of a player in the Match
      the ring                u₁₃ … u₄₀      a suffix of it, kUpdatesKept long
      sampled at        ▲                    before the ring's oldest: not the log's body there

    Wherever the ring reaches back to the sample point, or to the player's first update, the two
    are one. -/

namespace Augusta.Presentation
open Lib (entriesOf)

/-! ### What interpolating shows -/

/-- The body of a player with these updates at a moment: held at the first until it, at the last
    from it on, and between the two around it otherwise. -/
def Interpolates (floats : Floats) (updates : List Update) (time : ℚ) (body : RemoteBody) : Prop :=
  (∃ first ∈ updates.head?, time ≤ first.serverTime ∧ body = first.asRemote) ∨
    (∃ last ∈ updates.getLast?, last.serverTime ≤ time ∧ body = last.asRemote) ∨
      ∃ k < updates.length, ∃ earlier ∈ updates[k]?, ∃ later ∈ updates[k + 1]?,
        earlier.serverTime ≤ time ∧ time < later.serverTime ∧
          body = betweenAt floats earlier later time

instance (floats : Floats) (updates : List Update) (time : ℚ) (body : RemoteBody) :
    Decidable (Interpolates floats updates time body) := by
  unfold Interpolates
  infer_instance

/-- The players a frame's `Sample` shows, the dead among them. -/
def Watched.sampled (floats : Floats) (watched : Watched) : List RemotePlayer :=
  match watched.world.clock.now with
  | none => []
  | some now => watched.world.interpolator.sample floats (now - kInterpolationDelay)

/-- Every ring reaches back to the sample point, or to its player's first update of the Match. -/
def Watched.Covered (watched : Watched) : Prop :=
  ∀ now ∈ watched.world.clock.now, ∀ buffered ∈ watched.world.interpolator.bodies,
    ∀ oldest ∈ buffered.updates.toList.head?,
      oldest.serverTime ≤ now - kInterpolationDelay ∨
        (entriesOf buffered.entity watched.log).head? = some oldest

instance (watched : Watched) : Decidable watched.Covered := by
  unfold Watched.Covered
  infer_instance

/-! ### The log -/

def Chronological (updates : List Update) : Prop :=
  updates.Pairwise fun earlier later => earlier.serverTime < later.serverTime

theorem entriesOf_logUpdate_other {log : List (EntityId × Update)} {entry : EntityId × Update}
    {entity : EntityId} (h : entry.1 ≠ entity) :
    entriesOf entity (logUpdate log entry) = entriesOf entity log := by
  rw [logUpdate]
  split_ifs
  · rw [Lib.entriesOf_append, Lib.entriesOf_other h, List.append_nil]
  · rfl

theorem entriesOf_logUpdate_same (log : List (EntityId × Update)) (entity : EntityId)
    (update : Update) : entriesOf entity (logUpdate log (entity, update)) =
      if (entriesOf entity log).all fun earlier => earlier.serverTime < update.serverTime then
        entriesOf entity log ++ [update]
      else entriesOf entity log := by
  rw [logUpdate]
  split_ifs
  · rw [Lib.entriesOf_append, Lib.entriesOf_same]
  · rfl

/-- What is chronological is all before a time if its last is. -/
theorem Chronological.all_lt_iff {updates : List Update} (h : Chronological updates) {last : Update}
    (hlast : updates.getLast? = some last) (time : ℚ) :
    (∀ earlier ∈ updates, earlier.serverTime < time) ↔ last.serverTime < time := by
  obtain ⟨before, rfl⟩ := List.getLast?_eq_some_iff.mp hlast
  constructor
  · intro hall
    exact hall last (by simp)
  · intro hlt earlier hmem
    rcases List.mem_append.mp hmem with hbefore | hmem
    · exact lt_trans ((List.pairwise_append.mp h).2.2 earlier hbefore last (by simp)) hlt
    · rw [List.mem_singleton.mp hmem]
      exact hlt

theorem Chronological.logUpdate {log : List (EntityId × Update)}
    (h : ∀ entity, Chronological (entriesOf entity log)) (entry : EntityId × Update)
    (entity : EntityId) : Chronological (entriesOf entity (logUpdate log entry)) := by
  obtain ⟨recorded, update⟩ := entry
  by_cases hsame : recorded = entity
  · subst hsame
    rw [entriesOf_logUpdate_same]
    split_ifs with hall
    · refine List.pairwise_append.mpr ⟨h recorded, List.pairwise_singleton _ _, ?_⟩
      intro earlier hearlier later hlater
      rw [List.mem_singleton.mp hlater]
      exact of_decide_eq_true (List.all_eq_true.mp hall earlier hearlier)
    · exact h recorded
  · rw [entriesOf_logUpdate_other hsame]
    exact h entity

/-! ### The rings are suffixes of it -/

/-- Midway through recording a snapshot of time `time`. -/
structure Kept (time : ℚ) (bodies : List Buffered) (log : List (EntityId × Update)) : Prop where
  suffix : ∀ buffered ∈ bodies, buffered.updates.toList <:+ entriesOf buffered.entity log
  chronological : ∀ entity, Chronological (entriesOf entity log)
  /-- Who is not buffered has nothing of this snapshot yet. -/
  earlier : ∀ entity, (∀ buffered ∈ bodies, buffered.entity ≠ entity) →
    ∀ update ∈ entriesOf entity log, update.serverTime < time

/-- The ring takes an update just when the log does. -/
theorem takeUpdate_suffix {log : List (EntityId × Update)} {buffered : Buffered}
    (hchronological : Chronological (entriesOf buffered.entity log))
    (h : buffered.updates.toList <:+ entriesOf buffered.entity log) (update : Update) :
    (buffered.takeUpdate update).updates.toList <:+
      entriesOf buffered.entity (logUpdate log (buffered.entity, update)) := by
  obtain ⟨kept, hkept⟩ : ∃ newest, buffered.updates.toList.getLast? = some newest :=
    Option.isSome_iff_exists.mp (List.getLast?_isSome.mpr buffered.updates.toList_ne_nil)
  have hlast : (entriesOf buffered.entity log).getLast? = some kept := by
    obtain ⟨older, holder⟩ := h
    rw [← holder, List.getLast?_append, hkept]
    rfl
  have hall := hchronological.all_lt_iff hlast update.serverTime
  rw [entriesOf_logUpdate_same, Buffered.takeUpdate, hkept]
  by_cases hnewer : kept.serverTime < update.serverTime
  · have htaken : ((entriesOf buffered.entity log).all
        fun earlier => decide (earlier.serverTime < update.serverTime)) = true :=
      List.all_eq_true.mpr fun earlier hmem => decide_eq_true (hall.mpr hnewer earlier hmem)
    simp only [hnewer, htaken, if_true]
    exact buffered.updates.toList_push_suffix h update
  · have hdropped : ¬((entriesOf buffered.entity log).all
        fun earlier => decide (earlier.serverTime < update.serverTime)) = true := fun htaken =>
      hnewer (hall.mp fun earlier hmem => of_decide_eq_true (List.all_eq_true.mp htaken earlier hmem))
    simp only [hnewer, hdropped, if_false]
    exact h

@[simp] theorem takeUpdate_entity (update : Update) (buffered : Buffered) :
    (buffered.takeUpdate update).entity = buffered.entity := by
  rw [Buffered.takeUpdate]
  split
  · rfl
  · split_ifs <;> rfl

namespace Kept
variable {time : ℚ} {interpolator : RemoteInterpolator} {log : List (EntityId × Update)}

theorem record (h : Kept time interpolator.bodies log) (entity : EntityId) {update : Update}
    (htime : update.serverTime = time) :
    Kept time (interpolator.record entity update).bodies (logUpdate log (entity, update)) := by
  have hchronological := Chronological.logUpdate h.chronological (entity, update)
  rw [RemoteInterpolator.record]
  split_ifs with hbuffered
  · refine ⟨?_, hchronological, ?_⟩
    · intro taken htaken
      obtain ⟨buffered, hmem, rfl⟩ := List.mem_map.mp htaken
      by_cases hsame : buffered.entity = entity
      · subst hsame
        rw [if_pos rfl, takeUpdate_entity]
        exact takeUpdate_suffix (h.chronological _) (h.suffix buffered hmem) update
      · rw [if_neg hsame, entriesOf_logUpdate_other (Ne.symm hsame)]
        exact h.suffix buffered hmem
    · intro other hother logged hlogged
      have hnone : ∀ buffered ∈ interpolator.bodies, buffered.entity ≠ other := by
        intro buffered hmem
        have hne := hother _ (List.mem_map_of_mem hmem)
        split_ifs at hne with hsame
        · rwa [takeUpdate_entity] at hne
        · exact hne
      obtain ⟨found, hfound, hentity⟩ := List.any_eq_true.mp hbuffered
      have hne : entity ≠ other := by
        rw [← of_decide_eq_true hentity]
        exact hnone found hfound
      rw [entriesOf_logUpdate_other hne] at hlogged
      exact h.earlier other hnone logged hlogged
  · have hfresh : ∀ buffered ∈ interpolator.bodies, buffered.entity ≠ entity := by
      intro buffered hmem hsame
      exact hbuffered (List.any_eq_true.mpr ⟨buffered, hmem, decide_eq_true hsame⟩)
    have hall : ((entriesOf entity log).all
        fun earlier => decide (earlier.serverTime < update.serverTime)) = true := by
      rw [htime]
      exact List.all_eq_true.mpr fun earlier hmem =>
        decide_eq_true (h.earlier entity hfresh earlier hmem)
    refine ⟨?_, hchronological, ?_⟩
    · intro buffered hmem
      rcases List.mem_append.mp hmem with hmem | hmem
      · rw [entriesOf_logUpdate_other (hfresh buffered hmem).symm]
        exact h.suffix buffered hmem
      · rw [List.mem_singleton.mp hmem, entriesOf_logUpdate_same, if_pos hall]
        exact List.suffix_append _ _
    · intro other hother logged hlogged
      have hne : entity ≠ other := hother _ (List.mem_append_right _ (List.mem_singleton_self _))
      rw [entriesOf_logUpdate_other hne] at hlogged
      exact h.earlier other (fun buffered hmem => hother buffered (List.mem_append_left _ hmem))
        logged hlogged

/-- A whole snapshot. -/
theorem recordAll {present : List (EntityId × Update)} (h : Kept time interpolator.bodies log)
    (htimes : ∀ entry ∈ present, entry.2.serverTime = time) :
    Kept time (present.foldl (fun interpolator (entity, update) =>
      interpolator.record entity update) interpolator).bodies (present.foldl logUpdate log) := by
  induction present generalizing interpolator log with
  | nil => exact h
  | cons entry rest ih =>
      rw [List.foldl_cons, List.foldl_cons]
      exact ih (h.record entry.1 (htimes entry (List.mem_cons_self ..)))
        fun later hmem => htimes later (List.mem_cons_of_mem _ hmem)

end Kept

/-! ### Sampling a ring, sampling the log -/

/-- A moment of the timeline, held within the first update there is and the last. -/
def clampTime (first last time : ℚ) : ℚ := max first (min time last)

/-- Where the updates kept end and start around a sample point. -/
theorem sampleUpdates_cases {floats : Floats} {kept : List Update} {sampleTime : ℚ}
    {body : RemoteBody} (h : sampleUpdates floats kept sampleTime = some body) :
    (∃ first, kept.head? = some first ∧ sampleTime < first.serverTime ∧ body = first.asRemote) ∨
      (∃ last, kept.getLast? = some last ∧ last.serverTime ≤ sampleTime ∧
        body = last.asRemote) ∨
      ∃ k earlier later, kept[k]? = some earlier ∧ kept[k + 1]? = some later ∧
        earlier.serverTime ≤ sampleTime ∧ sampleTime < later.serverTime ∧
          body = betweenAt floats earlier later sampleTime := by
  let reached : Update → Bool := fun update => update.serverTime ≤ sampleTime
  obtain ⟨past, ahead, hpast, hahead, hkept⟩ : ∃ past ahead, past = kept.takeWhile reached ∧
      ahead = kept.dropWhile reached ∧ past ++ ahead = kept :=
    ⟨_, _, rfl, rfl, List.takeWhile_append_dropWhile⟩
  have hlater : ∀ later, ahead.head? = some later → sampleTime < later.serverTime := by
    intro later hhead
    have hnot := List.head?_dropWhile_not reached kept
    rw [← hahead, hhead] at hnot
    exact lt_of_not_ge (of_decide_eq_false hnot)
  have hearlier : ∀ earlier ∈ past, earlier.serverTime ≤ sampleTime := by
    intro earlier hmem
    rw [hpast] at hmem
    have hreached : reached earlier = true := List.mem_takeWhile_imp hmem
    exact of_decide_eq_true hreached
  rw [sampleUpdates] at h
  simp only [show kept.takeWhile (fun update => decide (update.serverTime ≤ sampleTime)) = past
    from hpast.symm] at h
  rcases List.eq_nil_or_concat' past with rfl | ⟨older, newest, rfl⟩
  · rw [List.nil_append] at hkept
    obtain ⟨first, hfirst, rfl⟩ := Option.map_eq_some_iff.mp (by simpa using h)
    exact .inl ⟨first, hfirst, hlater first (hkept ▸ hfirst), rfl⟩
  · have hat : kept[older.length]? = some newest := by
      rw [← hkept, List.append_assoc, List.getElem?_append_right le_rfl, Nat.sub_self]
      rfl
    have hnext : kept[older.length + 1]? = ahead.head? := by
      rw [← hkept, List.getElem?_append_right (by simp), List.length_append, List.length_singleton,
        Nat.sub_self, List.head?_eq_getElem?]
    have hreached := hearlier newest (by simp)
    simp only [List.length_append, List.length_singleton, Nat.add_one_ne_zero, if_false,
      Nat.add_sub_cancel, hat, hnext] at h
    rcases hhead : ahead.head? with _ | later
    · rw [hhead] at h
      refine .inr (.inl ⟨newest, ?_, hreached, (Option.some_inj.mp h).symm⟩)
      rw [← hkept, List.head?_eq_none_iff.mp hhead, List.append_nil, List.getLast?_concat]
    · rw [hhead] at h
      exact .inr (.inr ⟨older.length, newest, later, hat, hnext.trans hhead, hreached,
        hlater later hhead, (Option.some_inj.mp h).symm⟩)

/-- What a ring shows is what the log does, if the ring reaches back far enough. -/
theorem interpolates_of_sample {floats : Floats} {kept updates : List Update}
    (hsuffix : kept <:+ updates) {first last sampleTime : ℚ}
    (hwithin : ∀ update ∈ updates, first ≤ update.serverTime ∧ update.serverTime ≤ last)
    (hcovered : ∀ oldest ∈ kept.head?,
      oldest.serverTime ≤ sampleTime ∨ updates.head? = some oldest)
    {body : RemoteBody} (h : sampleUpdates floats kept sampleTime = some body) :
    Interpolates floats updates (clampTime first last sampleTime) body := by
  obtain ⟨dropped, rfl⟩ := hsuffix
  rcases sampleUpdates_cases h with ⟨oldest, holdest, hbefore, rfl⟩ |
    ⟨newest, hnewest, hafter, rfl⟩ | ⟨k, earlier, later, hk, hnext, hle, hlt, rfl⟩
  · -- before the oldest kept, which is the player's first
    rcases hcovered oldest holdest with habsurd | hfirst
    · exact absurd habsurd (not_le.mpr hbefore)
    · have hmem := hwithin oldest (List.mem_of_mem_head? hfirst)
      exact .inl ⟨oldest, hfirst, max_le hmem.1 (le_trans (min_le_left _ _) hbefore.le), rfl⟩
  · -- from the newest on
    have hlast : (dropped ++ kept).getLast? = some newest := by
      rw [List.getLast?_append, hnewest]
      rfl
    have hmem := hwithin newest (List.mem_of_getLast? hlast)
    exact .inr (.inl ⟨newest, hlast, le_max_of_le_right (le_min hafter hmem.2), rfl⟩)
  · -- between two kept, which are neighbours in the log too
    have hat : (dropped ++ kept)[dropped.length + k]? = some earlier := by
      rw [List.getElem?_append_right (by omega), Nat.add_sub_cancel_left, hk]
    have hafter : (dropped ++ kept)[dropped.length + k + 1]? = some later := by
      rw [Nat.add_assoc, List.getElem?_append_right (by omega), Nat.add_sub_cancel_left, hnext]
    have hinside : clampTime first last sampleTime = sampleTime := by
      rw [clampTime,
        min_eq_left (le_trans hlt.le (hwithin later (List.mem_of_getElem? hafter)).2),
        max_eq_right (le_trans (hwithin earlier (List.mem_of_getElem? hat)).1 hle)]
    rw [hinside]
    exact .inr (.inr ⟨dropped.length + k, (List.getElem?_eq_some_iff.mp hat).1, earlier, hat, later,
      hafter, hle, hlt, rfl⟩)

/-- A Seen time is the moment sampled at, held within the first and the last update there is. -/
theorem time_seenTimeAt {tickDuration : ℚ} (hpositive : 0 < tickDuration) (sampleTime : ℚ)
    {first last : Tick} (hle : first ≤ last) :
    (seenTimeAt sampleTime tickDuration first last).time tickDuration =
      clampTime (serverTimeOf tickDuration first) (serverTimeOf tickDuration last) sampleTime := by
  have horder : (first.toNat : ℚ) ≤ last.toNat := by
    exact_mod_cast UInt64.le_iff_toNat_le.mp hle
  have hlower : (first.toNat : ℚ) ≤ clampTicks sampleTime tickDuration first last :=
    le_max_left _ _
  have hupper : clampTicks sampleTime tickDuration first last ≤ last.toNat :=
    max_le horder (min_le_right _ _)
  have hfloor : (0 : ℤ) ≤ ⌊clampTicks sampleTime tickDuration first last⌋ :=
    Int.floor_nonneg.mpr (le_trans (Nat.cast_nonneg _) hlower)
  have hbound : ⌊clampTicks sampleTime tickDuration first last⌋.toNat ≤ last.toNat := by
    have hle : ⌊clampTicks sampleTime tickDuration first last⌋ ≤ ⌊((last.toNat : ℚ))⌋ :=
      Int.floor_le_floor hupper
    rw [Int.floor_natCast] at hle
    omega
  have hwhole : ((UInt64.ofNat ⌊clampTicks sampleTime tickDuration first last⌋.toNat).toNat : ℚ) =
      ⌊clampTicks sampleTime tickDuration first last⌋ := by
    rw [UInt64.toNat_ofNat_of_lt' (lt_of_le_of_lt hbound last.toNat_lt)]
    exact_mod_cast Int.toNat_of_nonneg hfloor
  rw [SeenTime.time, seenTimeAt, hwhole, add_sub_cancel, clampTicks, clampTime, serverTimeOf,
    serverTimeOf, max_mul_of_nonneg _ _ hpositive.le, min_mul_of_nonneg _ _ hpositive.le,
    div_mul_cancel₀ _ hpositive.ne']

/-! ### Every run of frames -/

theorem mem_of_mem_logUpdate {log : List (EntityId × Update)} {entry logged : EntityId × Update}
    (h : logged ∈ logUpdate log entry) : logged ∈ log ∨ logged = entry := by
  rw [logUpdate] at h
  split_ifs at h
  · rcases List.mem_append.mp h with hold | hnew
    · exact .inl hold
    · exact .inr (List.mem_singleton.mp hnew)
  · exact .inl h

theorem mem_of_mem_logAll {present log : List (EntityId × Update)} {logged : EntityId × Update}
    (h : logged ∈ present.foldl logUpdate log) : logged ∈ log ∨ logged ∈ present := by
  induction present generalizing log with
  | nil => exact .inl h
  | cons entry rest ih =>
      rcases ih h with hlog | hrest
      · rcases mem_of_mem_logUpdate hlog with hold | hnew
        · exact .inl hold
        · exact .inr (hnew ▸ List.mem_cons_self ..)
      · exact .inr (List.mem_cons_of_mem _ hrest)

theorem serverTimeOf_le {tickDuration : ℚ} (h : 0 < tickDuration) {earlier later : Tick}
    (hle : earlier ≤ later) : serverTimeOf tickDuration earlier ≤ serverTimeOf tickDuration later :=
  mul_le_mul_of_nonneg_right (by exact_mod_cast UInt64.le_iff_toNat_le.mp hle) h.le

theorem serverTimeOf_lt {tickDuration : ℚ} (h : 0 < tickDuration) {earlier later : Tick}
    (hlt : earlier < later) : serverTimeOf tickDuration earlier < serverTimeOf tickDuration later :=
  mul_lt_mul_of_pos_right (by exact_mod_cast UInt64.lt_iff_toNat_lt.mp hlt) h

/-- Within the first and the last update there is to show. -/
def Within (tickDuration : ℚ) (first last : Tick) (log : List (EntityId × Update)) : Prop :=
  ∀ entry ∈ log, serverTimeOf tickDuration first ≤ entry.2.serverTime ∧
    entry.2.serverTime ≤ serverTimeOf tickDuration last

/-- What every frame leaves: rings that are suffixes, in order, of a log within the Match's ticks. -/
structure Watched.Sound (tickDuration : ℚ) (watched : Watched) : Prop where
  suffix : ∀ buffered ∈ watched.world.interpolator.bodies,
    buffered.updates.toList <:+ entriesOf buffered.entity watched.log
  chronological : ∀ entity, Chronological (entriesOf entity watched.log)
  span : (watched.world.firstRecordedTick = none ∧ watched.world.lastRecordedTick = none ∧
      watched.log = []) ∨
    ∃ first last, watched.world.firstRecordedTick = some first ∧
      watched.world.lastRecordedTick = some last ∧ first ≤ last ∧
      Within tickDuration first last watched.log

theorem recorded_time {tickDuration : ℚ} {localEntity : Option EntityId} {snapshot : WorldSnapshot}
    {entry : EntityId × Update} (h : entry ∈ snapshot.recorded tickDuration localEntity) :
    entry.2.serverTime = serverTimeOf tickDuration snapshot.tick := by
  obtain ⟨body, -, rfl⟩ := List.mem_map.mp h
  rfl

namespace Watched
variable {tickDuration : ℚ} {watched : Watched}

theorem sound_start : Sound tickDuration {} :=
  ⟨fun _ h => (nomatch h), fun _ => List.Pairwise.nil, .inl ⟨rfl, rfl, rfl⟩⟩

/-- A new snapshot is later than all there is. -/
theorem Sound.kept (h : watched.Sound tickDuration) (hpositive : 0 < tickDuration)
    {snapshot : WorldSnapshot} (hnew : watched.world.isNew snapshot) :
    Kept (serverTimeOf tickDuration snapshot.tick) watched.world.interpolator.bodies
      watched.log := by
  refine ⟨h.suffix, h.chronological, ?_⟩
  intro entity _ update hupdate
  obtain ⟨entry, hentry, rfl⟩ := List.mem_map.mp hupdate
  have hlogged := List.mem_of_mem_filter hentry
  rcases h.span with ⟨-, -, hlog⟩ | ⟨first, last, -, hlast, -, hwithin⟩
  · rw [hlog] at hlogged
    nomatch hlogged
  · rw [World.isNew, hlast] at hnew
    exact lt_of_le_of_lt (hwithin entry hlogged).2
      (serverTimeOf_lt hpositive (of_decide_eq_true hnew))

theorem Sound.record (h : watched.Sound tickDuration) (hpositive : 0 < tickDuration)
    (localEntity : Option EntityId) (snapshot : WorldSnapshot) :
    (watched.record tickDuration localEntity snapshot).Sound tickDuration := by
  rw [Watched.record]
  split_ifs with hnew
  · have hkept := (h.kept hpositive hnew).recordAll
      fun entry (hentry : entry ∈ snapshot.recorded tickDuration localEntity) =>
        recorded_time hentry
    refine ⟨?_, hkept.chronological, .inr ?_⟩
    · intro buffered hmem
      exact hkept.suffix buffered (List.mem_of_mem_filter hmem)
    · rcases h.span with ⟨hfirst, -, hlog⟩ | ⟨first, last, hfirst, hlast, hle, hwithin⟩
      · refine ⟨snapshot.tick, snapshot.tick, by rw [World.recordUpdate, hfirst]; rfl, rfl,
          UInt64.le_refl _, ?_⟩
        intro entry hentry
        rcases mem_of_mem_logAll hentry with hold | hnow
        · rw [hlog] at hold
          nomatch hold
        · rw [recorded_time hnow]
          exact ⟨le_rfl, le_rfl⟩
      · have hlater : last ≤ snapshot.tick := by
          rw [World.isNew, hlast] at hnew
          exact UInt64.le_of_lt (of_decide_eq_true hnew)
        refine ⟨first, snapshot.tick, by rw [World.recordUpdate, hfirst]; rfl, rfl,
          UInt64.le_trans hle hlater, ?_⟩
        intro entry hentry
        rcases mem_of_mem_logAll hentry with hold | hnow
        · exact ⟨(hwithin entry hold).1,
            le_trans (hwithin entry hold).2 (serverTimeOf_le hpositive hlater)⟩
        · rw [recorded_time hnow]
          exact ⟨serverTimeOf_le hpositive (UInt64.le_trans hle hlater), le_rfl⟩
  · exact h

theorem Sound.recordAll (h : watched.Sound tickDuration) (hpositive : 0 < tickDuration)
    (frame : Frame) : (watched.recordAll tickDuration frame).Sound tickDuration := by
  have hbegun : Sound tickDuration
      ⟨watched.world.begun frame, if frame.updates.isEmpty then [] else watched.log⟩ := by
    rw [World.begun]
    by_cases hempty : frame.updates.isEmpty
    · rw [if_pos hempty, if_pos hempty]
      refine ⟨?_, fun _ => List.Pairwise.nil, .inl ⟨rfl, rfl, rfl⟩⟩
      intro buffered hmem
      exact absurd (of_decide_eq_true (List.mem_filter.mp hmem).2) List.not_mem_nil
    · rw [if_neg hempty, if_neg hempty]
      exact ⟨h.suffix, h.chronological, h.span⟩
  rw [Watched.recordAll]
  generalize (⟨watched.world.begun frame, _⟩ : Watched) = begun at hbegun
  induction frame.updates generalizing begun with
  | nil => exact hbegun
  | cons snapshot rest ih => exact ih _ (hbegun.record hpositive frame.localEntity snapshot)

/-- Showing changes nothing recorded. -/
theorem shown_recorded (floats : Floats) (tickDuration : ℚ) (world : World) (frame : Frame) :
    (world.shown tickDuration floats frame).interpolator = world.interpolator ∧
      (world.shown tickDuration floats frame).firstRecordedTick = world.firstRecordedTick ∧
      (world.shown tickDuration floats frame).lastRecordedTick = world.lastRecordedTick := by
  rw [World.shown]
  split
  · split_ifs <;> exact ⟨rfl, rfl, rfl⟩
  · exact ⟨rfl, rfl, rfl⟩

theorem Sound.frame (h : watched.Sound tickDuration) (hpositive : 0 < tickDuration)
    (floats : Floats) (frame : Frame) :
    (watched.frame floats tickDuration frame).Sound tickDuration := by
  obtain ⟨hsuffix, hchronological, hspan⟩ := h.recordAll hpositive frame
  obtain ⟨hinterpolator, hfirst, hlast⟩ :=
    shown_recorded floats tickDuration (watched.recordAll tickDuration frame).world frame
  exact ⟨by simpa only [Watched.frame, hinterpolator] using hsuffix, hchronological,
    by simpa only [Watched.frame, hfirst, hlast] using hspan⟩

theorem Sound.run (h : watched.Sound tickDuration) (hpositive : 0 < tickDuration)
    (floats : Floats) (frames : List Frame) :
    (watched.run floats tickDuration frames).Sound tickDuration := by
  induction frames generalizing watched with
  | nil => exact h
  | cons frame rest ih => exact ih (h.frame hpositive floats frame)

end Watched

/-- `OnInterpolation` shows of what `Sample` does those not dead, at a time of it. -/
theorem seenTime_of_shown {floats : Floats} {tickDuration : ℚ} {world : World} {frame : Frame}
    {seen : SeenTime} (h : (world.shown tickDuration floats frame).seenTime = some seen) :
    ∃ now first last, world.clock.now = some now ∧ world.firstRecordedTick = some first ∧
      world.lastRecordedTick = some last ∧
      seen = seenTimeAt (now - kInterpolationDelay) tickDuration first last ∧
      (world.shown tickDuration floats frame).remotePlayers ⊆
        world.interpolator.sample floats (now - kInterpolationDelay) := by
  rw [World.shown] at h ⊢
  split at h
  · rename_i now first last hnow hfirst hlast
    split_ifs at h with hempty
    refine ⟨now, first, last, hnow, hfirst, hlast, (Option.some_inj.mp h).symm, ?_⟩
    rw [hfirst, hlast]
    simp only [hempty, Bool.false_eq_true, if_false]
    exact List.filter_sublist.subset
  · nomatch h

/-- CORRECT: at every tick rate, after any run of frames, a frame whose rings reach back to its
    sample point (or to their players' first updates) shows each of the other players as
    interpolating all of its updates of the Match at the Seen time does. -/
theorem shown_at_seen_time (floats : Floats) (tickRateHz : UInt8) (hrate : 0 < tickRateHz)
    (frames : List Frame) (frame : Frame)
    (hcovered : ((Watched.run floats (tickDurationOf tickRateHz) {} frames).recordAll
      (tickDurationOf tickRateHz) frame).Covered) :
    let recorded := (Watched.run floats (tickDurationOf tickRateHz) {} frames).recordAll
      (tickDurationOf tickRateHz) frame
    let shown := recorded.world.shown (tickDurationOf tickRateHz) floats frame
    ∀ seen ∈ shown.seenTime, shown.remotePlayers ⊆ recorded.sampled floats ∧
      ∀ player ∈ recorded.sampled floats,
        Interpolates floats (entriesOf player.entity recorded.log)
          (seen.time (tickDurationOf tickRateHz)) player.body := by
  intro recorded shown seen hseen
  have hpositive : 0 < tickDurationOf tickRateHz :=
    one_div_pos.mpr (by exact_mod_cast UInt8.lt_iff_toNat_lt.mp hrate)
  have hsound : recorded.Sound (tickDurationOf tickRateHz) :=
    (Watched.sound_start.run hpositive floats frames).recordAll hpositive frame
  obtain ⟨now, first, last, hnow, hfirst, hlast, rfl, hshown⟩ := seenTime_of_shown hseen
  have hsampled : recorded.sampled floats =
      recorded.world.interpolator.sample floats (now - kInterpolationDelay) := by
    rw [Watched.sampled, hnow]
  refine ⟨by rw [hsampled]; exact hshown, ?_⟩
  intro player hplayer
  rw [hsampled] at hplayer
  obtain ⟨buffered, hbuffered, hmap⟩ := List.mem_filterMap.mp hplayer
  obtain ⟨body, hbody, rfl⟩ := Option.map_eq_some_iff.mp hmap
  rcases hsound.span with ⟨hnone, -, -⟩ | ⟨first', last', hfirst', hlast', hle, hwithin⟩
  · rw [hnone] at hfirst
    nomatch hfirst
  · obtain rfl := Option.some_inj.mp (hfirst.symm.trans hfirst')
    obtain rfl := Option.some_inj.mp (hlast.symm.trans hlast')
    rw [time_seenTimeAt hpositive _ hle]
    refine interpolates_of_sample (hsound.suffix buffered hbuffered) ?_
      (hcovered now hnow buffered hbuffered) hbody
    intro update hupdate
    obtain ⟨entry, hentry, rfl⟩ := List.mem_map.mp hupdate
    exact hwithin entry (List.mem_of_mem_filter hentry)

/-! ### Two runs -/

/-- Updates of ticks in a row, of a player that lands at tick `landed`. -/
def fallingUntil (landed first count : ℕ) : List WorldSnapshot :=
  (List.range' first count).map fun tick =>
    ⟨UInt64.ofNat tick, [{ entity := 7, state := { grounded := landed ≤ tick } }]⟩

/-- Bodies apart in nothing that is blended. -/
def heldFloats : Floats := ⟨fun source _ _ => source, fun source _ _ => source, fun _ _ => .zero⟩

/-- A frame at 20 Hz, a fifth of the way from tick 100 to tick 101. -/
def steadyWatched : Watched :=
  (Watched.run heldFloats (tickDurationOf 20) {} [⟨0, none, fallingUntil 101 100 3, []⟩]).recordAll
    (tickDurationOf 20) ⟨1 / 10, none, fallingUntil 101 101 4, []⟩

theorem shown_at_seen_time_steady :
    (steadyWatched.sampled heldFloats).length = 1 ∧
      ∀ player ∈ steadyWatched.sampled heldFloats,
        Interpolates heldFloats (entriesOf player.entity steadyWatched.log)
          ((⟨100, 1 / 5⟩ : SeenTime).time (tickDurationOf 20)) player.body :=
  ⟨by decide +kernel,
    (shown_at_seen_time heldFloats 20 (by decide) [⟨0, none, fallingUntil 101 100 3, []⟩]
      ⟨1 / 10, none, fallingUntil 101 101 4, []⟩ (by decide +kernel) ⟨100, 1 / 5⟩
      (by decide +kernel)).2⟩

/-- At 255 Hz, 28 updates at once and 12 more 8 ms on. -/
def bunchedWatched : Watched :=
  (Watched.run heldFloats (tickDurationOf 255) {} [⟨0, none, fallingUntil 13 1 28, []⟩]).recordAll
    (tickDurationOf 255) ⟨1 / 128, none, fallingUntil 13 29 12, []⟩

/-- The Seen time is tick 1, where the player is falling; it is shown landed, as of tick 13. -/
theorem oldest_kept_past_seen_time :
    let shown := bunchedWatched.world.shown (tickDurationOf 255) heldFloats
      ⟨1 / 128, none, fallingUntil 13 29 12, []⟩
    shown.seenTime = some ⟨1, 0⟩ ∧ ∃ player ∈ shown.remotePlayers,
      player.body.grounded = true ∧
        ¬Interpolates heldFloats (entriesOf player.entity bunchedWatched.log)
          ((⟨1, 0⟩ : SeenTime).time (tickDurationOf 255)) player.body := by
  decide +kernel

end Augusta.Presentation
