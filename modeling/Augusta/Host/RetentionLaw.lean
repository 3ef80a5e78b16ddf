import Augusta.Host.CaptureRetention
import Mathlib.Algebra.BigOperators.Group.List.Basic
import Mathlib.Algebra.GroupWithZero.Nat
import Mathlib.Data.List.Nodup
import Mathlib.Tactic.SplitIfs

/-! What retention keeps a capture directory to.

      captures, oldest first   c₀ c₁ c₂ c₃ c₄ + the bytes to come
      deletions                └──k──┘          the least k after which they fit, or all of them

    Deleting the oldest and planning again deletes just those k. Sums are those of whole numbers as
    long as the bytes, with those to come, are fewer than 2⁶⁴. -/

namespace Augusta.Host

/-- The bytes of captures. -/
def sizes (captures : List CompletedCapture) : ℕ := (captures.map (·.size.toNat)).sum

/-- Whether what is to come fits once the `k` oldest are deleted. -/
structure Fits (retention : CaptureRetention) (opening : Bool) (bytes : ℕ)
    (completed : List CompletedCapture) (total k : ℕ) : Prop where
  files : opening = true → ∀ maxFiles ∈ retention.maxFiles, (completed.drop k).length + 1 ≤ maxFiles
  bytes : ∀ maxBytes ∈ retention.maxBytes,
    total - sizes (completed.take k) + bytes ≤ maxBytes.toNat

/-- The shortest prefix whose deletion makes room, or every capture and a refusal. -/
structure IsPlan (retention : CaptureRetention) (opening : Bool) (bytes : ℕ)
    (completed : List CompletedCapture) (total : ℕ) (plan : RetentionPlan) : Prop where
  within : plan.deletions ≤ completed.length
  fits_iff : plan.fits = true ↔ Fits retention opening bytes completed total plan.deletions
  shortest : ∀ k < plan.deletions, ¬Fits retention opening bytes completed total k
  refused : plan.fits = false → plan.deletions = completed.length

/-! ### One loop -/

@[simp] theorem sizes_cons (oldest : CompletedCapture) (left : List CompletedCapture) :
    sizes (oldest :: left) = oldest.size.toNat + sizes left := by
  simp [sizes]

@[simp] theorem sizes_nil : sizes [] = 0 := rfl

/-- What a subtraction held at zero leaves. -/
theorem toNat_sub_min (total size : UInt64) :
    (total - min total size).toNat = total.toNat - size.toNat := by
  have hdef : min total size = if total ≤ size then total else size := rfl
  rw [hdef]
  split_ifs with h
  · have hle := UInt64.le_iff_toNat_le.mp h
    rw [UInt64.toNat_sub_of_le _ _ (UInt64.le_refl _)]
    omega
  · exact UInt64.toNat_sub_of_le _ _ (UInt64.le_of_lt (UInt64.not_le.mp h))

/-- A loop that deleted the `k` oldest: each was too much, and what is left is not, or is nothing. -/
structure Deletes (excess : List CompletedCapture → UInt64 → Bool) (completed : List CompletedCapture)
    (deletions : ℕ) (total : UInt64) (k : ℕ) (pruned : Pruned) : Prop where
  within : k ≤ completed.length
  left : pruned.left = completed.drop k
  deletions : pruned.deletions = deletions + k
  remaining : pruned.remaining.toNat = total.toNat - sizes (completed.take k)
  enough : pruned.left = [] ∨ excess pruned.left pruned.remaining = false
  needed : ∀ j < k, ∃ remaining : UInt64,
    remaining.toNat = total.toNat - sizes (completed.take j) ∧
      excess (completed.drop j) remaining = true

theorem deleteWhile_deletes (excess : List CompletedCapture → UInt64 → Bool)
    (completed : List CompletedCapture) (deletions : ℕ) (total : UInt64) :
    ∃ k, Deletes excess completed deletions total k
      (deleteWhile excess completed deletions total) := by
  induction completed generalizing deletions total with
  | nil =>
      refine ⟨0, Nat.le_refl _, rfl, rfl, rfl, .inl rfl, ?_⟩
      intro j hj
      omega
  | cons oldest left ih =>
      rw [deleteWhile]
      split_ifs with hexcess
      · obtain ⟨k, hk⟩ := ih (deletions + 1) (total - min total oldest.size)
        refine ⟨k + 1, Nat.succ_le_succ hk.within, hk.left, ?_, ?_, hk.enough, ?_⟩
        · rw [hk.deletions]
          omega
        · rw [hk.remaining, toNat_sub_min, List.take_succ_cons, sizes_cons]
          omega
        · intro j hj
          cases j with
          | zero => exact ⟨total, rfl, hexcess⟩
          | succ j =>
              obtain ⟨remaining, hremaining, hneeded⟩ := hk.needed j (by omega)
              refine ⟨remaining, ?_, hneeded⟩
              rw [hremaining, toNat_sub_min, List.take_succ_cons, sizes_cons]
              omega
      · refine ⟨0, Nat.zero_le _, rfl, rfl, rfl, .inr (eq_false_of_ne_true hexcess), ?_⟩
        intro j hj
        omega

/-! ### The plan is the shortest -/

section
variable {retention : CaptureRetention} {opening : Bool} {bytes : UInt64}
  {completed : List CompletedCapture} {total : UInt64}

theorem sizes_append (captures more : List CompletedCapture) :
    sizes (captures ++ more) = sizes captures + sizes more := by
  rw [sizes, List.map_append, List.sum_append]
  rfl

theorem sizes_take_add (captures : List CompletedCapture) (j k : ℕ) :
    sizes (captures.take (j + k)) = sizes (captures.take j) + sizes ((captures.drop j).take k) := by
  rw [List.take_add, sizes_append]

/-- The first loop leaves room for a new file, and deletes nothing that need not go. -/
structure Counts (retention : CaptureRetention) (opening : Bool) (bytes : UInt64)
    (completed : List CompletedCapture) (total : UInt64) (k : ℕ) (counted : Pruned) : Prop where
  within : k ≤ completed.length
  left : counted.left = completed.drop k
  deletions : counted.deletions = k
  remaining : counted.remaining.toNat = total.toNat - sizes (completed.take k)
  room : opening = true → ∀ maxFiles ∈ retention.maxFiles,
    (completed.drop k).length + 1 ≤ maxFiles
  needed : ∀ j < k, ¬Fits retention opening bytes.toNat completed total.toNat j

theorem counts_none (hoff : opening = true → ∀ maxFiles, retention.maxFiles ≠ some maxFiles) :
    Counts retention opening bytes completed total 0 ⟨completed, 0, total⟩ := by
  refine ⟨Nat.zero_le _, rfl, rfl, rfl, ?_, ?_⟩
  · intro htrue maxFiles hmaxFiles
    exact absurd hmaxFiles (hoff htrue maxFiles)
  · intro j hj
    exact absurd hj (Nat.not_lt_zero _)

theorem counts_deleteFiles (hfiles : ∀ maxFiles ∈ retention.maxFiles, 0 < maxFiles)
    (opening : Bool) (bytes : UInt64) (completed : List CompletedCapture) (total : UInt64) :
    ∃ k, Counts retention opening bytes completed total k
      (deleteFiles completed total opening retention) := by
  unfold deleteFiles
  cases opening with
  | false => exact ⟨0, counts_none fun h => (nomatch h)⟩
  | true =>
      rcases hmaxFiles : retention.maxFiles with _ | maxFiles
      · exact ⟨0, counts_none fun _ maxFiles h => by rw [hmaxFiles] at h; nomatch h⟩
      obtain ⟨k, hk⟩ :=
        deleteWhile_deletes (fun left _ => maxFiles ≤ left.length) completed 0 total
      refine ⟨k, hk.within, hk.left, by rw [hk.deletions, Nat.zero_add], hk.remaining, ?_, ?_⟩
      · intro _ limit hlimit
        rw [hmaxFiles] at hlimit
        obtain rfl := Option.some.inj hlimit
        rcases hk.enough with hnil | henough
        · rw [← hk.left, hnil]
          exact hfiles maxFiles hmaxFiles
        · rw [← hk.left]
          exact Nat.not_le.mp (of_decide_eq_false henough)
      · intro j hj hfits
        obtain ⟨-, -, hneeded⟩ := hk.needed j hj
        have hroom := hfits.files rfl maxFiles hmaxFiles
        have hmany := of_decide_eq_true hneeded
        omega

/-- A sum that does not wrap. -/
theorem toNat_add_few {remaining : UInt64} (hle : remaining.toNat ≤ total.toNat)
    (hfew : total.toNat + bytes.toNat < 2 ^ 64) :
    (remaining + bytes).toNat = remaining.toNat + bytes.toNat := by
  rw [UInt64.toNat_add]
  exact Nat.mod_eq_of_lt (by omega)

/-- CORRECT: the plan is the shortest prefix whose deletion makes room under both limits. -/
theorem isPlan_planRetention (hfiles : ∀ maxFiles ∈ retention.maxFiles, 0 < maxFiles)
    (opening : Bool) (completed : List CompletedCapture)
    (hfew : total.toNat + bytes.toNat < 2 ^ 64) :
    IsPlan retention opening bytes.toNat completed total.toNat
      (planRetention completed total opening bytes retention) := by
  obtain ⟨k, hk⟩ := counts_deleteFiles hfiles opening bytes completed total
  rw [planRetention]
  rcases hmaxBytes : retention.maxBytes with _ | maxBytes
  · -- no byte limit: the first loop is all
    have hfits : Fits retention opening bytes.toNat completed total.toNat k :=
      ⟨hk.room, fun maxBytes h => by rw [hmaxBytes] at h; nomatch h⟩
    simp only [hk.deletions]
    exact ⟨hk.within, ⟨fun _ => hfits, fun _ => rfl⟩, hk.needed, fun h => (nomatch h)⟩
  · obtain ⟨l, hl⟩ := deleteWhile_deletes (fun _ remaining => maxBytes < remaining + bytes)
      (deleteFiles completed total opening retention).left
      (deleteFiles completed total opening retention).deletions
      (deleteFiles completed total opening retention).remaining
    rw [hk.left, hk.deletions] at hl
    have hsum (remaining : UInt64) (j : ℕ)
        (h : remaining.toNat = (deleteFiles completed total opening retention).remaining.toNat -
          sizes ((completed.drop k).take j)) :
        (remaining + bytes).toNat =
          total.toNat - sizes (completed.take (k + j)) + bytes.toNat := by
      rw [hk.remaining] at h
      rw [toNat_add_few (by omega) hfew, sizes_take_add]
      omega
    obtain ⟨pruned, hpruned⟩ : ∃ pruned, pruned =
        deleteWhile (fun _ remaining => maxBytes < remaining + bytes)
          (deleteFiles completed total opening retention).left
          (deleteFiles completed total opening retention).deletions
          (deleteFiles completed total opening retention).remaining := ⟨_, rfl⟩
    rw [hk.left, hk.deletions] at hpruned
    simp only [hk.left, hk.deletions]
    rw [← hpruned] at hl ⊢
    have hend := hsum pruned.remaining l hl.remaining
    have hwithin := hl.within
    rw [List.length_drop] at hwithin
    have hless := hk.within
    rw [hl.deletions]
    refine ⟨by simp only; omega, ?_, ?_, ?_⟩
    · constructor
      · intro hfits
        have hle := UInt64.le_iff_toNat_le.mp (of_decide_eq_true hfits)
        refine ⟨?_, ?_⟩
        · intro htrue maxFiles hmem
          have hroom := hk.room htrue maxFiles hmem
          simp only [List.length_drop] at hroom ⊢
          omega
        · intro limit hlimit
          rw [hmaxBytes] at hlimit
          obtain rfl := Option.some.inj hlimit
          rw [← hend]
          exact hle
      · intro hfits
        refine decide_eq_true (UInt64.le_iff_toNat_le.mpr ?_)
        rw [hend]
        exact hfits.bytes maxBytes hmaxBytes
    · intro j hj hfits
      rcases Nat.lt_or_ge j k with hcounted | hlater
      · exact hk.needed j hcounted hfits
      · obtain ⟨i, rfl⟩ := Nat.exists_eq_add_of_le hlater
        obtain ⟨remaining, hremaining, hneeded⟩ := hl.needed i (by simp only at hj; omega)
        have hmany := UInt64.lt_iff_toNat_lt.mp (of_decide_eq_true hneeded)
        rw [hsum remaining i hremaining] at hmany
        have hroom := hfits.bytes maxBytes hmaxBytes
        omega
    · intro hrefused
      rcases hl.enough with hnil | henough
      · rw [hl.left, List.drop_drop, List.drop_eq_nil_iff] at hnil
        simp only
        omega
      · have hlt := UInt64.not_lt.mp (of_decide_eq_false henough)
        exact absurd hlt (of_decide_eq_false hrefused)

/-! ### One deletion at a time -/

theorem IsPlan.unique {bytes total : ℕ} {plan other : RetentionPlan}
    (h : IsPlan retention opening bytes completed total plan)
    (hother : IsPlan retention opening bytes completed total other) : plan = other := by
  have hle {a b : RetentionPlan} (ha : IsPlan retention opening bytes completed total a)
      (hb : IsPlan retention opening bytes completed total b) : b.deletions ≤ a.deletions := by
    by_contra hlt
    have hunfit := hb.shortest a.deletions (Nat.not_le.mp hlt)
    have hrefused := ha.refused (Bool.eq_false_iff.mpr fun hfits => hunfit (ha.fits_iff.mp hfits))
    have hwithin := hb.within
    omega
  have hdeletions : plan.deletions = other.deletions := Nat.le_antisymm (hle hother h) (hle h hother)
  have hfits : plan.fits = other.fits := by
    rw [Bool.eq_iff_iff, h.fits_iff, hother.fits_iff, hdeletions]
  cases plan
  cases other
  simp only at hdeletions hfits
  rw [hdeletions, hfits]

/-- With its oldest deleted, a directory needs one deletion fewer. -/
theorem IsPlan.tail {oldest : CompletedCapture} {left : List CompletedCapture} {bytes total k : ℕ}
    {fits : Bool} (h : IsPlan retention opening bytes (oldest :: left) total ⟨k + 1, fits⟩) :
    IsPlan retention opening bytes left (total - oldest.size.toNat) ⟨k, fits⟩ := by
  have hshift (j : ℕ) : Fits retention opening bytes (oldest :: left) total (j + 1) ↔
      Fits retention opening bytes left (total - oldest.size.toNat) j := by
    have hsum (limit : ℕ) : total - sizes ((oldest :: left).take (j + 1)) + bytes ≤ limit ↔
        total - oldest.size.toNat - sizes (left.take j) + bytes ≤ limit := by
      rw [List.take_succ_cons, sizes_cons, Nat.sub_sub]
    exact ⟨fun hfits => ⟨hfits.files, fun maxBytes hmem => (hsum _).mp (hfits.bytes maxBytes hmem)⟩,
      fun hfits => ⟨hfits.files, fun maxBytes hmem => (hsum _).mpr (hfits.bytes maxBytes hmem)⟩⟩
  refine ⟨Nat.le_of_succ_le_succ h.within, h.fits_iff.trans (hshift k), ?_, ?_⟩
  · intro j hj hfits
    exact h.shortest (j + 1) (Nat.succ_lt_succ hj) ((hshift j).mpr hfits)
  · intro hrefused
    exact Nat.succ.inj (h.refused hrefused)

/-- CORRECT: deleting the oldest and planning again deletes as many as the plan said at first. -/
theorem makeRoom_deletes (hfiles : ∀ maxFiles ∈ retention.maxFiles, 0 < maxFiles)
    (opening : Bool) (completed : List CompletedCapture)
    (hfew : total.toNat + bytes.toNat < 2 ^ 64) :
    let plan := planRetention completed total opening bytes retention
    let room := makeRoom retention opening bytes completed total
    room.deleted = completed.take plan.deletions ∧ room.left = completed.drop plan.deletions ∧
      room.total.toNat = total.toNat - sizes (completed.take plan.deletions) ∧
      room.fits = plan.fits := by
  induction completed generalizing total with
  | nil =>
      have hplan := isPlan_planRetention hfiles opening [] hfew
      have hnone : (planRetention [] total opening bytes retention).deletions = 0 :=
        Nat.le_zero.mp hplan.within
      intro plan room
      rw [show plan.deletions = 0 from hnone]
      exact ⟨rfl, rfl, rfl, rfl⟩
  | cons oldest left ih =>
      have hplan := isPlan_planRetention hfiles opening (oldest :: left) hfew
      intro plan room
      simp only [room, makeRoom]
      rcases hdeletions : plan.deletions with _ | k
      · rw [if_pos rfl]
        exact ⟨rfl, rfl, rfl, rfl⟩
      · have htotal := toNat_sub_min total oldest.size
        have hfew' : (total - min total oldest.size).toNat + bytes.toNat < 2 ^ 64 := by omega
        have hplan' : IsPlan retention opening bytes.toNat (oldest :: left) total.toNat
            ⟨k + 1, plan.fits⟩ := by
          rw [← hdeletions]
          exact hplan
        have hsame : planRetention left (total - min total oldest.size) opening bytes retention =
            ⟨k, plan.fits⟩ :=
          (isPlan_planRetention hfiles opening left hfew').unique (htotal ▸ hplan'.tail)
        obtain ⟨hdeleted, hleft, hrest, hfits⟩ := ih hfew'
        rw [hsame] at hdeleted hleft hrest hfits
        rw [if_neg (Nat.succ_ne_zero k)]
        refine ⟨?_, hleft, ?_, hfits⟩
        · rw [hdeleted, List.take_succ_cons]
        · rw [hrest, htotal, List.take_succ_cons, sizes_cons, Nat.sub_sub]
end

end Augusta.Host
