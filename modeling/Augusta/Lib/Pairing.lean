import Mathlib.Data.List.Perm.Basic

/-! Two lists paired by a key, first come first served: each of the one takes the first of the other
    under its key that none took before; what none took comes last, alone.

      lefts   a₁ a₂ a₃          pairs   (a₁, b₂) (a₂, –) (a₃, b₁) (–, b₃)
      rights  b₁ b₂ b₃ -/

namespace Lib.Pairing
variable {α β γ κ : Type} [DecidableEq κ] (left : α → κ) (right : β → κ)

/-- The first of a key not taken yet, and the marks with it taken. -/
def takeFirst (k : κ) : List (β × Bool) → Option β × List (β × Bool)
  | [] => (none, [])
  | (b, taken) :: rest =>
      if ¬ taken ∧ right b = k then (some b, (b, true) :: rest)
      else ((takeFirst k rest).1, (b, taken) :: (takeFirst k rest).2)

/-- What none took. -/
def untaken (marks : List (β × Bool)) : List β :=
  (marks.filter fun mark => !mark.2).map Prod.fst

/-- Each left one with what it takes, and the marks in the end. -/
def pairUp : List α → List (β × Bool) → List (Option α × Option β) × List (β × Bool)
  | [], marks => ([], marks)
  | a :: rest, marks =>
      let (found, marks) := takeFirst right (left a) marks
      let (pairs, marks) := pairUp rest marks
      ((some a, found) :: pairs, marks)

def pairing (lefts : List α) (rights : List β) : List (Option α × Option β) :=
  let (pairs, marks) := pairUp left right lefts (rights.map fun b => (b, false))
  pairs ++ (untaken marks).map fun b => (none, some b)

/-- Both lists are there whole, each pair is under one key, and none is left for another. -/
structure Paired (lefts : List α) (rights : List β) (pairs : List (Option α × Option β)) : Prop where
  lefts : pairs.filterMap Prod.fst = lefts
  rights : (pairs.filterMap Prod.snd).Perm rights
  someone : (none, none) ∉ pairs
  sameKey : ∀ a b, (some a, some b) ∈ pairs → left a = right b
  noneLeft : ∀ a b, (some a, none) ∈ pairs → (none, some b) ∈ pairs → left a ≠ right b

/-! ### Taking -/

section
variable {left right} {k : κ} {marks : List (β × Bool)} {lefts : List α} {rights : List β}

theorem untaken_cons (b : β) (taken : Bool) (marks : List (β × Bool)) :
    untaken ((b, taken) :: marks) = (if taken then [] else [b]) ++ untaken marks := by
  cases taken <;> rfl

theorem untaken_map_false (rights : List β) : untaken (rights.map fun b => (b, false)) = rights := by
  induction rights with
  | nil => rfl
  | cons b rest ih => rw [List.map_cons, untaken_cons, ih]; rfl

/-- Either one of the key is taken, or none was left of it and nothing changes. -/
theorem takeFirst_cases (k : κ) (marks : List (β × Bool)) :
    ((takeFirst right k marks).1 = none ∧ (takeFirst right k marks).2 = marks ∧
        ∀ b ∈ untaken marks, right b ≠ k) ∨
      ∃ b, (takeFirst right k marks).1 = some b ∧ right b = k ∧
        (b :: untaken (takeFirst right k marks).2).Perm (untaken marks) := by
  induction marks with
  | nil => exact .inl ⟨rfl, rfl, fun b hin => by cases hin⟩
  | cons mark rest ih =>
      obtain ⟨first, taken⟩ := mark
      by_cases hfirst : ¬ taken ∧ right first = k
      · refine .inr ⟨first, ?_, hfirst.2, ?_⟩
        · rw [takeFirst, if_pos hfirst]
        · rw [takeFirst, if_pos hfirst, untaken_cons, untaken_cons, if_pos rfl, if_neg hfirst.1]
          exact List.Perm.refl _
      · rw [takeFirst, if_neg hfirst]
        rcases ih with ⟨hnone, hsame, hother⟩ | ⟨b, hfound, hkey, hperm⟩
        · refine .inl ⟨hnone, by rw [hsame], fun b hin => ?_⟩
          rw [untaken_cons] at hin
          rcases List.mem_append.mp hin with hnew | hold
          · cases taken with
            | true => cases hnew
            | false =>
                rw [List.mem_singleton.mp hnew]
                exact fun hkey => hfirst ⟨Bool.false_ne_true, hkey⟩
          · exact hother b hold
        · refine .inr ⟨b, hfound, hkey, ?_⟩
          rw [untaken_cons, untaken_cons]
          exact List.perm_middle.symm.trans (hperm.append_left _)

/-- What is taken is under the key, and no more is untaken than before. -/
theorem takeFirst_spec (k : κ) (marks : List (β × Bool)) :
    (∀ b ∈ (takeFirst right k marks).1, right b = k) ∧
      ((takeFirst right k marks).1.toList ++ untaken (takeFirst right k marks).2).Perm
        (untaken marks) ∧
      ((takeFirst right k marks).1 = none →
        ∀ b ∈ untaken (takeFirst right k marks).2, right b ≠ k) := by
  rcases @takeFirst_cases _ _ _ right k marks with ⟨hnone, hsame, hother⟩ | ⟨b, hfound, hkey, hperm⟩
  · rw [hnone, hsame]
    exact ⟨fun _ hb => (Option.not_mem_none _ hb).elim, List.Perm.refl _, fun _ => hother⟩
  · rw [hfound]
    refine ⟨fun c hc => ?_, hperm, fun h => by cases h⟩
    rw [← Option.some.inj hc]
    exact hkey

/-- What pairing up some of the left ones comes to. -/
structure PairedUp (left : α → κ) (right : β → κ) (lefts : List α) (marks : List (β × Bool))
    (pairs : List (Option α × Option β)) (after : List (β × Bool)) : Prop where
  lefts : pairs.map Prod.fst = lefts.map some
  rights : (pairs.filterMap Prod.snd ++ untaken after).Perm (untaken marks)
  sameKey : ∀ a b, (some a, some b) ∈ pairs → left a = right b
  noneLeft : ∀ a, (some a, none) ∈ pairs → ∀ b ∈ untaken after, left a ≠ right b

theorem pairedUp (lefts : List α) (marks : List (β × Bool)) :
    PairedUp left right lefts marks (pairUp left right lefts marks).1
      (pairUp left right lefts marks).2 := by
  induction lefts generalizing marks with
  | nil =>
      exact ⟨rfl, List.Perm.refl _, fun _ _ hin => (List.not_mem_nil hin).elim,
        fun _ hin => (List.not_mem_nil hin).elim⟩
  | cons a rest ih =>
      obtain ⟨hkey, hperm, hnone⟩ := @takeFirst_spec _ _ _ right (left a) marks
      have hrest := ih (takeFirst right (left a) marks).2
      rw [pairUp]
      simp only
      refine ⟨?_, ?_, ?_, ?_⟩
      · rw [List.map_cons, hrest.lefts, List.map_cons]
      · refine List.Perm.trans ?_ hperm
        cases hfound : (takeFirst right (left a) marks).1 with
        | none => exact hrest.rights
        | some b => exact hrest.rights.cons b
      · intro a' b hin
        rcases List.mem_cons.mp hin with hnew | hold
        · obtain ⟨rfl, hfound⟩ := Prod.mk.inj hnew |>.imp Option.some.inj Eq.symm
          exact (hkey b hfound).symm
        · exact hrest.sameKey a' b hold
      · intro a' hin b hb
        rcases List.mem_cons.mp hin with hnew | hold
        · obtain ⟨rfl, hfound⟩ := Prod.mk.inj hnew |>.imp Option.some.inj Eq.symm
          have hstill : b ∈ untaken (takeFirst right (left a') marks).2 :=
            hrest.rights.mem_iff.mp (List.mem_append_right _ hb)
          exact fun hsame => hnone hfound b hstill hsame.symm
        · exact hrest.noneLeft a' hold b hb

/-- A pairing pairs. -/
theorem paired (lefts : List α) (rights : List β) :
    Paired left right lefts rights (pairing left right lefts rights) := by
  have h := @pairedUp _ _ _ _ left right lefts (rights.map fun b => (b, false))
  rw [pairing]
  generalize pairUp left right lefts (rights.map fun b => (b, false)) = result at h ⊢
  obtain ⟨pairs, after⟩ := result
  have hsome : ∀ pair ∈ pairs, ∃ a, pair.1 = some a := by
    intro pair hin
    have hmem : pair.1 ∈ lefts.map some := h.lefts ▸ List.mem_map_of_mem hin
    obtain ⟨a, -, ha⟩ := List.mem_map.mp hmem
    exact ⟨a, ha.symm⟩
  have hpaired {a : α} {b : Option β}
      (hin : (some a, b) ∈ pairs ++ (untaken after).map fun b => (none, some b)) :
      (some a, b) ∈ pairs := by
    rcases List.mem_append.mp hin with hold | hnew
    · exact hold
    · obtain ⟨_, -, heq⟩ := List.mem_map.mp hnew
      cases heq
  refine ⟨?_, ?_, ?_, fun a b hin => h.sameKey a b (hpaired hin), ?_⟩
  · have hfirst : pairs.filterMap Prod.fst = (pairs.map Prod.fst).filterMap id := by
      rw [List.filterMap_map]
      rfl
    rw [List.filterMap_append, hfirst, h.lefts, List.filterMap_map, List.filterMap_map]
    simp
  · rw [List.filterMap_append, List.filterMap_map]
    have hrights := h.rights
    rw [untaken_map_false] at hrights
    simpa [Function.comp_def] using hrights
  · intro hin
    rcases List.mem_append.mp hin with hold | hnew
    · obtain ⟨a, ha⟩ := hsome _ hold
      cases ha
    · obtain ⟨_, -, heq⟩ := List.mem_map.mp hnew
      cases heq
  · intro a b ha hb
    refine h.noneLeft a (hpaired ha) b ?_
    rcases List.mem_append.mp hb with hold | hnew
    · obtain ⟨_, hsome⟩ := hsome _ hold
      cases hsome
    · obtain ⟨_, hin, heq⟩ := List.mem_map.mp hnew
      cases heq
      exact hin

/-! ### Right ones read off others -/

theorem takeFirst_map (f : γ → β) (k : κ) (marks : List (γ × Bool)) :
    takeFirst right k (marks.map fun mark => (f mark.1, mark.2)) =
      ((takeFirst (right ∘ f) k marks).1.map f,
        (takeFirst (right ∘ f) k marks).2.map fun mark => (f mark.1, mark.2)) := by
  induction marks with
  | nil => rfl
  | cons mark rest ih =>
      rw [List.map_cons, takeFirst, takeFirst, ih]
      simp only [Function.comp_apply]
      split_ifs <;> rfl

theorem pairUp_map (f : γ → β) (lefts : List α) (marks : List (γ × Bool)) :
    pairUp left right lefts (marks.map fun mark => (f mark.1, mark.2)) =
      ((pairUp left (right ∘ f) lefts marks).1.map fun pair => (pair.1, pair.2.map f),
        (pairUp left (right ∘ f) lefts marks).2.map fun mark => (f mark.1, mark.2)) := by
  induction lefts generalizing marks with
  | nil => rfl
  | cons a rest ih =>
      simp only [pairUp]
      rw [takeFirst_map, ih]
      rfl

theorem untaken_map (f : γ → β) (marks : List (γ × Bool)) :
    untaken (marks.map fun mark => (f mark.1, mark.2)) = (untaken marks).map f := by
  induction marks with
  | nil => rfl
  | cons mark rest ih =>
      obtain ⟨c, taken⟩ := mark
      rw [List.map_cons, untaken_cons, untaken_cons, ih]
      cases taken <;> rfl

/-- What is paired is what the right ones were read off. -/
theorem pairing_map (f : γ → β) (lefts : List α) (rights : List γ) :
    pairing left right lefts (rights.map f) =
      (pairing left (right ∘ f) lefts rights).map fun pair => (pair.1, pair.2.map f) := by
  have hmarks : (rights.map f).map (fun b => (b, false)) =
      (rights.map fun c => (c, false)).map fun mark : γ × Bool => (f mark.1, mark.2) := by
    rw [List.map_map, List.map_map]
    rfl
  simp only [pairing]
  rw [hmarks, pairUp_map, untaken_map, List.map_append, List.map_map, List.map_map]
  rfl

end
end Lib.Pairing
