import Mathlib.Data.List.Basic

/-! Computations that end in a value or an error, taken apart where they end in a value. -/

namespace Except
variable {ε δ α β γ : Type}

theorem bind_eq_ok {x : Except ε α} {f : α → Except ε β} {b : β} :
    x >>= f = .ok b ↔ ∃ a, x = .ok a ∧ f a = .ok b := by
  cases x with
  | error e => exact ⟨fun h => (nomatch h), fun ⟨_, h, _⟩ => (nomatch h)⟩
  | ok a => exact ⟨fun h => ⟨a, rfl, h⟩, fun ⟨_, ha, h⟩ => by cases ha; exact h⟩

theorem map_eq_ok {x : Except ε α} {f : α → β} {b : β} :
    f <$> x = .ok b ↔ ∃ a, x = .ok a ∧ f a = b := by
  cases x with
  | error e => exact ⟨fun h => (nomatch h), fun ⟨_, h, _⟩ => (nomatch h)⟩
  | ok a => exact ⟨fun h => ⟨a, rfl, by cases h; rfl⟩, fun ⟨_, ha, h⟩ => by cases ha; cases h; rfl⟩

@[simp] theorem pure_eq_ok {a b : α} : (pure a : Except ε α) = .ok b ↔ a = b :=
  ⟨fun h => by cases h; rfl, fun h => by cases h; rfl⟩

@[simp] theorem ok_bind (a : α) (f : α → Except ε β) : (Except.ok a : Except ε α) >>= f = f a := rfl

@[simp] theorem ok_map (a : α) (f : α → β) : f <$> (Except.ok a : Except ε α) = .ok (f a) := rfl

/-- A list maps to as many values as it has. -/
theorem length_mapM {f : α → Except ε β} : ∀ {items : List α} {values : List β},
    items.mapM f = .ok values → values.length = items.length
  | [], values, h => by
      rw [List.mapM_nil, pure_eq_ok] at h
      rw [← h, List.length_nil, List.length_nil]
  | item :: rest, values, h => by
      rw [List.mapM_cons, bind_eq_ok] at h
      obtain ⟨value, _, h⟩ := h
      obtain ⟨others, hothers, h⟩ := bind_eq_ok.mp h
      rw [← pure_eq_ok.mp h, List.length_cons, List.length_cons, length_mapM hothers]

/-- Each value is what one item maps to. -/
theorem exists_of_mem_mapM {f : α → Except ε β} : ∀ {items : List α} {values : List β},
    items.mapM f = .ok values → ∀ value ∈ values, ∃ item ∈ items, f item = .ok value
  | [], values, h => by
      rw [List.mapM_nil, pure_eq_ok] at h
      rw [← h]
      rintro value ⟨⟩
  | item :: rest, values, h => by
      rw [List.mapM_cons, bind_eq_ok] at h
      obtain ⟨first, hfirst, h⟩ := h
      obtain ⟨others, hothers, h⟩ := bind_eq_ok.mp h
      rw [← pure_eq_ok.mp h]
      intro value hvalue
      rcases List.mem_cons.mp hvalue with rfl | hvalue
      · exact ⟨item, List.mem_cons_self, hfirst⟩
      · obtain ⟨source, hsource, hmap⟩ := exists_of_mem_mapM hothers value hvalue
        exact ⟨source, List.mem_cons_of_mem _ hsource, hmap⟩

/-- A list maps where each item does. -/
theorem mapM_ok_of_forall {f : α → Except ε β} : ∀ {items : List α},
    (∀ item ∈ items, ∃ value, f item = .ok value) → ∃ values, items.mapM f = .ok values
  | [], _ => ⟨[], rfl⟩
  | item :: rest, h => by
      obtain ⟨value, hvalue⟩ := h item List.mem_cons_self
      obtain ⟨values, hvalues⟩ :=
        mapM_ok_of_forall fun other hother => h other (List.mem_cons_of_mem _ hother)
      rw [List.mapM_cons, hvalue, ok_bind, hvalues, ok_bind]
      exact ⟨value :: values, rfl⟩

/-- Each item maps to the value at its place. -/
theorem forall₂_of_mapM {f : α → Except ε β} : ∀ {items : List α} {values : List β},
    items.mapM f = .ok values → List.Forall₂ (fun item value => f item = .ok value) items values
  | [], values, h => by
      rw [List.mapM_nil, pure_eq_ok] at h
      rw [← h]
      exact .nil
  | item :: rest, values, h => by
      rw [List.mapM_cons, bind_eq_ok] at h
      obtain ⟨value, hvalue, h⟩ := h
      obtain ⟨others, hothers, h⟩ := bind_eq_ok.mp h
      rw [← pure_eq_ok.mp h]
      exact .cons hvalue (forall₂_of_mapM hothers)

/-- What maps each value there maps the whole list there. -/
theorem mapM_round_trip {write : α → Except ε β} {read : β → Except δ γ} {back : α → γ}
    (one : ∀ {item value}, write item = .ok value → read value = .ok (back item)) :
    ∀ {items : List α} {values : List β}, items.mapM write = .ok values →
      values.mapM read = .ok (items.map back)
  | [], values, h => by
      rw [List.mapM_nil, pure_eq_ok] at h
      rw [← h]
      rfl
  | item :: rest, values, h => by
      rw [List.mapM_cons, bind_eq_ok] at h
      obtain ⟨value, hvalue, h⟩ := h
      obtain ⟨others, hothers, h⟩ := bind_eq_ok.mp h
      rw [← pure_eq_ok.mp h, List.mapM_cons, one hvalue, ok_bind, mapM_round_trip one hothers,
        ok_bind]
      rfl

end Except
