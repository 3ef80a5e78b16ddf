import Mathlib.Data.List.Induction

/-! Runs of a machine whose steps may not be possible: what each step keeps, the whole run keeps. -/

namespace Lib
variable {σ ε : Type}

/-- The state after `events`, none if one of them cannot happen. -/
def run (step : σ → ε → Option σ) (s : σ) (events : List ε) : Option σ := events.foldlM step s

namespace run
variable {step : σ → ε → Option σ}

@[simp] theorem nil (s : σ) : run step s [] = some s := rfl

theorem cons (s : σ) (e : ε) (events : List ε) :
    run step s (e :: events) = (step s e).bind fun s' => run step s' events := rfl

theorem append (s : σ) (before after : List ε) :
    run step s (before ++ after) = (run step s before).bind fun s' => run step s' after := by
  rw [run, List.foldlM_append]
  rfl

/-- A run that went through one more event got to a state that event was possible in. -/
theorem concat_eq_some {s s' : σ} {events : List ε} {e : ε} :
    run step s (events ++ [e]) = some s' ↔ ∃ t, run step s events = some t ∧ step t e = some s' := by
  rw [append, Option.bind_eq_some_iff]
  refine exists_congr fun t => and_congr_right fun _ => ?_
  rw [cons, Option.bind_eq_some_iff]
  exact ⟨fun ⟨_, h, rfl⟩ => h, fun h => ⟨s', h, rfl⟩⟩

/-- What a step keeps, a run keeps. -/
theorem invariant {I : σ → Prop} (hstep : ∀ {s e s'}, I s → step s e = some s' → I s') :
    ∀ {events s s'}, I s → run step s events = some s' → I s'
  | [], s, s', h, hrun => by cases hrun; exact h
  | e :: events, s, s', h, hrun => by
      rw [cons, Option.bind_eq_some_iff] at hrun
      obtain ⟨t, ht, hrun⟩ := hrun
      exact invariant hstep (hstep h ht) hrun

/-- What a step of these events keeps, a run of them keeps. -/
theorem invariant_of_mem {I : σ → Prop} : ∀ {events : List ε} {s s' : σ},
    (∀ {s e s'}, e ∈ events → I s → step s e = some s' → I s') →
      I s → run step s events = some s' → I s'
  | [], s, s', _, h, hrun => by cases hrun; exact h
  | e :: events, s, s', hstep, h, hrun => by
      rw [cons, Option.bind_eq_some_iff] at hrun
      obtain ⟨t, ht, hrun⟩ := hrun
      exact invariant_of_mem (fun hmem => hstep (List.mem_cons_of_mem e hmem))
        (hstep List.mem_cons_self h ht) hrun

/-- What each step does to the state, any number of them do. -/
theorem relation {R : σ → σ → Prop} (hrefl : ∀ s, R s s)
    (htrans : ∀ {a b c}, R a b → R b c → R a c)
    (hstep : ∀ {s e s'}, step s e = some s' → R s s') :
    ∀ {events s s'}, run step s events = some s' → R s s'
  | [], s, s', hrun => by cases hrun; exact hrefl s
  | e :: events, s, s', hrun => by
      rw [cons, Option.bind_eq_some_iff] at hrun
      obtain ⟨t, ht, hrun⟩ := hrun
      exact htrans (hstep ht) (relation hrefl htrans hstep hrun)

end run
end Lib
