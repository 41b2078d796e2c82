import Mathlib.Data.List.Basic

/- Runs of a machine whose events may be refused. Nothing here depends on what
   the states or the events are; a refused event ends the run it occurs in. -/
namespace EventRuns

variable {State Event : Type}

def run (step : State → Event → Option State) : State → List Event → Option State
  | s, [] => some s
  | s, e :: es => (step s e).bind fun s' => run step s' es

def Reachable (step : State → Event → Option State) (start s : State) : Prop :=
  ∃ es, run step start es = some s

theorem run_append (step : State → Event → Option State) (es fs : List Event) (s : State) :
    run step s (es ++ fs) = (run step s es).bind fun s' => run step s' fs := by
  induction es generalizing s with
  | nil => rfl
  | cons e es ih =>
    simp only [List.cons_append, run]
    cases step s e with
    | none => rfl
    | some s' => exact ih s'

theorem reachable_start (step : State → Event → Option State) (s : State) :
    Reachable step s s := ⟨[], rfl⟩

theorem reachable_step {step : State → Event → Option State} {start s s' : State} {e : Event}
    (h : Reachable step start s) (next : step s e = some s') : Reachable step start s' := by
  obtain ⟨es, hs⟩ := h
  refine ⟨es ++ [e], ?_⟩
  rw [run_append, hs]
  simp [run, next]

/-- What holds at the start and survives every accepted event holds of every
    state that a run reaches. -/
theorem reachable_invariant {step : State → Event → Option State} {start : State}
    (keep : State → Prop) (first : keep start)
    (closed : ∀ s e s', keep s → step s e = some s' → keep s')
    {s : State} (h : Reachable step start s) : keep s := by
  obtain ⟨es, hs⟩ := h
  induction es generalizing start with
  | nil =>
    simp only [run, Option.some.injEq] at hs
    subst s
    exact first
  | cons e es ih =>
    simp only [run, Option.bind_eq_some_iff] at hs
    obtain ⟨mid, next, rest⟩ := hs
    exact ih (closed start e mid first next) rest

theorem run_bounded {step : State → Event → Option State} (keep : State → Prop)
    (measure : State → Nat)
    (closed : ∀ s e s', keep s → step s e = some s' → keep s' ∧ measure s' < measure s)
    {start s : State} (first : keep start) {es : List Event} (h : run step start es = some s) :
    es.length + measure s ≤ measure start := by
  induction es generalizing start with
  | nil =>
    simp only [run, Option.some.injEq] at h
    subst s
    simp
  | cons e es ih =>
    simp only [run, Option.bind_eq_some_iff] at h
    obtain ⟨mid, next, rest⟩ := h
    obtain ⟨kept, lower⟩ := closed start e mid first next
    have tail := ih kept rest
    rw [List.length_cons]
    omega

section Termination

variable {M : Type} {lt : M → M → Prop} {step : State → Event → Option State}

theorem no_infinite_run (wf : WellFounded lt) (keep : State → Prop) (measure : State → M)
    (closed : ∀ s e s', keep s → step s e = some s' → keep s' ∧ lt (measure s') (measure s))
    {start : State} (first : keep start) :
    ¬ ∃ f : Nat → State, f 0 = start ∧ ∀ n, ∃ e, step (f n) e = some (f (n + 1)) := by
  rintro ⟨f, here, next⟩
  have kept : ∀ n, keep (f n) := by
    intro n
    induction n with
    | zero =>
      rw [here]
      exact first
    | succ n ih =>
      obtain ⟨e, moved⟩ := next n
      exact (closed _ e _ ih moved).1
  have none_at : ∀ m n, measure (f n) = m → False := by
    intro m
    induction m using wf.induction with
    | _ m ih =>
      rintro n rfl
      obtain ⟨e, moved⟩ := next n
      exact ih _ (closed _ e _ (kept n) moved).2 (n + 1) rfl
  exact none_at _ 0 rfl

/-- From every state there is a run to one that accepts no event. -/
theorem comes_to_rest (wf : WellFounded lt) (keep : State → Prop) (measure : State → M)
    (closed : ∀ s e s', keep s → step s e = some s' → keep s' ∧ lt (measure s') (measure s)) :
    ∀ s, keep s → ∃ s', Reachable step s s' ∧ ∀ e, step s' e = none := by
  intro s
  induction found : measure s using wf.induction generalizing s with
  | _ m ih =>
    intro kept
    by_cases rest : ∀ e, step s e = none
    · exact ⟨s, reachable_start step s, rest⟩
    · obtain ⟨e, moves⟩ := not_forall.mp rest
      obtain ⟨next, moved⟩ := Option.ne_none_iff_exists'.mp moves
      obtain ⟨kept', lower⟩ := closed s e next kept moved
      obtain ⟨s', ⟨es, ran⟩, stuck⟩ := ih _ (found ▸ lower) next rfl kept'
      exact ⟨s', ⟨e :: es, by rw [run, moved, Option.bind_some, ran]⟩, stuck⟩

end Termination

end EventRuns
