import CalculatorRpc.LogForecasts

/- Computations that start operations, some of them while the callback of another
   one is open. Each start is logged with the callbacks that are open at that
   moment, and the open callbacks are the frame of the log. -/
namespace StartTraces
open FallibleRuns LogForecasts

variable {σ C P E α : Type}

structure Standing (σ C : Type) where
  world : σ
  stack : List C

abbrev Traced (σ C : Type) := Logged (Standing σ C) (C × List C)

def start (c : C) (s : Traced σ C) : Traced σ C :=
  ⟨⟨s.state.world, c :: s.state.stack⟩, s.log ++ [(c, s.state.stack)]⟩

def leave (s : Traced σ C) : Traced σ C :=
  { s with state := { s.state with stack := s.state.stack.tail } }

def Clash (party : C → P) (c : C) (stack : List C) : Prop := ∃ c' ∈ stack, party c' = party c

/-- What is started, and whether something is started inside a callback of the
    computation itself for the same party. -/
inductive Key (C : Type) where
  | start (c : C)
  | nested

def stacked (party : C → P) : Reading (Standing σ C) (List C) (C × List C) (Key C) where
  frame := Standing.stack
  allowed := fun outer entry => ∃ inner, entry.2 = inner ++ outer
  about := fun k outer entry =>
    match k with
    | .start c => entry.1 = c
    | .nested => ∃ inner, entry.2 = inner ++ outer ∧ Clash party entry.1 inner

def inside (party : C → P) (c : C) (o : Forecast (Key C)) : Forecast (Key C) where
  ok := o.ok
  keys := fun k =>
    match k with
    | .start x => x = c ∨ o.keys (.start x)
    | .nested => o.keys .nested ∨ ∃ x, o.keys (.start x) ∧ party c = party x

section Rules

variable {party : C → P} {smooth : Prop} {o : Forecast (Key C)}

theorem start_covered (c : C) (outer : List C) :
    Covers (stacked (σ := σ) party) (inside party c o) outer (c, outer) := by
  refine ⟨⟨[], rfl⟩, fun k about => ?_⟩
  cases k with
  | start x => exact Or.inl about.symm
  | nested =>
    obtain ⟨inner, same, c', open', -⟩ := about
    rw [List.self_eq_append_left.mp same] at open'
    simp at open'

theorem deeper_covered {c : C} {outer : List C} {entry : C × List C}
    (h : Covers (stacked (σ := σ) party) o (c :: outer) entry) :
    Covers (stacked (σ := σ) party) (inside party c o) outer entry := by
  obtain ⟨⟨inner, below⟩, keys⟩ := h
  have stack : entry.2 = (inner ++ [c]) ++ outer := by rw [below, List.append_cons]
  refine ⟨⟨inner ++ [c], stack⟩, fun k about => ?_⟩
  cases k with
  | start x => exact Or.inr (keys (.start x) about)
  | nested =>
    obtain ⟨between, same, c', open', shared⟩ := about
    rw [stack] at same
    rw [← List.append_cancel_right same] at open'
    rcases List.mem_append.mp open' with below' | here
    · exact Or.inl (keys .nested ⟨inner, below, c', below', shared⟩)
    · rw [List.mem_singleton.mp here] at shared
      exact Or.inr ⟨entry.1, keys (.start entry.1) rfl, shared⟩

theorem deeper_about {c : C} {outer : List C} {entry : C × List C}
    (h : (stacked (σ := σ) party).allowed (c :: outer) entry) (shared : party c = party entry.1) :
    (stacked (σ := σ) party).about .nested outer entry := by
  obtain ⟨inner, below⟩ := h
  exact ⟨inner ++ [c], by rw [below, List.append_cons], c, by simp, shared⟩

theorem nested_deeper {c : C} {outer : List C} {entry : C × List C}
    (h : (stacked (σ := σ) party).about .nested (c :: outer) entry) :
    (stacked (σ := σ) party).about .nested outer entry := by
  obtain ⟨inner, below, c', open', shared⟩ := h
  exact ⟨inner ++ [c], by rw [below, List.append_cons], c', List.mem_append_left _ open', shared⟩

theorem follows_inside {run : Traced σ C → Except E α × Traced σ C} (c : C)
    (callback : Follows (stacked party) smooth run o) :
    Follows (stacked party) smooth (bracket (start c) leave run) (inside party c o) := by
  intro s
  obtain ⟨new, within⟩ := callback (start c s)
  refine ⟨(c, s.state.stack) :: new, ?_, within.only, within.always, ?_, ?_, ?_⟩
  · exact congrArg List.tail within.frame
  · exact within.log.trans (by simp [start])
  · intro entry member
    rcases List.mem_cons.mp member with now | later
    · rw [now]
      exact start_covered c _
    · exact deeper_covered (within.covered entry later)
  · intro fair k key
    cases k with
    | start x =>
      rcases key with first | later
      · exact ⟨_, List.mem_cons_self, first.symm⟩
      · obtain ⟨entry, member, about⟩ := within.reached fair (.start x) later
        exact ⟨entry, List.mem_cons_of_mem _ member, about⟩
    | nested =>
      rcases key with below | ⟨x, started, shared⟩
      · obtain ⟨entry, member, about⟩ := within.reached fair .nested below
        exact ⟨entry, List.mem_cons_of_mem _ member, nested_deeper about⟩
      · obtain ⟨entry, member, about⟩ := within.reached fair (.start x) started
        obtain rfl : entry.1 = x := about
        exact ⟨entry, List.mem_cons_of_mem _ member, deeper_about (within.covered entry member).1 shared⟩

end Rules

end StartTraces
