import CalculatorRpc.SessionTermination
import Mathlib.Algebra.Order.BigOperators.Group.Finset
import Mathlib.Order.Lattice.Nat

/- Every schedule of the server ends. A running request has some number of steps left,
   which its own steps lower and which the return of another request leaves alone;
   and only so many requests are left to start. -/
namespace ScheduleTermination
open CalculatorExpression CalculatorEvaluate CalculatorSession RequestMachine RequestSchedules
open SessionTermination EventRuns

variable {Num : Type} {A : Arithmetic Num} {reqs : List (Request Num)} {h : History Empty Num}

/-- A request only uses the results of requests that were sent before it. -/
def Ordered (reqs : List (Request Num)) : Prop :=
  ∀ (id : Nat) r, reqs[id]? = some r → ∀ k ∈ r.names, k < id

theorem ordered_send {reqs : List (Request Num)} {r : Request Num} (ordered : Ordered reqs)
    (earlier : ∀ k ∈ r.names, k < reqs.length) : Ordered (reqs ++ [r]) := by
  intro id r' found k named
  by_cases old : id < reqs.length
  · rw [List.getElem?_append_left old] at found
    exact ordered id r' found k named
  · have last : id = reqs.length := by
      have inside := (List.getElem?_eq_some_iff.mp found).1
      rw [List.length_append, List.length_singleton] at inside
      omega
    subst id
    rw [List.getElem?_concat_length, Option.some.injEq] at found
    rw [← found] at named
    exact earlier k named

theorem quiet_all_returned {A : Arithmetic Num} {reqs : List (Request Num)} {s : Server Num}
    (ordered : Ordered reqs) (quiet : Quiet A reqs s) :
    ∀ id < reqs.length, id ∈ ids s.returned := by
  intro id
  induction id using Nat.strong_induction_on with
  | _ id ih =>
    intro inside
    have request : reqs[id]? = some reqs[id] := List.getElem?_eq_getElem inside
    apply quiet_returned quiet request
    intro k named
    have before := ordered id _ request k named
    exact ih k before (before.trans inside)

def Done (m : Machine Num) : Prop := ∃ r, m = ⟨.returning r, []⟩

theorem control_ends (session : Served A reqs h) (c : Control Num) : Ends A h c := by
  cases c with
  | evaluating callParams e =>
    exact evaluating_ends e callParams (fun id _ args => calling_ends session id args)
  | reading value => exact fun frames => Reaches.next (Reaches.refl _)
  | calling function args => exact calling_ends session function args
  | returning r => exact returning_ends r

/-- A value goes up through the suspended callbacks, one after the other. -/
theorem returning_done (session : Served A reqs h) (frames : List (Frame Num)) :
    ∀ r, ∃ m, Reaches A h ⟨.returning r, frames⟩ m ∧ Done m := by
  induction frames with
  | nil => exact fun r => ⟨_, Reaches.refl _, r, rfl⟩
  | cons f frames ih =>
    intro r
    have above : ∃ r', Reaches A h ⟨.returning r, f :: frames⟩ ⟨.returning r', frames⟩ := by
      cases r with
      | error e => exact ⟨.error e, Reaches.next (Reaches.refl _)⟩
      | ok val =>
        cases fill : listSet f.pparams f.index val with
        | error e =>
          refine ⟨.error e, Reaches.next ?_⟩
          simp only [RequestMachine.step, fill]
          exact Reaches.refl _
        | ok pparams =>
          refine ⟨frameOutcome A h { f with index := f.index + 1, pparams := pparams }, Reaches.next ?_⟩
          simp only [RequestMachine.step, fill]
          exact frame_ends (calling_ends session f.function) f.rest
            (fun p _ => control_ends session (.evaluating f.callParams p)) (f.index + 1) pparams frames
    obtain ⟨r', up⟩ := above
    obtain ⟨m, rest, done⟩ := ih r'
    exact ⟨m, up.trans rest, done⟩

theorem machine_ends (session : Served A reqs h) (m : Machine Num) :
    ∃ n, Done ((RequestMachine.step A h)^[n] m) := by
  obtain ⟨m', rest, done⟩ := returning_done session m.frames (controlOutcome A h m.control)
  obtain ⟨n, ran⟩ := (control_ends session m.control m.frames).trans rest
  exact ⟨n, by rw [ran]; exact done⟩

noncomputable def remaining (A : Arithmetic Num) (h : History Empty Num) (m : Machine Num) : Nat :=
  sInf {n | Done ((RequestMachine.step A h)^[n] m)}

theorem remaining_step (session : Served A reqs h) {m : Machine Num} (unfinished : ¬ Done m) :
    remaining A h (RequestMachine.step A h m) < remaining A h m := by
  have reached : Done ((RequestMachine.step A h)^[remaining A h m] m) :=
    Nat.sInf_mem (machine_ends session m)
  cases left : remaining A h m with
  | zero =>
    rw [left] at reached
    exact absurd reached unfinished
  | succ n =>
    rw [left, Function.iterate_succ_apply] at reached
    have bound : remaining A h (RequestMachine.step A h m) ≤ n := Nat.sInf_le reached
    omega

section Growth

variable {k : Nat} {obj : Object Empty Num} (fresh : k ∉ ids h)
include fresh

theorem dispatch_grows {function : Nat} (created : function ∈ ids h) (args : List Num) :
    dispatch A ((k, obj) :: h) function args = dispatch A h function args := by
  rw [dispatch, dispatch, objectOf_fresh obj fresh created]

/-- Another request returns meanwhile, and the step stays the same. -/
theorem step_grows {m : Machine Num} (created : ∀ id ∈ m.names, id ∈ ids h) :
    RequestMachine.step A ((k, obj) :: h) m = RequestMachine.step A h m := by
  obtain ⟨control, frames⟩ := m
  cases control with
  | evaluating callParams e =>
    cases e with
    | literal v => rfl
    | previousResult v =>
      rcases v with _ | (id | c)
      · rfl
      · rfl
      · exact c.elim
    | parameter i => cases callParams <;> rfl
    | call f ps =>
      rcases f with _ | (id | c)
      · rfl
      · rfl
      · exact c.elim
    | unknown w => rfl
  | reading value =>
    have present : value ∈ ids h := created value (List.mem_append_left _ List.mem_cons_self)
    have other : k ≠ value := fun eq => fresh (eq ▸ present)
    simp only [RequestMachine.step, readMade_other other]
  | calling function args =>
    have present : function ∈ ids h := created function (List.mem_append_left _ List.mem_cons_self)
    simp only [RequestMachine.step, dispatch_grows fresh present]
  | returning r =>
    cases frames with
    | nil => cases r <;> rfl
    | cons f frames => cases r <;> rfl

theorem iterate_grows (session : Served A reqs h) (n : Nat) {m : Machine Num}
    (created : ∀ id ∈ m.names, id ∈ ids h) :
    (RequestMachine.step A ((k, obj) :: h))^[n] m = (RequestMachine.step A h)^[n] m := by
  induction n generalizing m with
  | zero => rfl
  | succ n ih =>
    rw [Function.iterate_succ_apply, Function.iterate_succ_apply, step_grows fresh created]
    exact ih (step_names session created)

theorem remaining_grows (session : Served A reqs h) {m : Machine Num}
    (created : ∀ id ∈ m.names, id ∈ ids h) :
    remaining A ((k, obj) :: h) m = remaining A h m := by
  simp only [remaining, iterate_grows fresh session _ created]

end Growth

def unstarted (reqs : List (Request Num)) (s : Server Num) : Finset Nat :=
  (Finset.range reqs.length).filter fun id => id ∉ ids s.returned ∧ (s.running id).isNone

noncomputable def left (A : Arithmetic Num) (s : Server Num) (id : Nat) : Nat :=
  (s.running id).elim 0 fun m => remaining A s.returned m + 1

noncomputable def work (A : Arithmetic Num) (reqs : List (Request Num)) (s : Server Num) : Nat :=
  ∑ id ∈ Finset.range reqs.length, left A s id

noncomputable def serverMeasure (A : Arithmetic Num) (reqs : List (Request Num)) (s : Server Num) :
    Nat × Nat :=
  ((unstarted reqs s).card, work A reqs s)

section Measure

variable {s s' : Server Num} {id : Nat}

theorem mem_unstarted : id ∈ unstarted reqs s ↔
    id < reqs.length ∧ id ∉ ids s.returned ∧ (s.running id).isNone := by
  rw [unstarted, Finset.mem_filter, Finset.mem_range]

theorem unstarted_lower (here : id ∈ unstarted reqs s) (gone : id ∉ unstarted reqs s')
    (fewer : ∀ j, j ∈ unstarted reqs s' → j ∈ unstarted reqs s) :
    Prod.Lex (· < ·) (· < ·) (serverMeasure A reqs s') (serverMeasure A reqs s) := by
  apply Prod.Lex.left
  exact Finset.card_lt_card ⟨fewer, fun all => gone (all here)⟩

theorem work_lower (same : unstarted reqs s' = unstarted reqs s) (inside : id < reqs.length)
    (lower : left A s' id < left A s id) (others : ∀ j, j ≠ id → left A s' j = left A s j) :
    Prod.Lex (· < ·) (· < ·) (serverMeasure A reqs s') (serverMeasure A reqs s) := by
  rw [serverMeasure, serverMeasure, same]
  apply Prod.Lex.right
  apply Finset.sum_lt_sum
  · intro j _
    by_cases eq : j = id
    · rw [eq]
      exact Nat.le_of_lt lower
    · exact Nat.le_of_eq (others j eq)
  · exact ⟨id, Finset.mem_range.mpr inside, lower⟩

theorem start_lower {r : Request Num} (request : reqs[id]? = some r) (fresh : id ∉ ids s.returned)
    (absent : s.running id = none)
    (begun : (∃ obj, enter r = .inl obj ∧ s' = { s with returned := (id, obj) :: s.returned }) ∨
      ∃ m, enter r = .inr m ∧ s' = { s with running := Function.update s.running id (some m) }) :
    Prod.Lex (· < ·) (· < ·) (serverMeasure A reqs s') (serverMeasure A reqs s) := by
  have inside := (List.getElem?_eq_some_iff.mp request).1
  have here : id ∈ unstarted reqs s := mem_unstarted.mpr ⟨inside, fresh, by rw [absent]; rfl⟩
  rcases begun with ⟨obj, -, rfl⟩ | ⟨m, -, rfl⟩
  · apply unstarted_lower here
    · intro still
      exact (mem_unstarted.mp still).2.1 List.mem_cons_self
    · intro j member
      obtain ⟨bound, new, idle⟩ := mem_unstarted.mp member
      exact mem_unstarted.mpr ⟨bound, fun old => new (List.mem_cons_of_mem _ old), idle⟩
  · apply unstarted_lower here
    · intro still
      have idle := (mem_unstarted.mp still).2.2
      simp at idle
    · intro j member
      obtain ⟨bound, new, idle⟩ := mem_unstarted.mp member
      refine mem_unstarted.mpr ⟨bound, new, ?_⟩
      by_cases eq : j = id
      · rw [eq, absent]
        rfl
      · simpa only [Function.update_of_ne eq] using idle

theorem return_lower {r : Request Num} {m : Machine Num} {obj : Object Empty Num}
    (sound : Sound A reqs s) (request : reqs[id]? = some r) (running : s.running id = some m) :
    Prod.Lex (· < ·) (· < ·)
      (serverMeasure A reqs ⟨(id, obj) :: s.returned, Function.update s.running id none⟩)
      (serverMeasure A reqs s) := by
  have inside := (List.getElem?_eq_some_iff.mp request).1
  have fresh := (sound.running id m running).fresh
  apply work_lower _ inside
  · simp only [left, Function.update_self, running, Option.elim_none, Option.elim_some]
    omega
  · intro j other
    simp only [left, Function.update_of_ne other]
    cases found : s.running j with
    | none => rfl
    | some m' =>
      rw [Option.elim_some, Option.elim_some,
        remaining_grows fresh sound.served (sound.running j m' found).created]
  · ext j
    rw [mem_unstarted, mem_unstarted]
    by_cases eq : j = id
    · subst j
      simp [running, ids]
    · have members : j ∈ ids ((id, obj) :: s.returned) ↔ j ∈ ids s.returned := by
        simp [ids, eq]
      simp only [members, Function.update_of_ne eq]

theorem advance_lower {r : Request Num} {m : Machine Num} (sound : Sound A reqs s)
    (request : reqs[id]? = some r) (running : s.running id = some m) (unfinished : ¬ Done m) :
    Prod.Lex (· < ·) (· < ·)
      (serverMeasure A reqs { s with
        running := Function.update s.running id (some (RequestMachine.step A s.returned m)) })
      (serverMeasure A reqs s) := by
  have inside := (List.getElem?_eq_some_iff.mp request).1
  have lower := remaining_step sound.served unfinished
  apply work_lower _ inside
  · simp only [left, Function.update_self, running, Option.elim_some]
    omega
  · intro j other
    simp only [left, Function.update_of_ne other]
  · ext j
    rw [mem_unstarted, mem_unstarted]
    by_cases eq : j = id
    · subst j
      simp [running]
    · simp only [Function.update_of_ne eq]

theorem step_lower {e : Event} (sound : Sound A reqs s) (next : Server.step A reqs s e = some s') :
    Prod.Lex (· < ·) (· < ·) (serverMeasure A reqs s') (serverMeasure A reqs s) := by
  rcases Server.step_cases next with ⟨id, r, request, fresh, absent, -, begun⟩ |
    ⟨id, r, m, request, running, ⟨result, -, rfl⟩ | ⟨unfinished, rfl⟩⟩
  · exact start_lower request fresh absent begun
  · exact return_lower sound request running
  · exact advance_lower sound request running fun ⟨result, done⟩ => unfinished result done

end Measure

theorem measure_wellFounded :
    WellFounded (Prod.Lex (· < ·) (· < ·) : Nat × Nat → Nat × Nat → Prop) :=
  IsWellFounded.wf

/-- No schedule goes on for ever, however the requests are interleaved. Wherever one has
    got to, it can be continued until nothing is left to do, and then every request has
    the answer that it is due. -/
theorem schedules_end (A : Arithmetic Num) {reqs : List (Request Num)} (ordered : Ordered reqs) :
    (¬ ∃ f : Nat → Server Num, f 0 = Server.idle ∧
      ∀ n, ∃ e, Server.step A reqs (f n) e = some (f (n + 1))) ∧
    (∀ s, Reachable (Server.step A reqs) Server.idle s →
      ∃ s', Reachable (Server.step A reqs) s s' ∧ Quiet A reqs s') ∧
    ∀ s, Reachable (Server.step A reqs) Server.idle s → Quiet A reqs s →
      ∀ id r, reqs[id]? = some r → objectOf s.returned id = some (serve A s.returned r) := by
  have closed : ∀ s e s', Sound A reqs s → Server.step A reqs s e = some s' →
      Sound A reqs s' ∧ Prod.Lex (· < ·) (· < ·) (serverMeasure A reqs s') (serverMeasure A reqs s) :=
    fun _ _ _ sound next => ⟨step_sound sound next, step_lower sound next⟩
  refine ⟨?_, ?_, ?_⟩
  · exact no_infinite_run measure_wellFounded (Sound A reqs) (serverMeasure A reqs) closed idle_sound
  · intro s reached
    exact comes_to_rest measure_wellFounded (Sound A reqs) (serverMeasure A reqs) closed s
      (reachable_sound reached)
  · intro s reached quiet id r request
    have inside := (List.getElem?_eq_some_iff.mp request).1
    have returned := quiet_all_returned ordered quiet id inside
    exact served_object (reachable_sound reached).served returned request

theorem twoSums_ordered : Ordered twoSums := by
  intro id r request
  match id, request with
  | 0, rfl => decide
  | 1, rfl => decide
  | 2, rfl => decide

theorem two_sums_end :
    ∃ s, Reachable (Server.step natural twoSums) Server.idle s ∧
      ∀ id < 3, (objectOf s.returned id).isSome := by
  obtain ⟨-, rest, answered⟩ := schedules_end natural twoSums_ordered
  obtain ⟨s, reached, quiet⟩ := rest Server.idle (reachable_start _ _)
  refine ⟨s, reached, fun id inside => ?_⟩
  have request : twoSums[id]? = some twoSums[id] := List.getElem?_eq_getElem inside
  rw [answered s reached quiet id _ request]
  rfl

end ScheduleTermination
