import CalculatorRpc.RequestSchedules
import Mathlib.Logic.Function.Iterate

/- Every evaluation ends. A call jumps to a body that can be larger than the
   expression it stands in, but the functions in that body were created before;
   the induction is on the order of creation, and on the expression inside it. -/
namespace SessionTermination
open CalculatorExpression CalculatorSession RequestMachine RequestSchedules EventRuns

variable {Num : Type} {A : Arithmetic Num} {reqs : List (Request Num)} {h : History Empty Num}

def Reaches (A : Arithmetic Num) (h : History Empty Num) (m m' : Machine Num) : Prop :=
  ∃ n, (RequestMachine.step A h)^[n] m = m'

theorem Reaches.refl (m : Machine Num) : Reaches A h m m := ⟨0, rfl⟩

theorem Reaches.trans {m m' m'' : Machine Num} (first : Reaches A h m m')
    (second : Reaches A h m' m'') : Reaches A h m m'' := by
  obtain ⟨a, left⟩ := first
  obtain ⟨b, right⟩ := second
  refine ⟨b + a, ?_⟩
  rw [Function.iterate_add_apply, left, right]

theorem Reaches.next {m m' : Machine Num} (rest : Reaches A h (RequestMachine.step A h m) m') :
    Reaches A h m m' := by
  obtain ⟨n, run⟩ := rest
  exact ⟨n + 1, run⟩

def Ends (A : Arithmetic Num) (h : History Empty Num) (c : Control Num) : Prop :=
  ∀ frames, Reaches A h ⟨c, frames⟩ ⟨.returning (controlOutcome A h c), frames⟩

theorem returning_ends (r : Except Error Num) : Ends A h (.returning r) :=
  fun frames => Reaches.refl ⟨.returning r, frames⟩

theorem frame_ends {function : Nat} {callParams : Option (List Num)}
    (call : ∀ args, Ends A h (.calling function args)) (rest : List (CapExpression Empty Num))
    (params : ∀ p ∈ rest, Ends A h (.evaluating callParams p)) (index : Nat) (pparams : List Num)
    (frames : List (Frame Num)) :
    Reaches A h (nextParam ⟨function, callParams, rest, index, pparams⟩ frames)
      ⟨.returning (frameOutcome A h ⟨function, callParams, rest, index, pparams⟩), frames⟩ := by
  induction rest generalizing index pparams with
  | nil => exact call pparams frames
  | cons p rest ih =>
    have head := params p List.mem_cons_self
      (⟨function, callParams, rest, index, pparams⟩ :: frames)
    have tail := ih (fun q hq => params q (List.mem_cons_of_mem p hq))
    refine Reaches.trans head (Reaches.next ?_)
    simp only [controlOutcome, frameOutcome, fillParams]
    cases outcome A h callParams p with
    | error e => exact Reaches.refl _
    | ok val =>
      simp only [RequestMachine.step]
      cases CalculatorEvaluate.listSet pparams index val with
      | error e => exact Reaches.refl _
      | ok pparams => exact tail (index + 1) pparams

theorem evaluating_ends (e : CapExpression Empty Num) (callParams : Option (List Num))
    (calls : ∀ id ∈ names e, ∀ args, Ends A h (.calling id args)) :
    Ends A h (.evaluating callParams e) := by
  induction e using Expression.induction with
  | literal v => exact fun frames => Reaches.next (Reaches.refl _)
  | previousResult v =>
    rcases v with _ | (id | c)
    · exact fun frames => Reaches.next (Reaches.refl _)
    · exact fun frames => Reaches.next (Reaches.next (Reaches.refl _))
    · exact c.elim
  | parameter i => exact fun frames => Reaches.next (Reaches.refl _)
  | call f ps ih =>
    rcases f with _ | (function | c)
    · exact fun frames => Reaches.next (Reaches.refl _)
    · intro frames
      have params : ∀ p ∈ ps, Ends A h (.evaluating callParams p) := by
        intro p hp
        apply ih p hp
        intro id named
        exact calls id (names_call.mpr (Or.inr ⟨p, hp, named⟩))
      apply Reaches.next
      rw [controlOutcome, outcome_frame]
      exact frame_ends (calls function (names_call.mpr (Or.inl rfl))) ps params 0 _ frames
    · exact c.elim
  | unknown w => exact fun frames => Reaches.next (Reaches.refl _)

theorem calling_ends_of_dispatch (session : Served A reqs h) {function : Nat} {args : List Num}
    (dispatched : Ends A h (dispatch A h function args)) : Ends A h (.calling function args) := by
  intro frames
  have rest := dispatched frames
  rw [dispatch_outcome session] at rest
  exact Reaches.next rest

/-- The induction on the order of creation: `h₀` runs through the stages of the session. -/
theorem created_ends (session : Served A reqs h) {h₀ : History Empty Num}
    (stage : Served A reqs h₀) (kept : ∀ id ∈ ids h₀, objectOf h id = objectOf h₀ id) :
    ∀ id ∈ ids h₀, ∀ args, Ends A h (.calling id args) := by
  induction stage with
  | start => intro id member; simp [ids] at member
  | @serve h₀ k r stage request fresh created ih =>
    have earlier : ∀ id ∈ ids h₀, ∀ args, Ends A h (.calling id args) := by
      apply ih
      intro id member
      rw [kept id (List.mem_cons_of_mem _ member), objectOf_fresh _ fresh member]
    intro id member args
    rcases List.mem_cons.mp member with now | before
    · subst now
      apply calling_ends_of_dispatch session
      have object := kept id List.mem_cons_self
      rw [objectOf, if_pos rfl] at object
      unfold dispatch
      rw [object]
      cases obj : serve A h₀ r with
      | defined n body =>
        rw [serve_defined obj] at created
        simp only
        split
        · exact returning_ends _
        · exact evaluating_ends body (some args) (fun j named => earlier j (created j named))
      | _ => exact returning_ends _
    · exact earlier id before args

theorem calling_ends (session : Served A reqs h) (id : Nat) (args : List Num) :
    Ends A h (.calling id args) := by
  by_cases present : id ∈ ids h
  · exact created_ends session session (fun _ _ => rfl) id present args
  · apply calling_ends_of_dispatch session
    unfold dispatch
    rw [objectOf_none present]
    exact returning_ends _

/-- In every state that the server can reach, every expression in every context
    and every call of every function ends, with the outcome that evaluation by
    recursion over the order of creation gives. -/
theorem evaluation_terminates {s : Server Num}
    (reached : Reachable (Server.step A reqs) Server.idle s) :
    (∀ callParams e, ∃ n, (RequestMachine.step A s.returned)^[n] ⟨.evaluating callParams e, []⟩ =
      ⟨.returning (outcome A s.returned callParams e), []⟩) ∧
    (∀ function args, ∃ n, (RequestMachine.step A s.returned)^[n] ⟨.calling function args, []⟩ =
      ⟨.returning (callOutcome A s.returned function args), []⟩) := by
  have session := (reachable_sound reached).served
  constructor
  · intro callParams e
    exact evaluating_ends e callParams (fun id _ => calling_ends session id) []
  · intro function args
    exact calling_ends session function args []

theorem increment_call_terminates :
    ∃ s, run (Server.step natural incrementRequests) Server.idle [.start 0, .start 1] = some s ∧
      ∃ n, (RequestMachine.step natural s.returned)^[n] ⟨.calling 1 [5], []⟩ =
        ⟨.returning (.ok 6), []⟩ := by
  refine ⟨_, rfl, ?_⟩
  have reached : Reachable (Server.step natural incrementRequests) Server.idle _ :=
    ⟨[.start 0, .start 1], rfl⟩
  exact (evaluation_terminates reached).2 1 [5]

/-- A function that calls itself would run forever; no session creates one. -/
example : (RequestMachine.step natural [(0, .defined 0 (.call (some (.made 0)) []))])^[2]
    ⟨.calling 0 [], []⟩ = ⟨.calling 0 [], []⟩ := by rfl

end SessionTermination
