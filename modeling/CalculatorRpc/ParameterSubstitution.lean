import CalculatorRpc.Evaluate

/- What `defFunction` promises: the body after substituting the parameters. The
   capabilities in the body may be anything at all, stateful or failing, so the
   two evaluations are compared with every request they make. -/
namespace ParameterSubstitution
open CalculatorExpression CalculatorEvaluate FallibleRuns

variable {σ S F V Num : Type}

structure World (σ F V Num : Type) where
  call : F → List Num → σ → Except Error Num × σ
  read : V → σ → Except Error Num × σ

inductive Request (F V Num : Type) where
  | call (f : F) (args : List Num)
  | read (v : V)
  deriving DecidableEq

/-- Every request that is dispatched is logged; reading messages never fails. -/
def logged (zero : Num) (w : World σ F V Num) :
    Runtime (σ × List (Request F V Num)) F V Num where
  zero := zero
  params := fun _ s => (.ok (), s)
  arguments := fun _ s => (.ok (), s)
  enter := fun _ s => s
  leave := fun _ s => s
  call := fun f args s =>
    ((w.call f args s.1).1, ((w.call f args s.1).2, s.2 ++ [.call f args]))
  read := fun v s => ((w.read v s.1).1, ((w.read v s.1).2, s.2 ++ [.read v]))

/-- Arguments in place of parameters, whatever the runtime does, as long as the
    argument list can be read. An index without an argument fails either way,
    with another error text. -/
theorem evaluate_substitute (rt : Runtime S F V Num)
    (readable : ∀ n s, rt.arguments n s = (.ok (), s)) (vs : List Num)
    (e : Expression F V Num) : ∀ s, Agrees (evaluate int64 rt (some vs) e s)
      (evaluate int64 rt none (e.substitute (vs.map .literal)) s) := by
  induction e with
  | literal v => intro s; exact agrees_refl _
  | previousResult v =>
    intro s
    cases v with
    | none => exact agrees_refl _
    | some v => exact agrees_refl _
  | parameter i =>
    intro s
    rw [evaluate_parameter, andThen, readable vs.length s, Expression.substitute, List.getElem?_map]
    cases vs[i.toNat]? with
    | none => exact ⟨rfl, rfl⟩
    | some v => exact ⟨rfl, rfl⟩
  | call f ps ih =>
    intro s
    unfold Expression.substitute
    rw [substituteAll_eq_map]
    cases f with
    | none => exact ⟨rfl, rfl⟩
    | some f =>
      rw [evaluate_call, evaluate_call, List.length_map]
      cases rt.params ps.length (rt.enter f s) with
      | mk r s' =>
        cases r with
        | error e => exact agrees_refl _
        | ok u =>
          have params := runAll_agrees ih s'
          cases run : runAll (evaluate int64 rt (some vs)) ps s' with
          | mk r' s'' =>
            cases r' with
            | error e =>
              obtain ⟨e', run'⟩ := agrees_error params run
              simp only [run, run']
              exact ⟨rfl, rfl⟩
            | ok args =>
              simp only [run, agrees_ok params run]
              exact agrees_refl _
  | unknown w => intro s; exact agrees_refl _

/-- A defined function called with as many arguments as it has parameters does
    what its body does with these arguments written into it: the same outcome and
    the same requests in the same order. With any other number it fails and
    makes no request. -/
theorem defined_call_substitutes (zero : Num) (w : World σ F V Num) (n : Int32)
    (body : Expression F V Num) (vs : List Num) (s : σ × List (Request F V Num)) :
    ((vs.length : Int) = n.toInt →
      Agrees (callDefined int64 (logged zero w) n body vs s)
        (evaluate int64 (logged zero w) none (body.substitute (vs.map .literal)) s)) ∧
    ((vs.length : Int) ≠ n.toInt →
      ∃ e, callDefined int64 (logged zero w) n body vs s = (.error e, s)) := by
  constructor
  · intro arity
    have call : callDefined int64 (logged zero w) n body vs s =
        evaluate int64 (logged zero w) (some vs) body s := by
      rw [callDefined_andThen]
      simp only [andThen, logged, arity, ne_eq, not_true_eq_false, ↓reduceIte]
    rw [call]
    exact evaluate_substitute (logged zero w) (fun _ _ => rfl) vs body s
  · intro arity
    refine ⟨.wrongArguments n.toInt vs.length, ?_⟩
    rw [callDefined_andThen]
    simp only [andThen, logged, ne_eq, arity, not_false_eq_true, ↓reduceIte]

example : callDefined int64 (logged 0 ⟨fun (_ : Unit) args n => (.ok args.sum, n + 1),
      fun (_ : Unit) n => (.ok n, n)⟩) 1
      (.call (some ()) [.call (some ()) [.parameter 0], .parameter 7]) [5] (0, []) =
    (.error (.missingParameter 7 1), (1, [.call () [5]])) := by rfl

end ParameterSubstitution
