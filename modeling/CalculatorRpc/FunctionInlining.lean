import CalculatorRpc.Session

/- Calls of defined functions replaced by the bodies, innermost definitions
   included. The arguments are open expressions of the caller, so substitution
   must not touch the caller's own parameters in them. -/
namespace FunctionInlining
open CalculatorExpression CalculatorEvaluate CalculatorSession FallibleRuns

variable {F V Num : Type}

mutual
def unfoldWith (bodyOf : F → Option (Expression F V Num)) : Expression F V Num → Expression F V Num
  | .literal v => .literal v
  | .previousResult v => .previousResult v
  | .parameter i => .parameter i
  | .call none ps => .call none (unfoldAllWith bodyOf ps)
  | .call (some f) ps =>
    match bodyOf f with
    | some body => body.substitute (unfoldAllWith bodyOf ps)
    | none => .call (some f) (unfoldAllWith bodyOf ps)
  | .unknown w => .unknown w

def unfoldAllWith (bodyOf : F → Option (Expression F V Num)) :
    List (Expression F V Num) → List (Expression F V Num)
  | [] => []
  | p :: ps => unfoldWith bodyOf p :: unfoldAllWith bodyOf ps
end

/-- The body of a defined function, in which the functions defined before it are
    unfolded already. -/
def unfoldedBody : History Empty Num → Cap Empty → Option (CapExpression Empty Num)
  | [], _ => none
  | (k, obj) :: earlier, f =>
    if .made k = f then
      match obj with
      | .defined _ body => some (unfoldWith (unfoldedBody earlier) body)
      | _ => none
    else unfoldedBody earlier f

def unfoldCalls (h : History Empty Num) (e : CapExpression Empty Num) : CapExpression Empty Num :=
  unfoldWith (unfoldedBody h) e

theorem unfoldAllWith_eq_map (bodyOf : F → Option (Expression F V Num))
    (ps : List (Expression F V Num)) : unfoldAllWith bodyOf ps = ps.map (unfoldWith bodyOf) := by
  induction ps with
  | nil => rfl
  | cons p ps ih => rw [unfoldAllWith, ih, List.map_cons]

section Values

variable {A : Arithmetic Num} {h : History Empty Num}

theorem outcomes_ok_cons {callParams : Option (List Num)} {p : CapExpression Empty Num}
    {ps : List (CapExpression Empty Num)} {ws : List Num}
    (run : outcomes A h callParams (p :: ps) = .ok ws) :
    ∃ w ws', outcome A h callParams p = .ok w ∧ outcomes A h callParams ps = .ok ws' ∧
      ws = w :: ws' := by
  unfold outcomes at run
  cases head : outcome A h callParams p with
  | error e => simp [head] at run
  | ok w =>
    cases tail : outcomes A h callParams ps with
    | error e => simp [head, tail] at run
    | ok ws' =>
      simp only [head, tail, Except.ok.injEq] at run
      exact ⟨w, ws', rfl, rfl, run.symm⟩

theorem outcomes_map_ok {h' : History Empty Num} {context context' : Option (List Num)}
    {g : CapExpression Empty Num → CapExpression Empty Num} {ps : List (CapExpression Empty Num)}
    (each : ∀ p ∈ ps, ∀ v, outcome A h context p = .ok v → outcome A h' context' (g p) = .ok v)
    {vs : List Num} (run : outcomes A h context ps = .ok vs) :
    outcomes A h' context' (ps.map g) = .ok vs := by
  induction ps generalizing vs with
  | nil => exact run
  | cons p ps ih =>
    obtain ⟨w, ws, head, tail, rfl⟩ := outcomes_ok_cons run
    have rest := ih (fun q hq => each q (List.mem_cons_of_mem p hq)) tail
    rw [List.map_cons, outcomes, each p List.mem_cons_self w head, rest]

theorem outcomes_getElem {callParams : Option (List Num)} {ps : List (CapExpression Empty Num)}
    {vs : List Num} (run : outcomes A h callParams ps = .ok vs) {i : Nat} {v : Num}
    (inside : vs[i]? = some v) : ∃ p, ps[i]? = some p ∧ outcome A h callParams p = .ok v := by
  induction ps generalizing vs i with
  | nil =>
    unfold outcomes at run
    rw [Except.ok.injEq] at run
    subst vs
    simp at inside
  | cons p ps ih =>
    obtain ⟨w, ws, head, tail, rfl⟩ := outcomes_ok_cons run
    cases i with
    | zero =>
      simp only [List.getElem?_cons_zero, Option.some.injEq] at inside
      subst w
      exact ⟨p, rfl, head⟩
    | succ i => exact ih tail inside

theorem outcome_call_ok {callParams : Option (List Num)} {id : Nat}
    {ps : List (CapExpression Empty Num)} {v : Num} :
    outcome A h callParams (.call (some (.made id)) ps) = .ok v ↔
      ∃ vs, outcomes A h callParams ps = .ok vs ∧ callOutcome A h id vs = .ok v := by
  rw [outcome_call]
  cases outcomes A h callParams ps <;> simp [Except.bind]

/-- The arguments keep their own context: the body's parameter i and the
    caller's parameter i are different things. -/
theorem outcome_substitute {context : Option (List Num)} {args : List (CapExpression Empty Num)}
    {vs : List Num} (arguments : outcomes A h context args = .ok vs) (body : CapExpression Empty Num) :
    ∀ v, outcome A h (some vs) body = .ok v → outcome A h context (body.substitute args) = .ok v := by
  induction body using Expression.induction with
  | literal w => intro v run; exact run
  | previousResult w =>
    intro v run
    rcases w with _ | (id | c)
    · simp at run
    · exact run
    · exact c.elim
  | parameter i =>
    intro v run
    rw [outcome_parameter] at run
    cases inside : vs[i.toNat]? with
    | none => simp [inside] at run
    | some w =>
      simp only [inside, Except.ok.injEq] at run
      subst w
      obtain ⟨p, found, value⟩ := outcomes_getElem arguments inside
      unfold Expression.substitute
      rw [found, Option.getD_some, value]
  | call f ps ih =>
    intro v run
    rcases f with _ | (id | c)
    · simp at run
    · obtain ⟨ws, params, call⟩ := outcome_call_ok.mp run
      unfold Expression.substitute
      rw [substituteAll_eq_map]
      exact outcome_call_ok.mpr ⟨ws, outcomes_map_ok ih params, call⟩
    · exact c.elim
  | unknown w => intro v run; simp at run

theorem outcome_unfoldWith {bodyOf : Cap Empty → Option (CapExpression Empty Num)}
    (bodies : ∀ id body, bodyOf (.made id) = some body → ∀ vs v, callOutcome A h id vs = .ok v →
      outcome A h (some vs) body = .ok v)
    (context : Option (List Num)) (e : CapExpression Empty Num) :
    ∀ v, outcome A h context e = .ok v → outcome A h context (unfoldWith bodyOf e) = .ok v := by
  induction e using Expression.induction with
  | literal w => intro v run; exact run
  | previousResult w => intro v run; exact run
  | parameter i => intro v run; exact run
  | call f ps ih =>
    intro v run
    rcases f with _ | (id | c)
    · simp at run
    · obtain ⟨vs, params, call⟩ := outcome_call_ok.mp run
      have unfolded := outcomes_map_ok ih params
      unfold unfoldWith
      rw [unfoldAllWith_eq_map]
      cases found : bodyOf (.made id) with
      | none => exact outcome_call_ok.mpr ⟨vs, unfolded, call⟩
      | some body => exact outcome_substitute unfolded body v (bodies id body found vs v call)
    · exact c.elim
  | unknown w => intro v run; exact run

theorem outcome_later {k : Nat} (fresh : k ∉ ids h) (obj : Object Empty Num)
    (context : Option (List Num)) (e : CapExpression Empty Num) :
    ∀ v, outcome A h context e = .ok v → outcome A ((k, obj) :: h) context e = .ok v := by
  induction e using Expression.induction with
  | literal w => intro v run; exact run
  | previousResult w =>
    intro v run
    rcases w with _ | (id | c)
    · simp at run
    · have present : id ∈ ids h := by
        by_contra absent
        simp [readMade, objectOf_none absent] at run
      have other : k ≠ id := fun eq => fresh (eq ▸ present)
      rw [outcome_result] at run ⊢
      rw [readMade_other other, run]
    · exact c.elim
  | parameter i => intro v run; exact run
  | call f ps ih =>
    intro v run
    rcases f with _ | (id | c)
    · simp at run
    · obtain ⟨vs, params, call⟩ := outcome_call_ok.mp run
      have present : id ∈ ids h := by
        by_contra absent
        rw [callOutcome_absent absent] at call
        simp at call
      have other : k ≠ id := fun eq => fresh (eq ▸ present)
      have params' := outcomes_map_ok ih params
      rw [List.map_id'] at params'
      refine outcome_call_ok.mpr ⟨vs, params', ?_⟩
      rw [callOutcome_other A h other, call]
    · exact c.elim
  | unknown w => intro v run; simp at run

end Values

theorem unfoldedBody_outcome {A : Arithmetic Num} {reqs : List (Request Num)}
    {h : History Empty Num} (session : Served A reqs h) :
    ∀ id body, unfoldedBody h (.made id) = some body → ∀ vs v, callOutcome A h id vs = .ok v →
      outcome A h (some vs) body = .ok v := by
  induction session with
  | start => intro id body found; simp [unfoldedBody] at found
  | @serve h k r session request fresh created ih =>
    intro id body found vs v run
    simp only [unfoldedBody, Cap.made.injEq] at found
    by_cases same : k = id
    · subst k
      rw [if_pos rfl] at found
      cases obj : serve A h r with
      | defined n original =>
        simp only [obj, Option.some.injEq] at found
        subst body
        rw [obj, callOutcome_defined] at run
        split at run
        · simp at run
        · exact outcome_later fresh _ _ _ v (outcome_unfoldWith ih (some vs) original v run)
      | _ => simp [obj] at found
    · rw [if_neg same] at found
      rw [callOutcome_other A h same] at run
      exact outcome_later fresh _ _ _ v (ih id body found vs v run)

theorem functions_substitute {args : List (Expression F V Num)} {f : F} (body : Expression F V Num)
    (member : f ∈ (body.substitute args).functions) :
    f ∈ body.functions ∨ ∃ p ∈ args, f ∈ p.functions := by
  induction body with
  | literal v => exact Or.inl member
  | previousResult v => exact Or.inl member
  | parameter i =>
    unfold Expression.substitute at member
    cases found : args[i.toNat]? with
    | none => simp [found, Expression.functions] at member
    | some p =>
      rw [found, Option.getD_some] at member
      exact Or.inr ⟨p, List.mem_of_getElem? found, member⟩
  | call g ps ih =>
    unfold Expression.substitute at member
    rw [substituteAll_eq_map, functions_call] at member
    rcases member with root | ⟨q, inside, member⟩
    · exact Or.inl (functions_call.mpr (Or.inl root))
    · obtain ⟨p, hp, rfl⟩ := List.mem_map.mp inside
      rcases ih p hp member with body_member | arg_member
      · exact Or.inl (functions_call.mpr (Or.inr ⟨p, hp, body_member⟩))
      · exact Or.inr arg_member
  | unknown w => exact Or.inl member

/-- A function that is called after unfolding was called before and has no body,
    or is called in one of the bodies. -/
theorem functions_unfoldWith {bodyOf : F → Option (Expression F V Num)} {f : F}
    (e : Expression F V Num) (member : f ∈ (unfoldWith bodyOf e).functions) :
    (f ∈ e.functions ∧ bodyOf f = none) ∨
      ∃ g ∈ e.functions, ∃ body, bodyOf g = some body ∧ f ∈ body.functions := by
  induction e with
  | literal v => simp [unfoldWith, Expression.functions] at member
  | previousResult v => simp [unfoldWith, Expression.functions] at member
  | parameter i => simp [unfoldWith, Expression.functions] at member
  | unknown w => simp [unfoldWith, Expression.functions] at member
  | call g ps ih =>
    have params : (∃ q ∈ ps.map (unfoldWith bodyOf), f ∈ q.functions) →
        (f ∈ (Expression.call g ps).functions ∧ bodyOf f = none) ∨
        ∃ g' ∈ (Expression.call g ps).functions, ∃ body, bodyOf g' = some body ∧ f ∈ body.functions := by
      rintro ⟨q, inside, member⟩
      obtain ⟨p, hp, rfl⟩ := List.mem_map.mp inside
      rcases ih p hp member with ⟨kept, undefined⟩ | ⟨g', called, body, found, member⟩
      · exact Or.inl ⟨functions_call.mpr (Or.inr ⟨p, hp, kept⟩), undefined⟩
      · exact Or.inr ⟨g', functions_call.mpr (Or.inr ⟨p, hp, called⟩), body, found, member⟩
    cases g with
    | none =>
      unfold unfoldWith at member
      rw [unfoldAllWith_eq_map, functions_call] at member
      rcases member with root | inside
      · simp at root
      · exact params inside
    | some g =>
      unfold unfoldWith at member
      rw [unfoldAllWith_eq_map] at member
      cases found : bodyOf g with
      | none =>
        rw [found, functions_call] at member
        rcases member with root | inside
        · obtain rfl := Option.some.inj root
          exact Or.inl ⟨functions_call.mpr (Or.inl rfl), found⟩
        · exact params inside
      | some body =>
        rw [found] at member
        rcases functions_substitute body member with body_member | inside
        · exact Or.inr ⟨g, functions_call.mpr (Or.inl rfl), body, found, body_member⟩
        · exact params inside

theorem unfoldedBody_functions {A : Arithmetic Num} {reqs : List (Request Num)}
    {h : History Empty Num} (session : Served A reqs h) :
    ∀ g body, unfoldedBody h g = some body → ∀ id, .made id ∈ body.functions →
      id ∈ ids h ∧ unfoldedBody h (.made id) = none := by
  induction session with
  | start => intro g body found; simp [unfoldedBody] at found
  | @serve h k r session request fresh created ih =>
    have later : ∀ id, id ∈ ids h ∧ unfoldedBody h (.made id) = none →
        id ∈ ids ((k, serve A h r) :: h) ∧
          unfoldedBody ((k, serve A h r) :: h) (.made id) = none := by
      rintro id ⟨present, undefined⟩
      have other : k ≠ id := fun eq => fresh (eq ▸ present)
      refine ⟨List.mem_cons_of_mem _ present, ?_⟩
      simp only [unfoldedBody, Cap.made.injEq, if_neg other, undefined]
    intro g body found id member
    apply later
    simp only [unfoldedBody] at found
    split at found
    · cases obj : serve A h r with
      | defined n original =>
        simp only [obj, Option.some.injEq] at found
        subst body
        rw [serve_defined obj] at created
        rcases functions_unfoldWith original member with ⟨kept, undefined⟩ | ⟨g', -, body, found, inside⟩
        · exact ⟨created id (names_function kept), undefined⟩
        · exact ih g' body found id inside
      | _ => simp [obj] at found
    · exact ih g body found id member

theorem unfoldedBody_defined {h : History Empty Num} {id : Nat} {n : Int32}
    {body : CapExpression Empty Num} (found : objectOf h id = some (.defined n body)) :
    unfoldedBody h (.made id) ≠ none := by
  induction h with
  | nil => simp [objectOf] at found
  | cons entry h ih =>
    obtain ⟨k, obj⟩ := entry
    unfold objectOf at found
    simp only [unfoldedBody, Cap.made.injEq]
    by_cases same : k = id
    · rw [if_pos same] at found ⊢
      rw [Option.some.inj found]
      simp
    · rw [if_neg same] at found ⊢
      exact ih found

/-- Unfolding leaves no call of a defined function, and the value stays the same
    wherever there is one, at top level and inside a body called with any arguments. -/
theorem unfolding_keeps_value {A : Arithmetic Num} {reqs : List (Request Num)}
    {h : History Empty Num} (session : Served A reqs h) (context : Option (List Num))
    (e : CapExpression Empty Num) :
    (∀ id, .made id ∈ (unfoldCalls h e).functions →
      ∀ n body, objectOf h id ≠ some (.defined n body)) ∧
    (∀ v, outcome A h context e = .ok v → outcome A h context (unfoldCalls h e) = .ok v) := by
  constructor
  · intro id member n body found
    apply unfoldedBody_defined found
    rcases functions_unfoldWith e member with ⟨-, undefined⟩ | ⟨g, -, body, found, inside⟩
    · exact undefined
    · exact (unfoldedBody_functions session g body found id inside).2
  · exact outcome_unfoldWith (unfoldedBody_outcome session) context e

theorem increment_unfolding_keeps_value :
    outcome natural incrementSession (some [3]) (.call (some (.made 1)) [.parameter 0]) = .ok 4 ∧
    outcome natural incrementSession (some [3])
      (unfoldCalls incrementSession (.call (some (.made 1)) [.parameter 0])) = .ok 4 :=
  ⟨rfl, (unfolding_keeps_value increment_served (some [3]) _).2 4 rfl⟩

/-- The caller's parameter 1 ends up where the body has its parameter 0. -/
example : unfoldCalls incrementSession (.call (some (.made 1)) [.parameter 1]) =
    .call (some (.made 0)) [.parameter 1, .literal 1] := by rfl

end FunctionInlining
