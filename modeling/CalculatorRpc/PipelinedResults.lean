import CalculatorRpc.Session

/- A previousResult stands for the expression of the request that produced it.
   The results form a graph with sharing; reading one through its value server
   gives what the tree gives that the graph unfolds to. -/
namespace PipelinedResults
open CalculatorExpression CalculatorEvaluate CalculatorSession

variable {F V Num : Type}

mutual
def replaceResults (resultOf : V → Option (Expression F V Num)) :
    Expression F V Num → Expression F V Num
  | .literal v => .literal v
  | .previousResult none => .previousResult none
  | .previousResult (some v) => (resultOf v).getD (.previousResult (some v))
  | .parameter i => .parameter i
  | .call f ps => .call f (replaceAllResults resultOf ps)
  | .unknown w => .unknown w

def replaceAllResults (resultOf : V → Option (Expression F V Num)) :
    List (Expression F V Num) → List (Expression F V Num)
  | [] => []
  | p :: ps => replaceResults resultOf p :: replaceAllResults resultOf ps
end

/-- The expression of an evaluate request in which the results of the requests
    before it are replaced already. -/
def inlinedResult (reqs : List (Request Num)) :
    History Empty Num → Cap Empty → Option (CapExpression Empty Num)
  | [], _ => none
  | (k, _) :: earlier, v =>
    if .made k = v then
      match reqs[k]? with
      | some (.evaluate e) => some (replaceResults (inlinedResult reqs earlier) e)
      | _ => none
    else inlinedResult reqs earlier v

def inlineResults (reqs : List (Request Num)) (h : History Empty Num) (e : CapExpression Empty Num) :
    CapExpression Empty Num :=
  replaceResults (inlinedResult reqs h) e

theorem replaceAllResults_eq_map (resultOf : V → Option (Expression F V Num))
    (ps : List (Expression F V Num)) :
    replaceAllResults resultOf ps = ps.map (replaceResults resultOf) := by
  induction ps with
  | nil => rfl
  | cons p ps ih => rw [replaceAllResults, ih, List.map_cons]

theorem outcomes_map {A : Arithmetic Num} {h : History Empty Num} {context : Option (List Num)}
    {g : CapExpression Empty Num → CapExpression Empty Num} {ps : List (CapExpression Empty Num)}
    (each : ∀ p ∈ ps, outcome A h context (g p) = outcome A h context p) :
    outcomes A h context (ps.map g) = outcomes A h context ps := by
  induction ps with
  | nil => rfl
  | cons p ps ih =>
    rw [List.map_cons, outcomes, outcomes, each p List.mem_cons_self,
      ih (fun q hq => each q (List.mem_cons_of_mem p hq))]

theorem outcome_replaceResults {A : Arithmetic Num} {h : History Empty Num}
    {resultOf : Cap Empty → Option (CapExpression Empty Num)}
    (results : ∀ id x, resultOf (.made id) = some x → outcome A h none x = readMade h id)
    (e : CapExpression Empty Num) :
    outcome A h none (replaceResults resultOf e) = outcome A h none e := by
  induction e using Expression.induction with
  | literal v => rfl
  | previousResult v =>
    rcases v with _ | (id | c)
    · rfl
    · unfold replaceResults
      cases found : resultOf (.made id) with
      | none => rw [Option.getD_none]
      | some x => rw [Option.getD_some, results id x found, outcome_result]
    · exact c.elim
  | parameter i => rfl
  | call f ps ih =>
    unfold replaceResults
    rw [replaceAllResults_eq_map]
    rcases f with _ | (id | c)
    · rfl
    · rw [outcome_call, outcome_call, outcomes_map ih]
    · exact c.elim
  | unknown w => rfl

theorem values_replaceResults {resultOf : V → Option (Expression F V Num)} {v : V}
    (e : Expression F V Num) (member : v ∈ (replaceResults resultOf e).values) :
    (v ∈ e.values ∧ resultOf v = none) ∨
      ∃ w ∈ e.values, ∃ x, resultOf w = some x ∧ v ∈ x.values := by
  induction e with
  | literal n => simp [replaceResults, Expression.values] at member
  | previousResult w =>
    cases w with
    | none => simp [replaceResults, Expression.values] at member
    | some w =>
      unfold replaceResults at member
      cases found : resultOf w with
      | none =>
        rw [found, Option.getD_none] at member
        have same : v = w := by simpa [Expression.values] using member
        subst v
        exact Or.inl ⟨member, found⟩
      | some x =>
        rw [found, Option.getD_some] at member
        exact Or.inr ⟨w, by simp [Expression.values], x, found, member⟩
  | parameter i => simp [replaceResults, Expression.values] at member
  | call f ps ih =>
    unfold replaceResults at member
    rw [replaceAllResults_eq_map, values_call] at member
    obtain ⟨q, inside, member⟩ := member
    obtain ⟨p, hp, rfl⟩ := List.mem_map.mp inside
    rcases ih p hp member with ⟨kept, unknown⟩ | ⟨w, used, x, found, member⟩
    · exact Or.inl ⟨values_call.mpr ⟨p, hp, kept⟩, unknown⟩
    · exact Or.inr ⟨w, values_call.mpr ⟨p, hp, used⟩, x, found, member⟩
  | unknown w => simp [replaceResults, Expression.values] at member

theorem functions_replaceResults {resultOf : V → Option (Expression F V Num)} {f : F}
    (e : Expression F V Num) (member : f ∈ (replaceResults resultOf e).functions) :
    f ∈ e.functions ∨ ∃ w ∈ e.values, ∃ x, resultOf w = some x ∧ f ∈ x.functions := by
  induction e with
  | literal n => exact Or.inl member
  | previousResult w =>
    cases w with
    | none => exact Or.inl member
    | some w =>
      unfold replaceResults at member
      cases found : resultOf w with
      | none =>
        rw [found, Option.getD_none] at member
        exact Or.inl member
      | some x =>
        rw [found, Option.getD_some] at member
        exact Or.inr ⟨w, by simp [Expression.values], x, found, member⟩
  | parameter i => exact Or.inl member
  | call g ps ih =>
    unfold replaceResults at member
    rw [replaceAllResults_eq_map, functions_call] at member
    rcases member with root | ⟨q, inside, member⟩
    · exact Or.inl (functions_call.mpr (Or.inl root))
    · obtain ⟨p, hp, rfl⟩ := List.mem_map.mp inside
      rcases ih p hp member with kept | ⟨w, used, x, found, member⟩
      · exact Or.inl (functions_call.mpr (Or.inr ⟨p, hp, kept⟩))
      · exact Or.inr ⟨w, values_call.mpr ⟨p, hp, used⟩, x, found, member⟩
  | unknown w => exact Or.inl member

section Sessions

variable {A : Arithmetic Num} {reqs : List (Request Num)} {h : History Empty Num}

theorem names_replaceResults {resultOf : Cap Empty → Option (CapExpression Empty Num)}
    {e : CapExpression Empty Num} (created : ∀ id ∈ names e, id ∈ ids h)
    (results : ∀ v x, resultOf v = some x → ∀ id ∈ names x, id ∈ ids h) :
    ∀ id ∈ names (replaceResults resultOf e), id ∈ ids h := by
  intro id member
  rcases names_mem.mp member with function | value
  · rcases functions_replaceResults e function with kept | ⟨w, -, x, found, inside⟩
    · exact created id (names_function kept)
    · exact results w x found id (names_function inside)
  · rcases values_replaceResults e value with ⟨kept, -⟩ | ⟨w, -, x, found, inside⟩
    · exact created id (names_value kept)
    · exact results w x found id (names_value inside)

theorem inlinedResult_names (session : Served A reqs h) :
    ∀ v x, inlinedResult reqs h v = some x → ∀ id ∈ names x, id ∈ ids h := by
  induction session with
  | start => intro v x found; simp [inlinedResult] at found
  | @serve h k r session request fresh created ih =>
    intro v x found id member
    apply List.mem_cons_of_mem
    simp only [inlinedResult, request] at found
    split at found
    · cases r with
      | evaluate e =>
        obtain rfl := Option.some.inj found
        exact names_replaceResults created ih id member
      | _ => simp at found
    · exact ih v x found id member

theorem readMade_evaluated (h : History Empty Num) (k : Nat) (r : Except Error Num) :
    readMade ((k, evaluated r) :: h) k = r := by
  cases r <;> simp [readMade, objectOf, evaluated, ValueServer.read]

/-- Whatever is requested later, a value reads as its expression evaluates. -/
theorem read_is_outcome (session : Served A reqs h) {id : Nat} {e : CapExpression Empty Num}
    (served : id ∈ ids h) (evaluate : reqs[id]? = some (.evaluate e)) :
    readMade h id = outcome A h none e := by
  have object := served_object session served evaluate
  rw [serve] at object
  unfold readMade
  rw [object]
  cases outcome A h none e <;> rfl

theorem inlinedResult_outcome (session : Served A reqs h) :
    ∀ id x, inlinedResult reqs h (.made id) = some x → outcome A h none x = readMade h id := by
  induction session with
  | start => intro id x found; simp [inlinedResult] at found
  | @serve h k r session request fresh created ih =>
    intro id x found
    simp only [inlinedResult, request, Cap.made.injEq] at found
    by_cases same : k = id
    · subst k
      rw [if_pos rfl] at found
      cases r with
      | evaluate e =>
        obtain rfl := Option.some.inj found
        have unnamed : id ∉ names (replaceResults (inlinedResult reqs h) e) := fun member =>
          fresh (names_replaceResults created (inlinedResult_names session) id member)
        rw [outcome_other unnamed, outcome_replaceResults ih]
        exact (readMade_evaluated h id (outcome A h none e)).symm
      | _ => simp at found
    · rw [if_neg same] at found
      have unnamed : k ∉ names x := fun member =>
        fresh (inlinedResult_names session _ x found k member)
      rw [outcome_other unnamed, readMade_other same]
      exact ih id x found

theorem inlinedResult_values (session : Served A reqs h) :
    ∀ v x, inlinedResult reqs h v = some x → ∀ id, .made id ∈ x.values →
      inlinedResult reqs h (.made id) = none := by
  induction session with
  | start => intro v x found; simp [inlinedResult] at found
  | @serve h k r session request fresh created ih =>
    intro v x found id member
    have later : id ∈ ids h → inlinedResult reqs h (.made id) = none →
        inlinedResult reqs ((k, serve A h r) :: h) (.made id) = none := by
      intro present unknown
      have other : k ≠ id := fun eq => fresh (eq ▸ present)
      simp only [inlinedResult, Cap.made.injEq, if_neg other, unknown]
    simp only [inlinedResult, request] at found
    split at found
    · cases r with
      | evaluate e =>
        obtain rfl := Option.some.inj found
        apply later
        · exact names_replaceResults created (inlinedResult_names session) id (names_value member)
        · rcases values_replaceResults e member with ⟨-, unknown⟩ | ⟨w, -, y, found, inside⟩
          · exact unknown
          · exact ih w y found id inside
      | _ => simp at found
    · apply later
      · exact inlinedResult_names session v x found id (names_value member)
      · exact ih v x found id member

theorem inlinedResult_evaluate {id : Nat} (served : id ∈ ids h) {e : CapExpression Empty Num}
    (evaluate : reqs[id]? = some (.evaluate e)) : inlinedResult reqs h (.made id) ≠ none := by
  induction h with
  | nil => simp [ids] at served
  | cons entry h ih =>
    obtain ⟨k, obj⟩ := entry
    simp only [inlinedResult, Cap.made.injEq]
    by_cases same : k = id
    · rw [if_pos same, same, evaluate]
      simp
    · rw [if_neg same]
      rcases List.mem_cons.mp served with first | later
      · exact absurd first.symm same
      · exact ih later

end Sessions

/-- Reading the value of an evaluate request is evaluating, in one request, its
    expression with the results of all evaluate requests written out. -/
theorem results_are_transparent {A : Arithmetic Num} {reqs : List (Request Num)}
    {h : History Empty Num} (session : Served A reqs h) {id : Nat} {e : CapExpression Empty Num}
    (served : id ∈ ids h) (evaluate : reqs[id]? = some (.evaluate e)) :
    (∀ k ∈ ids h, .made k ∈ (inlineResults reqs h e).values →
      ∀ e', reqs[k]? ≠ some (.evaluate e')) ∧
    (readMade h id).toOption = (outcome A h none (inlineResults reqs h e)).toOption := by
  constructor
  · intro k present member e' again
    apply inlinedResult_evaluate present again
    rcases values_replaceResults e member with ⟨-, unknown⟩ | ⟨w, -, x, found, inside⟩
    · exact unknown
    · exact inlinedResult_values session w x found k inside
  · rw [read_is_outcome session served evaluate, inlineResults,
      outcome_replaceResults (inlinedResult_outcome session)]

theorem increment_result_transparent :
    readMade incrementSession 3 = .ok 6 ∧
    (readMade incrementSession 3).toOption = (outcome natural incrementSession none
      (inlineResults incrementRequests incrementSession
        (.call (some (.made 1)) [.previousResult (some (.made 2))]))).toOption :=
  ⟨rfl, (results_are_transparent increment_served (by decide) rfl).2⟩

example : inlineResults incrementRequests incrementSession (.previousResult (some (.made 3))) =
    .call (some (.made 1)) [.literal 5] := by rfl

end PipelinedResults
