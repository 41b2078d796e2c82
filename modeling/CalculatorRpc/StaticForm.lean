import CalculatorRpc.Session

/- Which expressions evaluate at all. The condition is read off the tree and the
   definitions it reaches; no number takes part in it. -/
namespace StaticForm
open CalculatorExpression CalculatorEvaluate CalculatorSession FallibleRuns

variable {F V H Num : Type}

mutual
/-- `context` is the number of arguments of the function body, or `none` at top
    level; `accepts f m` says that `f` answers calls with `m` arguments. -/
def WellFormed (accepts : F → Nat → Prop) (readable : V → Prop) (context : Option Nat) :
    Expression F V Num → Prop
  | .literal _ => True
  | .previousResult none => False
  | .previousResult (some v) => readable v
  | .parameter i => ∃ m, context = some m ∧ i.toNat < m
  | .call none _ => False
  | .call (some f) ps => AllWellFormed accepts readable context ps ∧ accepts f ps.length
  | .unknown _ => False

def AllWellFormed (accepts : F → Nat → Prop) (readable : V → Prop) (context : Option Nat) :
    List (Expression F V Num) → Prop
  | [] => True
  | p :: ps => WellFormed accepts readable context p ∧ AllWellFormed accepts readable context ps
end

/-- Two arguments for an operator; for a defined function as many as its paramCount
    says, which a negative one never does, and a body that is well-formed with them. -/
def Accepts (readable : History H Num → Cap H → Prop) : History H Num → Cap H → Nat → Prop
  | _, .hosted _, _ => True
  | [], .made _, _ => False
  | (k, obj) :: earlier, .made id, m =>
    if k = id then
      match obj with
      | .operator _ => m = 2
      | .defined paramCount body => (m : Int) = paramCount.toInt ∧
          WellFormed (Accepts readable earlier) (readable earlier) (some m) body
      | _ => False
    else Accepts readable earlier (.made id) m

def NonNull (_ : History H Num) (_ : Cap H) : Prop := True

/-- A value capability that a read succeeds on, if its host answers. -/
def Readable (h : History H Num) : Cap H → Prop
  | .made id => ∃ server, objectOf h id = some (.value server)
  | .hosted _ => True

theorem allWellFormed_iff {accepts : F → Nat → Prop} {readable : V → Prop} {context : Option Nat}
    (ps : List (Expression F V Num)) :
    AllWellFormed accepts readable context ps ↔ ∀ p ∈ ps, WellFormed accepts readable context p := by
  induction ps with
  | nil => simp [AllWellFormed]
  | cons p ps ih => simp [AllWellFormed, ih]

theorem wellFormed_congr {accepts accepts' : F → Nat → Prop} {readable readable' : V → Prop}
    (context : Option Nat) (e : Expression F V Num)
    (calls : ∀ f ∈ e.functions, ∀ m, accepts f m ↔ accepts' f m)
    (reads : ∀ v ∈ e.values, readable v ↔ readable' v) :
    WellFormed accepts readable context e ↔ WellFormed accepts' readable' context e := by
  induction e with
  | literal v => simp [WellFormed]
  | previousResult v =>
    cases v with
    | none => simp [WellFormed]
    | some v => simpa [WellFormed] using reads v (by simp [Expression.values])
  | parameter i => simp [WellFormed]
  | call f ps ih =>
    cases f with
    | none => simp [WellFormed]
    | some f =>
      have params : AllWellFormed accepts readable context ps ↔
          AllWellFormed accepts' readable' context ps := by
        rw [allWellFormed_iff, allWellFormed_iff]
        refine forall₂_congr (fun p hp => ih p hp ?_ ?_)
        · intro g hg
          exact calls g (functions_call.mpr (Or.inr ⟨p, hp, hg⟩))
        · intro v hv
          exact reads v (values_call.mpr ⟨p, hp, hv⟩)
      simp only [WellFormed, params, calls f (by simp [Expression.functions])]
  | unknown w => simp [WellFormed]

theorem readMade_ok_iff (h : History H Num) (id : Nat) :
    (∃ v, readMade h id = .ok v) ↔ Readable h (.made id) := by
  simp only [readMade, Readable]
  cases objectOf h id with
  | none => simp
  | some obj => cases obj <;> simp [ValueServer.read]

section Outcomes

variable (A : Arithmetic Num) (h : History Empty Num)

theorem outcomes_ok_iff (callParams : Option (List Num)) (ps : List (CapExpression Empty Num)) :
    (∃ vs, outcomes A h callParams ps = .ok vs) ↔ ∀ p ∈ ps, ∃ v, outcome A h callParams p = .ok v := by
  induction ps with
  | nil => simp [outcomes]
  | cons p ps ih =>
    rw [List.forall_mem_cons, ← ih, outcomes]
    cases outcome A h callParams p with
    | error e => simp
    | ok v => cases outcomes A h callParams ps <;> simp

theorem outcomes_length {callParams : Option (List Num)} {ps : List (CapExpression Empty Num)}
    {vs : List Num} (run : outcomes A h callParams ps = .ok vs) : vs.length = ps.length := by
  have traversed := runAll_outcomes A h callParams none ps
  rw [run] at traversed
  exact runAll_length (congrArg Prod.fst traversed)

/-- Strict evaluation reaches every node, and nothing else can go wrong: if calls
    succeed exactly on accepted numbers of arguments, so does evaluation. -/
theorem outcome_ok_iff_of_calls {accepts : Cap Empty → Nat → Prop}
    (calls : ∀ id args, (∃ v, callOutcome A h id args = .ok v) ↔ accepts (.made id) args.length)
    (callParams : Option (List Num)) (e : CapExpression Empty Num) :
    (∃ v, outcome A h callParams e = .ok v) ↔
      WellFormed accepts (Readable h) (callParams.map List.length) e := by
  induction e using Expression.induction with
  | literal v => simp [WellFormed]
  | previousResult v =>
    rcases v with _ | (id | c)
    · simp [WellFormed]
    · simpa [WellFormed] using readMade_ok_iff h id
    · exact c.elim
  | parameter i =>
    cases callParams with
    | none => simp [WellFormed]
    | some l =>
      simp only [outcome_parameter, WellFormed, Option.map_some, Option.some.injEq, exists_eq_left']
      by_cases inside : i.toNat < l.length
      · simp [inside]
      · simp [inside]
  | call f ps ih =>
    rcases f with _ | (id | c)
    · simp [WellFormed]
    · simp only [outcome_call, WellFormed]
      have params : AllWellFormed accepts (Readable h) (callParams.map List.length) ps ↔
          ∃ vs, outcomes A h callParams ps = .ok vs := by
        rw [allWellFormed_iff, outcomes_ok_iff]
        exact forall₂_congr (fun p hp => (ih p hp).symm)
      rw [params]
      cases run : outcomes A h callParams ps with
      | error e => simp [Except.bind]
      | ok vs =>
        have len := outcomes_length A h run
        simp only [Except.bind, calls, len]
        simp
    · exact c.elim
  | unknown w => simp [WellFormed]

theorem callOutcome_ok_iff (id : Nat) (args : List Num) :
    (∃ v, callOutcome A h id args = .ok v) ↔ Accepts Readable h (.made id) args.length := by
  induction h generalizing id args with
  | nil => simp [callOutcome_nil, Accepts]
  | cons entry earlier ih =>
    obtain ⟨k, obj⟩ := entry
    by_cases same : k = id
    · subst k
      simp only [Accepts, ↓reduceIte]
      cases obj with
      | operator op =>
        rw [callOutcome_operator]
        rcases args with _ | ⟨a, _ | ⟨b, _ | ⟨c, rest⟩⟩⟩ <;> simp
      | defined paramCount body =>
        rw [callOutcome_defined]
        by_cases arity : (args.length : Int) = paramCount.toInt
        · simpa [arity] using outcome_ok_iff_of_calls A earlier ih (some args) body
        · simp [arity]
      | _ => simp [callOutcome, callMade_same]
    · simp only [callOutcome_other A earlier same, Accepts, if_neg same]
      exact ih id args

theorem outcome_ok_iff (callParams : Option (List Num)) (e : CapExpression Empty Num) :
    (∃ v, outcome A h callParams e = .ok v) ↔
      WellFormed (Accepts Readable h) (Readable h) (callParams.map List.length) e :=
  outcome_ok_iff_of_calls A h (callOutcome_ok_iff A h) callParams e

end Outcomes

mutual
def shape : Expression F V Num → Expression F V Unit
  | .literal _ => .literal ()
  | .previousResult v => .previousResult v
  | .parameter i => .parameter i
  | .call f ps => .call f (shapes ps)
  | .unknown w => .unknown w

def shapes : List (Expression F V Num) → List (Expression F V Unit)
  | [] => []
  | p :: ps => shape p :: shapes ps
end

def objectShape : Object H Num → Object H Unit
  | .operator op => .operator op
  | .defined paramCount body => .defined paramCount (shape body)
  | .value _ => .value ⟨()⟩
  | .number _ => .number ()
  | .failed e => .failed e

def historyShape (h : History H Num) : History H Unit :=
  h.map fun entry => (entry.1, objectShape entry.2)

theorem shapes_eq_map (ps : List (Expression F V Num)) : shapes ps = ps.map shape := by
  induction ps with
  | nil => rfl
  | cons p ps ih => rw [shapes, ih, List.map_cons]

theorem wellFormed_shape (accepts : F → Nat → Prop) (readable : V → Prop) (context : Option Nat)
    (e : Expression F V Num) :
    WellFormed accepts readable context (shape e) ↔ WellFormed accepts readable context e := by
  induction e with
  | literal v => simp [shape, WellFormed]
  | previousResult v => cases v <;> simp [shape, WellFormed]
  | parameter i => simp [shape, WellFormed]
  | call f ps ih =>
    cases f with
    | none => simp [shape, WellFormed]
    | some f =>
      have params : AllWellFormed accepts readable context (ps.map shape) ↔
          AllWellFormed accepts readable context ps := by
        rw [allWellFormed_iff, allWellFormed_iff, List.forall_mem_map]
        exact forall₂_congr ih
      simp only [shape, WellFormed, shapes_eq_map, params, List.length_map]
  | unknown w => simp [shape, WellFormed]

theorem accepts_shape (h : History H Num) (f : Cap H) (m : Nat) :
    Accepts NonNull (historyShape h) f m ↔ Accepts NonNull h f m := by
  induction h generalizing f m with
  | nil => cases f <;> simp [historyShape, Accepts]
  | cons entry earlier ih =>
    obtain ⟨k, obj⟩ := entry
    cases f with
    | hosted c => simp [Accepts]
    | made id =>
      simp only [historyShape, List.map_cons, Accepts] at ih ⊢
      by_cases same : k = id
      · simp only [same, ↓reduceIte]
        cases obj with
        | defined paramCount body =>
          simp only [objectShape, and_congr_right_iff]
          intro _
          rw [wellFormed_shape]
          exact wellFormed_congr (some m) body (fun g _ => ih g) (fun _ _ => Iff.rfl)
        | _ => simp [objectShape]
      · simp only [same, ↓reduceIte]
        exact ih (.made id) m

def ReadsValues (h : History H Num) (e : CapExpression H Num) : Prop :=
  ∀ id, .made id ∈ e.values → ∃ server, objectOf h id = some (.value server)

theorem readsValues_earlier {h : History H Num} {k : Nat} {obj : Object H Num} (fresh : k ∉ ids h)
    {e : CapExpression H Num} (created : ∀ id ∈ names e, id ∈ ids h)
    (reads : ReadsValues ((k, obj) :: h) e) : ReadsValues h e := by
  intro id member
  obtain ⟨server, value⟩ := reads id member
  rw [objectOf_fresh obj fresh (created id (names_value member))] at value
  exact ⟨server, value⟩

theorem readsValues_readable {h : History Empty Num} {e : CapExpression Empty Num}
    (reads : ReadsValues h e) (v : Cap Empty) (member : v ∈ e.values) :
    Readable h v ↔ NonNull h v := by
  cases v with
  | made id => simpa [Readable, NonNull] using reads id member
  | hosted c => exact c.elim

theorem accepts_nonNull {A : Arithmetic Num} {reqs : List (Request Num)} {h : History Empty Num}
    (session : Served A reqs h)
    (bodies : ∀ k n body, objectOf h k = some (.defined n body) → ReadsValues h body)
    (f : Cap Empty) (m : Nat) : Accepts Readable h f m ↔ Accepts NonNull h f m := by
  induction session generalizing f m with
  | start => cases f <;> simp [Accepts]
  | @serve h k r session request fresh created ih =>
    have earlier : ∀ f m, Accepts Readable h f m ↔ Accepts NonNull h f m := by
      apply ih
      intro j n body found
      refine readsValues_earlier fresh (served_names session found) (bodies j n body ?_)
      rw [objectOf_fresh _ fresh (objectOf_mem found), found]
    cases f with
    | hosted c => exact c.elim
    | made id =>
      simp only [Accepts]
      by_cases same : k = id
      · simp only [same, ↓reduceIte]
        cases obj : serve A h r with
        | defined n body =>
          have body_names := created
          rw [serve_defined obj] at body_names
          have reads : ReadsValues h body :=
            readsValues_earlier fresh body_names (bodies k n body (by rw [objectOf, if_pos rfl, obj]))
          simp only [and_congr_right_iff]
          intro _
          exact wellFormed_congr (some m) body (fun g _ => earlier g) (readsValues_readable reads)
        | _ => rfl
      · simp only [same, ↓reduceIte]
        exact earlier (.made id) m

/-- In a session whose value capabilities come from successful evaluate requests,
    evaluation returns a value exactly when the expression is well-formed, and
    that is said of the expression and the definitions without their numbers. -/
theorem evaluates_iff_well_formed {A : Arithmetic Num} {reqs : List (Request Num)}
    {h : History Empty Num} (session : Served A reqs h)
    (bodies : ∀ k n body, objectOf h k = some (.defined n body) → ReadsValues h body)
    (callParams : Option (List Num)) (e : CapExpression Empty Num) (reads : ReadsValues h e) :
    (∃ v, outcome A h callParams e = .ok v) ↔
      WellFormed (Accepts NonNull (historyShape h)) (fun _ => True) (callParams.map List.length)
        (shape e) := by
  rw [outcome_ok_iff, wellFormed_shape]
  refine wellFormed_congr _ e (fun f _ m => ?_) (readsValues_readable reads)
  exact (accepts_nonNull session bodies f m).trans (accepts_shape h f m).symm

theorem increment_bodies (k : Nat) (n : Int32) (body : CapExpression Empty Nat)
    (found : objectOf incrementSession k = some (.defined n body)) :
    ReadsValues incrementSession body := by
  have closed : Expression.values body = [] := by
    simp only [incrementSession, objectOf] at found
    split at found
    · simp at found
    · split at found
      · simp at found
      · split at found
        · simp only [Option.some.injEq, Object.defined.injEq] at found
          obtain ⟨-, rfl⟩ := found
          rfl
        · split at found <;> simp at found
  intro id member
  simp [closed] at member

theorem increment_evaluates_iff_well_formed :
    Served natural incrementRequests incrementSession ∧
    ((∃ v, outcome natural incrementSession none
        (.call (some (.made 1)) [.previousResult (some (.made 2))]) = .ok v) ↔
      WellFormed (Accepts NonNull (historyShape incrementSession)) (fun _ => True) none
        (shape (.call (some (.made 1)) [.previousResult (some (.made 2))] : CapExpression Empty Nat))) := by
  refine ⟨increment_served, evaluates_iff_well_formed increment_served increment_bodies none _ ?_⟩
  intro id member
  simp only [Expression.values, Expression.valuesOf, Option.toList_some, List.append_nil,
    List.mem_singleton, Cap.made.injEq] at member
  subst id
  exact ⟨⟨5⟩, rfl⟩

example : outcome natural incrementSession none
    (.call (some (.made 1)) [.previousResult (some (.made 2))]) = .ok 6 := by rfl

end StaticForm
