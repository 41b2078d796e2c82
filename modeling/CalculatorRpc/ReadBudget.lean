import CalculatorRpc.SpendingRuns
import CalculatorRpc.StaticForm

/- The read budgets of messages. A defined function keeps its body inside the
   message of the request that defined it and walks it anew on every call, so
   every call draws on the budget of that message. -/
namespace ReadBudget
open CalculatorExpression CalculatorEvaluate CalculatorSession FallibleRuns SpendingRuns StaticForm

variable {Num : Type}

/-- The sizes that the RPC library subtracts for a list of expressions and a list
    of numbers, the budget of a new message, and what a refused read leaves of it. -/
structure ReadLimits where
  paramsSize : Nat → Nat
  argumentsSize : Nat → Nat
  traverseLimit : Nat
  refused : Nat → Nat → Nat
  refused_le : ∀ n left, refused n left ≤ left

/-- The budgets: of the argument message of the running call, and of the messages
    that hold the bodies. -/
inductive Account where
  | arguments
  | message (m : Option Nat)
  deriving DecidableEq

def budgetHost (L : ReadLimits) : Host (Budget Account) Empty Num where
  follow := fun m n => take L.refused Error.readLimit (.message m) (L.paramsSize n)
  arguments := fun n => take L.refused Error.readLimit Account.arguments (L.argumentsSize n)
  newArguments := fun s => Function.update s .arguments L.traverseLimit
  oldArguments := fun s s' => Function.update s' .arguments (s .arguments)
  enter := fun _ s => s
  leave := fun _ s => s
  call := fun c _ _ => c.elim
  read := fun c _ => c.elim

def callFunction (A : Arithmetic Num) (L : ReadLimits) (h : History Empty Num) (id : Nat)
    (args : List Num) (s : Budget Account) : Except Error Num × Budget Account :=
  (runtime A (budgetHost L) h none).call (.made id) args s

mutual
def expressionCost (L : ReadLimits) (callCost : Cap Empty → Nat → Budget Account)
    (message : Option Nat) (context : Nat) : CapExpression Empty Num → Budget Account
  | .literal _ => 0
  | .previousResult _ => 0
  | .parameter _ => charge .arguments (L.argumentsSize context)
  | .call none _ => 0
  | .call (some f) ps =>
    charge (.message message) (L.paramsSize ps.length) +
      (paramsCost L callCost message context ps + callCost f ps.length)
  | .unknown _ => 0

def paramsCost (L : ReadLimits) (callCost : Cap Empty → Nat → Budget Account)
    (message : Option Nat) (context : Nat) : List (CapExpression Empty Num) → Budget Account
  | [] => 0
  | p :: ps => expressionCost L callCost message context p + paramsCost L callCost message context ps
end

mutual
def Fits (fits : Cap Empty → Nat → Prop) : CapExpression Empty Num → Prop
  | .call (some f) ps => AllFit fits ps ∧ fits f ps.length
  | _ => True

def AllFit (fits : Cap Empty → Nat → Prop) : List (CapExpression Empty Num) → Prop
  | [] => True
  | p :: ps => Fits fits p ∧ AllFit fits ps
end

def functionCost (L : ReadLimits) : History Empty Num → Cap Empty → Nat → Budget Account
  | [], _, _ => 0
  | (k, obj) :: earlier, f, m =>
    if .made k = f then
      match obj with
      | .operator _ => charge .arguments (L.argumentsSize m)
      | .defined _ body => charge .arguments (L.argumentsSize m) +
          expressionCost L (fun g n => Function.update (functionCost L earlier g n) .arguments 0)
            (some k) m body
      | _ => 0
    else functionCost L earlier f m

/-- What a call of the function with `m` arguments takes from the messages of the bodies. -/
def callCost (L : ReadLimits) (h : History Empty Num) (f : Cap Empty) (m : Nat) : Budget Account :=
  Function.update (functionCost L h f m) .arguments 0

def FunctionFits (L : ReadLimits) : History Empty Num → Cap Empty → Nat → Prop
  | [], _, _ => True
  | (k, obj) :: earlier, f, m =>
    if .made k = f then
      match obj with
      | .defined _ body => Fits (fun g n => FunctionFits L earlier g n ∧
          functionCost L earlier g n .arguments ≤ L.traverseLimit) body
      | _ => True
    else FunctionFits L earlier f m

/-- The argument messages of a call, its own included, are read within their limits. -/
def CallFits (L : ReadLimits) (h : History Empty Num) (f : Cap Empty) (m : Nat) : Prop :=
  FunctionFits L h f m ∧ functionCost L h f m .arguments ≤ L.traverseLimit

section Spending

variable {A : Arithmetic Num} {L : ReadLimits} {h : History Empty Num}

theorem params_spend {message : Option Nat} {args : List Num} {ps : List (CapExpression Empty Num)}
    (each : ∀ p ∈ ps, Spends (evaluate int64 (runtime A (budgetHost L) h message) (some args) p)
      (Fits (CallFits L h) p) (expressionCost L (callCost L h) message args.length p)
      (outcome A h (some args) p)) :
    Spends (runAll (evaluate int64 (runtime A (budgetHost L) h message) (some args)) ps)
      (AllFit (CallFits L h) ps) (paramsCost L (callCost L h) message args.length ps)
      (outcomes A h (some args) ps) := by
  induction ps with
  | nil => exact spends_ok []
  | cons p ps ih =>
    have head := each p List.mem_cons_self
    have tail := ih (fun q hq => each q (List.mem_cons_of_mem p hq))
    have rest := fun v => spends_andThen tail (fun vs _ => spends_ok (v :: vs))
    have both := spends_andThen head (fun v _ => rest v)
    rw [runAll_cons, outcomes_cons]
    refine both.congr ?_ ?_
    · simp [AllFit]
    · intro k
      simp [paramsCost]

theorem evaluate_spends (message : Option Nat) (args : List Num)
    (calls : ∀ id args, Spends (callFunction A L h id args) (CallFits L h (.made id) args.length)
      (callCost L h (.made id) args.length) (callOutcome A h id args))
    (e : CapExpression Empty Num) :
    Spends (evaluate int64 (runtime A (budgetHost L) h message) (some args) e)
      (Fits (CallFits L h) e) (expressionCost L (callCost L h) message args.length e)
      (outcome A h (some args) e) := by
  induction e using Expression.induction with
  | literal v => exact spends_ok v
  | previousResult v =>
    rcases v with _ | (id | c)
    · exact spends_error _ _ _
    · exact spends_outcome (readMade h id)
    · exact c.elim
  | parameter i =>
    have read := spends_take L.refused_le Error.readLimit Account.arguments (L.argumentsSize args.length)
    have node := spends_andThen read (fun _ _ => spends_outcome (outcome A h (some args) (.parameter i)))
    rw [outcome_parameter] at node ⊢
    rw [evaluate_parameter]
    refine node.congr ?_ ?_
    · simp [Fits]
    · intro k
      simp [expressionCost]
  | call f ps ih =>
    rcases f with _ | (id | c)
    · exact spends_error _ _ _
    · rw [evaluate_call_andThen, outcome_call]
      have follow := spends_take L.refused_le Error.readLimit (Account.message message)
        (L.paramsSize ps.length)
      have callback := spends_andThen follow (fun _ _ => params_spend ih)
      have node := spends_andThen callback (fun vs run => by
        have spent := calls id vs
        rw [outcomes_length A h run] at spent
        exact spent)
      refine node.congr ?_ ?_
      · simp [Fits]
      · intro k
        simp only [expressionCost, Pi.add_apply]
        omega
    · exact c.elim
  | unknown w => exact spends_error _ _ _

theorem callFunction_spends {id : Nat} {args : List Num}
    (run : Spends (callMade A (budgetHost L) h id args) (FunctionFits L h (.made id) args.length)
      (functionCost L h (.made id) args.length) (callOutcome A h id args)) :
    Spends (callFunction A L h id args) (CallFits L h (.made id) args.length)
      (callCost L h (.made id) args.length) (callOutcome A h id args) :=
  spends_fresh Account.arguments L.traverseLimit run

theorem callDefined_spends {k : Nat} (n : Int32) {body : CapExpression Empty Num} {args : List Num}
    (run : Spends (evaluate int64 (runtime A (budgetHost L) h (some k)) (some args) body)
      (Fits (CallFits L h) body) (expressionCost L (callCost L h) (some k) args.length body)
      (outcome A h (some args) body)) :
    Spends (callDefined int64 (runtime A (budgetHost L) h (some k)) n body args)
      (Fits (CallFits L h) body)
      (charge .arguments (L.argumentsSize args.length) +
        expressionCost L (callCost L h) (some k) args.length body)
      (if (args.length : Int) ≠ n.toInt then .error (.wrongArguments n.toInt args.length)
        else outcome A h (some args) body) := by
  have read := spends_take L.refused_le Error.readLimit Account.arguments (L.argumentsSize args.length)
  rw [callDefined_andThen]
  by_cases wrong : (args.length : Int) ≠ n.toInt
  · simp only [if_pos wrong]
    exact (spends_andThen read (fun _ _ => spends_error _ (Fits (CallFits L h) body) _)).congr
      (by simp) (fun _ => rfl)
  · simp only [if_neg wrong]
    exact (spends_andThen read (fun _ _ => run)).congr (by simp) (fun _ => rfl)

theorem makeOperator_spends (id : Nat) (op : Operator) (args : List Num) :
    Spends (makeOperator (fun n => take L.refused Error.readLimit Account.arguments (L.argumentsSize n))
        (A.apply op) args) True (charge .arguments (L.argumentsSize args.length))
      (callOutcome A ((id, .operator op) :: h) id args) := by
  have read := spends_take L.refused_le Error.readLimit Account.arguments (L.argumentsSize args.length)
  rw [makeOperator_andThen, callOutcome_operator]
  exact (spends_andThen read (fun _ _ => spends_outcome _)).congr (by simp) (fun k => by simp)

theorem callMade_spends (id : Nat) (args : List Num) :
    Spends (callMade A (budgetHost L) h id args) (FunctionFits L h (.made id) args.length)
      (functionCost L h (.made id) args.length) (callOutcome A h id args) := by
  induction h generalizing id args with
  | nil => exact spends_error _ _ _
  | cons entry earlier ih =>
    obtain ⟨k, obj⟩ := entry
    have calls := fun id args => callFunction_spends (ih id args)
    by_cases same : k = id
    · subst k
      cases obj with
      | operator op =>
        rw [callMade_same]
        simp only [functionCost, FunctionFits, ↓reduceIte]
        exact makeOperator_spends id op args
      | defined n body =>
        have spent := callDefined_spends n (evaluate_spends (some id) args calls body)
        rw [callMade_same, callOutcome_defined]
        simp only [functionCost, FunctionFits, ↓reduceIte]
        exact spent
      | _ =>
        -- A value, a number and a failed request answer with an error and read nothing.
        unfold callOutcome
        rw [callMade_same, callMade_same]
        exact spends_error _ _ _
    · rw [callMade_other A _ earlier same, callOutcome_other A earlier same]
      simpa only [functionCost, FunctionFits, Cap.made.injEq, if_neg same] using ih id args

end Spending

/-- A function that accepts `m` arguments refuses any other number before it looks
    at its body, and an operator has none. -/
theorem other_number_takes_nothing {A : Arithmetic Num} {L : ReadLimits} {h : History Empty Num}
    {id m : Nat} (accepts : Accepts Readable h (.made id) m) {args : List Num}
    (other : args.length ≠ m) (s : Budget Account) : (callFunction A L h id args s).2 = s := by
  have outside : ∀ (t : Budget Account) k, k ≠ .arguments →
      (callMade A (budgetHost L) h id args t).2 k = t k := by
    intro t k elsewhere
    induction h with
    | nil => simp [Accepts] at accepts
    | cons entry earlier ih =>
      obtain ⟨j, obj⟩ := entry
      simp only [Accepts] at accepts
      split at accepts
      · rename_i same
        subst j
        rw [callMade_same]
        cases obj with
        | operator op =>
          simp only [makeOperator_andThen, andThen_keeps]
          exact take_elsewhere elsewhere _ _ _ t
        | defined n body =>
          have wrong : (args.length : Int) ≠ n.toInt := by
            intro arity
            exact other (by exact_mod_cast arity.trans accepts.1.symm)
          simp only [callDefined_andThen, if_pos wrong, andThen_keeps]
          exact take_elsewhere elsewhere _ _ _ t
        | value server => exact accepts.elim
        | number v => exact accepts.elim
        | failed e => exact accepts.elim
      · rename_i different
        rw [callMade_other A _ earlier different]
        exact ih accepts
  have restored : (callFunction A L h id args s).2 = Function.update
      (callMade A (budgetHost L) h id args (Function.update s .arguments L.traverseLimit)).2
      .arguments (s .arguments) := rfl
  rw [restored]
  funext k
  by_cases same : k = .arguments
  · subst k
    exact Function.update_self ..
  · rw [Function.update_of_ne same, outside _ k same, Function.update_of_ne same]

def afterCalls (A : Arithmetic Num) (L : ReadLimits) (h : History Empty Num) (id : Nat)
    (s : Budget Account) (calls : List (List Num)) : Budget Account :=
  after (callFunction A L h id) s calls

section Alike

variable {A : Arithmetic Num} {L : ReadLimits} {h : History Empty Num} {id : Nat}

theorem callFunction_ok {args : List Num} {v : Num} (result : callOutcome A h id args = .ok v)
    (fits : CallFits L h (.made id) args.length) {s : Budget Account}
    (enough : ∀ k, callCost L h (.made id) args.length k ≤ s k) :
    (callFunction A L h id args s).1 = .ok v := by
  rw [(callFunction_spends (callMade_spends id args)).covered s v result fits enough]

theorem callFunction_fails {args : List Num} {s : Budget Account}
    (short : ¬ (Accepts Readable h (.made id) args.length ∧ CallFits L h (.made id) args.length ∧
      ∀ k, callCost L h (.made id) args.length k ≤ s k)) :
    ∃ e, (callFunction A L h id args s).1 = .error e := by
  obtain ⟨e, s', run, -⟩ := (callFunction_spends (A := A) (callMade_spends id args)).fails s
    (by rwa [callOutcome_ok_iff])
  exact ⟨e, by rw [run]⟩

theorem budgets_shrink (args : List Num) (s : Budget Account) (k : Account) :
    (callFunction A L h id args s).2 k ≤ s k :=
  (callFunction_spends (callMade_spends id args)).le s k

theorem afterCalls_spent {m : Nat} (accepts : Accepts Readable h (.made id) m)
    (fits : CallFits L h (.made id) m) (calls : List (List Num)) (s : Budget Account) :
    ((∀ k, calls.countP (·.length == m) * callCost L h (.made id) m k ≤ s k) ∧
      ∀ k, afterCalls A L h id s calls k =
        s k - calls.countP (·.length == m) * callCost L h (.made id) m k) ∨
    ((∃ k, s k < calls.countP (·.length == m) * callCost L h (.made id) m k) ∧
      ∃ k, afterCalls A L h id s calls k < callCost L h (.made id) m k) := by
  refine after_series fits ?_ ?_ ?_ calls s (p := callOutcome A h id)
  · intro args counted
    have number : args.length = m := by simpa using counted
    subst m
    exact callFunction_spends (callMade_spends id args)
  · intro args counted
    have number : args.length = m := by simpa using counted
    subst m
    exact (callOutcome_ok_iff A h id args).mpr accepts
  · intro args counted
    have number : args.length ≠ m := by simpa using counted
    exact other_number_takes_nothing accepts number

theorem answers_again_iff {args : List Num} {v : Num} (result : callOutcome A h id args = .ok v)
    (fits : CallFits L h (.made id) args.length) (calls : List (List Num)) (s : Budget Account) :
    (callFunction A L h id args (afterCalls A L h id s calls)).1.toOption = some v ↔
      ∀ k, (calls.countP (·.length == args.length) + 1) * callCost L h (.made id) args.length k ≤ s k := by
  have accepts := (callOutcome_ok_iff A h id args).mp ⟨v, result⟩
  by_cases again : ∀ k, callCost L h (.made id) args.length k ≤ afterCalls A L h id s calls k
  · rw [callFunction_ok result fits again]
    constructor
    · intro _ k
      rcases afterCalls_spent (A := A) accepts fits calls s with ⟨covered, left⟩ | ⟨-, j, few⟩
      · have rest := again k
        have before := covered k
        rw [left k] at rest
        rw [Nat.succ_mul]
        omega
      · have rest := again j
        omega
    · intro _
      rfl
  · obtain ⟨e, fails⟩ := callFunction_fails (A := A) (fun covered => again covered.2.2)
    rw [fails]
    constructor
    · intro impossible
      simp [Except.toOption] at impossible
    · intro enough
      apply absurd _ again
      intro k
      rcases afterCalls_spent (A := A) accepts fits calls s with ⟨-, left⟩ | ⟨⟨j, short⟩, -⟩
      · have total := enough k
        rw [Nat.succ_mul] at total
        rw [left k]
        omega
      · have total := enough j
        rw [Nat.succ_mul] at total
        omega

end Alike

/-- When a function answers alike. The earlier calls are any calls of it; those
    with another number of arguments do not count. A call that the budgets do not
    allow even at first, or that is not well-formed, fails every time. -/
theorem answers_alike_iff (A : Arithmetic Num) (L : ReadLimits) (h : History Empty Num) (id : Nat)
    (s : Budget Account) (calls : List (List Num)) (args : List Num) :
    (callFunction A L h id args (afterCalls A L h id s calls)).1.toOption =
        (callFunction A L h id args s).1.toOption ↔
      ¬ (Accepts Readable h (.made id) args.length ∧ CallFits L h (.made id) args.length ∧
        ∀ k, callCost L h (.made id) args.length k ≤ s k) ∨
      ∀ k, (calls.countP (·.length == args.length) + 1) * callCost L h (.made id) args.length k ≤ s k := by
  by_cases first : Accepts Readable h (.made id) args.length ∧ CallFits L h (.made id) args.length ∧
      ∀ k, callCost L h (.made id) args.length k ≤ s k
  · obtain ⟨accepts, fits, enough⟩ := first
    obtain ⟨v, result⟩ := (callOutcome_ok_iff A h id args).mpr accepts
    rw [callFunction_ok result fits enough]
    have later := answers_again_iff result fits calls s
    constructor
    · intro alike
      exact Or.inr (later.mp alike)
    · rintro (never | again)
      · exact absurd ⟨accepts, fits, enough⟩ never
      · exact later.mpr again
  · have later : ¬ (Accepts Readable h (.made id) args.length ∧
        CallFits L h (.made id) args.length ∧
        ∀ k, callCost L h (.made id) args.length k ≤ afterCalls A L h id s calls k) := by
      rintro ⟨accepts, fits, enough⟩
      refine first ⟨accepts, fits, fun k => Nat.le_trans (enough k) ?_⟩
      exact after_le budgets_shrink calls s k
    obtain ⟨e, fails⟩ := callFunction_fails (A := A) first
    obtain ⟨e', fails'⟩ := callFunction_fails (A := A) later
    rw [fails, fails']
    constructor
    · intro _
      exact Or.inl first
    · intro _
      rfl

/-- An Expression is two words of data and two pointers; a message may be read for
    64 MiB, and a refused read uses up what is left. -/
def defaultLimits : ReadLimits where
  paramsSize := fun n => 32 * n
  argumentsSize := fun n => 8 * n
  traverseLimit := 2 ^ 26
  refused := fun _ _ => 0
  refused_le := fun _ left => Nat.zero_le left

def afterDefinition : Budget Account := fun _ => 2 ^ 26 - 32

theorem increment_cost : callCost defaultLimits incrementSession (.made 1) 1 =
    charge (.message (some 1)) 64 := by
  funext k
  rcases k with _ | _ | j
  · rfl
  · rfl
  · by_cases same : j = 1
    · subst j
      rfl
    · have other : Account.message (some j) ≠ .message (some 1) := by simpa using same
      simp [callCost, functionCost, incrementSession, expressionCost, paramsCost, charge, other]

theorem increment_wears_out :
    (callFunction natural defaultLimits incrementSession 1 [5] afterDefinition).1 = .ok 6 ∧
    (callFunction natural defaultLimits incrementSession 1 [5]
      (afterCalls natural defaultLimits incrementSession 1 afterDefinition
        (List.replicate (2 ^ 20 - 1) [5]))).1.toOption ≠ some 6 := by
  have result : callOutcome natural incrementSession 1 [5] = .ok 6 := rfl
  have fits : CallFits defaultLimits incrementSession (.made 1) [5].length :=
    ⟨⟨⟨trivial, trivial, trivial⟩, trivial, by decide⟩, by decide⟩
  have cost : callCost defaultLimits incrementSession (.made 1) [5].length =
      charge (.message (some 1)) 64 :=
    increment_cost
  constructor
  · apply callFunction_ok result fits
    rw [cost, charge_le]
    decide
  · intro again
    have total := (answers_again_iff result fits _ _).mp again
    rw [List.countP_replicate, cost] at total
    have message := total (.message (some 1))
    revert message
    decide

end ReadBudget
