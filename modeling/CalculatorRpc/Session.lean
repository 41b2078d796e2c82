import CalculatorRpc.Evaluate

/- The objects that the requests of a session leave behind, and evaluation over
   them. An object is named by the request that created it. The function that a
   request defines sees the objects of earlier requests only, so evaluation is
   total by recursion on the order in which they were created. -/
namespace CalculatorSession
open CalculatorExpression CalculatorEvaluate FallibleRuns

variable {S H Num : Type}

inductive Operator where
  | add
  | subtract
  | multiply
  | divide
  deriving DecidableEq

structure Arithmetic (Num : Type) where
  zero : Num
  apply : Operator → Num → Num → Num

def operators (op : UInt16) : Option Operator :=
  match op.toNat with
  | 0 => some .add
  | 1 => some .subtract
  | 2 => some .multiply
  | 3 => some .divide
  | _ => none

inductive Cap (H : Type) where
  | made (id : Nat)
  | hosted (c : H)
  deriving DecidableEq

abbrev CapExpression (H Num : Type) := Expression (Cap H) (Cap H) Num

structure ValueServer (Num : Type) where
  value : Num

def ValueServer.read (vs : ValueServer Num) : Except Error Num := .ok vs.value

/-- What a finished request leaves: a function, a value, a plain number or nothing
    but its error. -/
inductive Object (H Num : Type) where
  | operator (op : Operator)
  | defined (paramCount : Int32) (body : CapExpression H Num)
  | value (server : ValueServer Num)
  | number (value : Num)
  | failed (e : Error)

abbrev History (H Num : Type) := List (Nat × Object H Num)

def objectOf : History H Num → Nat → Option (Object H Num)
  | [], _ => none
  | (k, obj) :: earlier, id => if k = id then some obj else objectOf earlier id

/-- What lies outside the server: the messages that are read, the argument message
    that is made for each call, and the capabilities of the peers. The expression
    of an evaluate request has its own message `none`, the body of a function the
    message of the request that defined it. -/
structure Host (S H Num : Type) where
  follow : Option Nat → Nat → S → Except Error Unit × S
  arguments : Nat → S → Except Error Unit × S
  newArguments : S → S
  oldArguments : S → S → S
  enter : Option H → S → S
  leave : Option H → S → S
  call : H → List Num → S → Except Error Num × S
  read : H → S → Except Error Num × S

def readMade (h : History H Num) (id : Nat) : Except Error Num :=
  match objectOf h id with
  | some (.value server) => server.read
  | some (.failed e) => .error e
  | _ => .error .notReadable

def Cap.peer : Cap H → Option H
  | .made _ => none
  | .hosted c => some c

def runtimeWith (A : Arithmetic Num) (host : Host S H Num) (message : Option Nat)
    (callMade : Nat → List Num → S → Except Error Num × S) (readMade : Nat → Except Error Num) :
    Runtime S (Cap H) (Cap H) Num where
  zero := A.zero
  params := host.follow message
  arguments := host.arguments
  enter := fun f => host.enter f.peer
  leave := fun f => host.leave f.peer
  call := fun f args s =>
    match f with
    | .made id =>
      let (r, s') := callMade id args (host.newArguments s)
      (r, host.oldArguments s s')
    | .hosted c => host.call c args s
  read := fun v s =>
    match v with
    | .made id => (readMade id, s)
    | .hosted c => host.read c s

def callMadeWith (lists : Lists S Num) (int : UInt32 → Int) (A : Arithmetic Num)
    (host : Host S H Num) : History H Num → Nat → List Num → S → Except Error Num × S
  | [], _, _, s => (.error .notCallable, s)
  | (k, obj) :: earlier, id, args, s =>
    if k = id then
      match obj with
      | .operator op => makeOperator host.arguments (A.apply op) args s
      | .defined paramCount body =>
        callDefinedWith lists int
          (runtimeWith A host (some k) (fun id args s => callMadeWith lists int A host earlier id args s)
            (readMade earlier))
          paramCount body args s
      | .failed e => (.error e, s)
      | _ => (.error .notCallable, s)
    else callMadeWith lists int A host earlier id args s

/-- Here, in `runtime` and in all that is built on them, Go's `int` has 64 bits. -/
def callMade (A : Arithmetic Num) (host : Host S H Num) (h : History H Num) (id : Nat)
    (args : List Num) (s : S) : Except Error Num × S :=
  callMadeWith (plainLists A.zero) int64 A host h id args s

def runtime (A : Arithmetic Num) (host : Host S H Num) (h : History H Num) (message : Option Nat) :
    Runtime S (Cap H) (Cap H) Num :=
  runtimeWith A host message (callMade A host h) (readMade h)

section Calls

variable (lists : Lists S Num) (int : UInt32 → Int) (A : Arithmetic Num) (host : Host S H Num)
  (h : History H Num)

theorem callMadeWith_other {k id : Nat} (other : k ≠ id) (obj : Object H Num) (args : List Num) :
    callMadeWith lists int A host ((k, obj) :: h) id args = callMadeWith lists int A host h id args := by
  funext s
  simp only [callMadeWith, if_neg other]

theorem callMadeWith_same (id : Nat) (obj : Object H Num) (args : List Num) :
    callMadeWith lists int A host ((id, obj) :: h) id args =
      match obj with
      | .operator op => makeOperator host.arguments (A.apply op) args
      | .defined paramCount body => callDefinedWith lists int
          (runtimeWith A host (some id) (callMadeWith lists int A host h) (readMade h))
          paramCount body args
      | .failed e => fun s => (.error e, s)
      | _ => fun s => (.error .notCallable, s) := by
  funext s
  simp only [callMadeWith, ↓reduceIte]
  cases obj <;> rfl

theorem callMade_other {k id : Nat} (other : k ≠ id) (obj : Object H Num) (args : List Num) :
    callMade A host ((k, obj) :: h) id args = callMade A host h id args :=
  callMadeWith_other _ int64 A host h other obj args

theorem callMade_same (id : Nat) (obj : Object H Num) (args : List Num) :
    callMade A host ((id, obj) :: h) id args =
      match obj with
      | .operator op => makeOperator host.arguments (A.apply op) args
      | .defined paramCount body => callDefined int64 (runtime A host h (some id)) paramCount body args
      | .failed e => fun s => (.error e, s)
      | _ => fun s => (.error .notCallable, s) :=
  callMadeWith_same _ int64 A host h id obj args

end Calls

/-- No peer takes part and no message read fails. -/
def noHost : Host Unit Empty Num where
  follow := fun _ _ s => (.ok (), s)
  arguments := fun _ s => (.ok (), s)
  newArguments := fun s => s
  oldArguments := fun _ s => s
  enter := fun _ s => s
  leave := fun _ s => s
  call := fun c _ _ => c.elim
  read := fun c _ => c.elim

/-- `cs.evaluate` in a session without peers, where Go's `int` has 64 bits and no message
    read fails. -/
def outcome (A : Arithmetic Num) (h : History Empty Num) (callParams : Option (List Num))
    (e : CapExpression Empty Num) : Except Error Num :=
  (evaluate int64 (runtime A noHost h none) callParams e ()).1

def callOutcome (A : Arithmetic Num) (h : History Empty Num) (id : Nat) (args : List Num) :
    Except Error Num :=
  (callMade A noHost h id args ()).1

def outcomes (A : Arithmetic Num) (h : History Empty Num) (callParams : Option (List Num)) :
    List (CapExpression Empty Num) → Except Error (List Num)
  | [] => .ok []
  | p :: ps =>
    match outcome A h callParams p with
    | .error e => .error e
    | .ok v =>
      match outcomes A h callParams ps with
      | .error e => .error e
      | .ok vs => .ok (v :: vs)

section Outcomes

variable (A : Arithmetic Num) (h : History Empty Num) (callParams : Option (List Num))

@[simp] theorem outcome_literal (v : Num) : outcome A h callParams (.literal v) = .ok v := rfl

@[simp] theorem outcome_null_result :
    outcome A h callParams (.previousResult none) = .error .nullClient := rfl

@[simp] theorem outcome_result (id : Nat) :
    outcome A h callParams (.previousResult (some (.made id))) = readMade h id := rfl

@[simp] theorem outcome_null_call (ps : List (CapExpression Empty Num)) :
    outcome A h callParams (.call none ps) = .error .nullClient := rfl

@[simp] theorem outcome_unknown (w : UnknownWhich) :
    outcome A h callParams (.unknown w) = .error (.unknownExpression w) := rfl

@[simp] theorem outcome_parameter_outside (i : UInt32) :
    outcome A h none (.parameter i) = .error (.outsideFunction i) := rfl

@[simp] theorem outcome_parameter (l : List Num) (i : UInt32) :
    outcome A h (some l) (.parameter i) =
      match l[i.toNat]? with
      | some v => .ok v
      | none => .error (.missingParameter i l.length) := by
  unfold outcome
  rw [evaluate_parameter]
  rfl

theorem outcomes_cons (p : CapExpression Empty Num) (ps : List (CapExpression Empty Num)) :
    outcomes A h callParams (p :: ps) = (outcome A h callParams p).bind fun v =>
      (outcomes A h callParams ps).bind fun vs => .ok (v :: vs) := by
  rw [outcomes]
  cases outcome A h callParams p with
  | error e => rfl
  | ok v => cases outcomes A h callParams ps <;> rfl

theorem runAll_outcomes (message : Option Nat) (ps : List (CapExpression Empty Num)) :
    runAll (evaluate int64 (runtime A noHost h message) callParams) ps () =
      (outcomes A h callParams ps, ()) := by
  induction ps with
  | nil => rfl
  | cons p ps ih =>
    have same : evaluate int64 (runtime A noHost h message) callParams p =
        evaluate int64 (runtime A noHost h none) callParams p :=
      evaluate_congr int64 rfl rfl rfl rfl callParams p (fun _ _ => rfl) (fun _ _ => rfl)
    simp only [runAll, outcomes, outcome, same]
    cases evaluate int64 (runtime A noHost h none) callParams p () with
    | mk r s =>
      cases r with
      | error e => rfl
      | ok v =>
        simp only [ih]
        cases outcomes A h callParams ps <;> rfl

@[simp] theorem outcome_call (id : Nat) (ps : List (CapExpression Empty Num)) :
    outcome A h callParams (.call (some (.made id)) ps) =
      (outcomes A h callParams ps).bind (callOutcome A h id) := by
  have params := runAll_outcomes A h callParams none ps
  unfold outcome
  rw [evaluate_call]
  simp only [runtime, runtimeWith, noHost] at params ⊢
  rw [params]
  cases outcomes A h callParams ps with
  | error e => rfl
  | ok vs => rfl

theorem callOutcome_other {k id : Nat} (other : k ≠ id) (obj : Object Empty Num) (args : List Num) :
    callOutcome A ((k, obj) :: h) id args = callOutcome A h id args := by
  rw [callOutcome, callMade_other A noHost h other, callOutcome]

theorem callOutcome_operator (id : Nat) (op : Operator) (args : List Num) :
    callOutcome A ((id, .operator op) :: h) id args =
      match args with
      | [a, b] => .ok (A.apply op a b)
      | _ => .error (.wrongArguments 2 args.length) := by
  unfold callOutcome
  simp only [callMade_same, makeOperator_andThen]
  rfl

theorem callOutcome_defined (id : Nat) (paramCount : Int32) (body : CapExpression Empty Num)
    (args : List Num) :
    callOutcome A ((id, .defined paramCount body) :: h) id args =
      if (args.length : Int) ≠ paramCount.toInt then
        .error (.wrongArguments paramCount.toInt args.length)
      else outcome A h (some args) body := by
  have body_same : evaluate int64 (runtime A noHost h (some id)) (some args) body =
      evaluate int64 (runtime A noHost h none) (some args) body :=
    evaluate_congr int64 rfl rfl rfl rfl (some args) body (fun _ _ => rfl) (fun _ _ => rfl)
  unfold callOutcome
  simp only [callMade_same, outcome, ← body_same, callDefined_andThen]
  have readable : (runtime A noHost h (some id)).arguments args.length () = (.ok (), ()) := rfl
  simp only [andThen, readable]
  split <;> rfl

theorem callOutcome_nil (id : Nat) (args : List Num) :
    callOutcome A [] id args = .error .notCallable := rfl

end Outcomes

inductive Request (Num : Type) where
  | getOperator (op : UInt16)
  | defFunction (paramCount : Int32) (body : CapExpression Empty Num)
  | evaluate (expression : CapExpression Empty Num)
  | read (value : Nat)
  | call (function : Nat) (args : List Num)

def Cap.name : Cap H → Option Nat
  | .made id => some id
  | .hosted _ => none

def names (e : CapExpression H Num) : List Nat := (e.functions ++ e.values).filterMap Cap.name

def Request.names : Request Num → List Nat
  | .getOperator _ => []
  | .defFunction _ body => CalculatorSession.names body
  | .evaluate e => CalculatorSession.names e
  | .read value => [value]
  | .call function _ => [function]

def answered : Except Error Num → Object Empty Num
  | .ok v => .number v
  | .error e => .failed e

def evaluated : Except Error Num → Object Empty Num
  | .ok v => .value ⟨v⟩
  | .error e => .failed e

def getOperator (op : UInt16) : Object Empty Num :=
  match operators op with
  | some op => .operator op
  | none => .failed .operatorNotFound

def serve (A : Arithmetic Num) (h : History Empty Num) : Request Num → Object Empty Num
  | .getOperator op => getOperator op
  | .defFunction paramCount body => .defined paramCount body
  | .evaluate e => evaluated (outcome A h none e)
  | .read value => answered (readMade h value)
  | .call function args => answered (callOutcome A h function args)

def ids (h : History H Num) : List Nat := h.map Prod.fst

/-- A session: each of the numbered requests is served at most once, and only after
    the requests that create the capabilities it uses. Reading a promised result
    waits for it, so a request counts as served after those whose results it reads. -/
inductive Served (A : Arithmetic Num) (reqs : List (Request Num)) : History Empty Num → Prop where
  | start : Served A reqs []
  | serve {h : History Empty Num} {id : Nat} {r : Request Num} (session : Served A reqs h)
      (request : reqs[id]? = some r) (fresh : id ∉ ids h) (created : ∀ k ∈ r.names, k ∈ ids h) :
      Served A reqs ((id, CalculatorSession.serve A h r) :: h)

theorem objectOf_none {h : History H Num} {id : Nat} (absent : id ∉ ids h) : objectOf h id = none := by
  induction h with
  | nil => rfl
  | cons entry h ih =>
    obtain ⟨k, obj⟩ := entry
    simp only [ids, List.map_cons, List.mem_cons, not_or] at absent
    unfold objectOf
    rw [if_neg (Ne.symm absent.1)]
    exact ih absent.2

theorem objectOf_mem {h : History H Num} {id : Nat} {obj : Object H Num}
    (found : objectOf h id = some obj) : id ∈ ids h := by
  by_contra absent
  rw [objectOf_none absent] at found
  simp at found

theorem objectOf_fresh {h : History H Num} {k id : Nat} (obj : Object H Num) (fresh : k ∉ ids h)
    (present : id ∈ ids h) : objectOf ((k, obj) :: h) id = objectOf h id := by
  have other : k ≠ id := fun eq => fresh (eq ▸ present)
  rw [objectOf, if_neg other]

theorem names_function {e : CapExpression H Num} {id : Nat} (member : .made id ∈ e.functions) :
    id ∈ names e := by
  simp only [names, List.mem_filterMap, List.mem_append]
  exact ⟨.made id, Or.inl member, rfl⟩

theorem names_value {e : CapExpression H Num} {id : Nat} (member : .made id ∈ e.values) :
    id ∈ names e := by
  simp only [names, List.mem_filterMap, List.mem_append]
  exact ⟨.made id, Or.inr member, rfl⟩

theorem names_mem {e : CapExpression Empty Num} {id : Nat} :
    id ∈ names e ↔ .made id ∈ e.functions ∨ .made id ∈ e.values := by
  constructor
  · intro member
    simp only [names, List.mem_filterMap, List.mem_append] at member
    obtain ⟨c, occurs, name⟩ := member
    cases c with
    | made k =>
      obtain rfl := Option.some.inj name
      exact occurs
    | hosted c => exact c.elim
  · rintro (function | value)
    · exact names_function function
    · exact names_value value

theorem names_call {id f : Nat} {ps : List (CapExpression Empty Num)} :
    id ∈ names (.call (some (.made f)) ps : CapExpression Empty Num) ↔
      id = f ∨ ∃ p ∈ ps, id ∈ names p := by
  simp only [names_mem, functions_call, values_call, Option.some.injEq, Cap.made.injEq, and_or_left,
    exists_or, or_assoc, eq_comm]

theorem readMade_other {k id : Nat} (other : k ≠ id) (h : History H Num) (obj : Object H Num) :
    readMade ((k, obj) :: h) id = readMade h id := by
  rw [readMade, objectOf, if_neg other]
  rfl

def Alike (A : Arithmetic Num) (h h' : History Empty Num) (id : Nat) : Prop :=
  readMade h id = readMade h' id ∧ ∀ args, callOutcome A h id args = callOutcome A h' id args

theorem alike_other {A : Arithmetic Num} {k id : Nat} (other : k ≠ id) (h : History Empty Num)
    (obj : Object Empty Num) : Alike A ((k, obj) :: h) h id :=
  ⟨readMade_other other h obj, callOutcome_other A h other obj⟩

theorem Alike.trans {A : Arithmetic Num} {h h' h'' : History Empty Num} {id : Nat}
    (first : Alike A h h' id) (second : Alike A h' h'' id) : Alike A h h'' id :=
  ⟨first.1.trans second.1, fun args => (first.2 args).trans (second.2 args)⟩

theorem outcome_congr {A : Arithmetic Num} {h h' : History Empty Num} {e : CapExpression Empty Num}
    (same : ∀ id ∈ names e, Alike A h h' id) (callParams : Option (List Num)) :
    outcome A h callParams e = outcome A h' callParams e := by
  have run : evaluate int64 (runtime A noHost h none) callParams e =
      evaluate int64 (runtime A noHost h' none) callParams e := by
    apply evaluate_congr
    case params => rfl
    case arguments => rfl
    case enter => rfl
    case leave => rfl
    case calls =>
      intro f member
      cases f with
      | hosted c => exact c.elim
      | made id =>
        funext args s
        exact Prod.ext ((same id (names_function member)).2 args) rfl
    case reads =>
      intro v member
      cases v with
      | hosted c => exact c.elim
      | made id =>
        funext s
        exact Prod.ext (same id (names_value member)).1 rfl
  rw [outcome, run, outcome]

theorem outcome_other {k : Nat} {e : CapExpression Empty Num} (unnamed : k ∉ names e)
    (A : Arithmetic Num) (h : History Empty Num) (obj : Object Empty Num)
    (callParams : Option (List Num)) :
    outcome A ((k, obj) :: h) callParams e = outcome A h callParams e := by
  apply outcome_congr
  intro id member
  have other : k ≠ id := fun eq => unnamed (eq ▸ member)
  exact alike_other other h obj

theorem callOutcome_absent {h : History Empty Num} {id : Nat} (absent : id ∉ ids h)
    (A : Arithmetic Num) (args : List Num) : callOutcome A h id args = .error .notCallable := by
  induction h with
  | nil => rfl
  | cons entry h ih =>
    obtain ⟨k, obj⟩ := entry
    simp only [ids, List.map_cons, List.mem_cons, not_or] at absent
    rw [callOutcome_other A h (Ne.symm absent.1)]
    exact ih absent.2

theorem serve_defined {A : Arithmetic Num} {h : History Empty Num} {r : Request Num} {n : Int32}
    {body : CapExpression Empty Num} (defined : serve A h r = .defined n body) :
    r = .defFunction n body := by
  cases r with
  | getOperator op =>
    simp only [serve, getOperator] at defined
    split at defined <;> simp at defined
  | defFunction m other =>
    simp only [serve, Object.defined.injEq] at defined
    rw [defined.1, defined.2]
  | evaluate e =>
    simp only [serve] at defined
    cases run : outcome A h none e <;> simp [run, evaluated] at defined
  | read value =>
    simp only [serve] at defined
    cases run : readMade h value <;> simp [run, answered] at defined
  | call function args =>
    simp only [serve] at defined
    cases run : callOutcome A h function args <;> simp [run, answered] at defined

/-- The creation order: a function's body names only what was there before it. -/
theorem served_names {A : Arithmetic Num} {reqs : List (Request Num)} {h : History Empty Num}
    (session : Served A reqs h) {k : Nat} {n : Int32} {body : CapExpression Empty Num}
    (found : objectOf h k = some (.defined n body)) : ∀ id ∈ names body, id ∈ ids h := by
  induction session with
  | start => simp [objectOf] at found
  | @serve h j r session request fresh created ih =>
    intro id member
    unfold objectOf at found
    split at found
    · rw [serve_defined (Option.some.inj found)] at created
      exact List.mem_cons_of_mem _ (created id member)
    · exact List.mem_cons_of_mem _ (ih found id member)

theorem served_created {A : Arithmetic Num} {reqs : List (Request Num)} {h : History Empty Num}
    (session : Served A reqs h) {id : Nat} {r : Request Num} (served : id ∈ ids h)
    (request : reqs[id]? = some r) : ∀ k ∈ r.names, k ∈ ids h := by
  induction session with
  | start => simp [ids] at served
  | @serve h j r' session request' fresh created ih =>
    intro k member
    apply List.mem_cons_of_mem
    rcases List.mem_cons.mp served with first | later
    · subst first
      rw [request', Option.some.injEq] at request
      subst r'
      exact created k member
    · exact ih later k member

/-- Calls look the function up among all requests, although its body sees the
    earlier ones only: it names no others. -/
theorem callOutcome_served {A : Arithmetic Num} {reqs : List (Request Num)} {h : History Empty Num}
    (session : Served A reqs h) (id : Nat) (args : List Num) :
    callOutcome A h id args =
      match objectOf h id with
      | some (.operator op) =>
        match args with
        | [a, b] => .ok (A.apply op a b)
        | _ => .error (.wrongArguments 2 args.length)
      | some (.defined paramCount body) =>
        if (args.length : Int) ≠ paramCount.toInt then
          .error (.wrongArguments paramCount.toInt args.length)
        else outcome A h (some args) body
      | some (.failed e) => .error e
      | _ => .error .notCallable := by
  induction session with
  | start => rfl
  | @serve h k r session request fresh created ih =>
    by_cases same : k = id
    · subst k
      unfold objectOf
      rw [if_pos rfl]
      cases obj : serve A h r with
      | operator op => exact callOutcome_operator A h id op args
      | defined n body =>
        rw [serve_defined obj] at created
        have unnamed : id ∉ names body := fun member => fresh (created id member)
        simp only [callOutcome_defined, outcome_other unnamed]
      | _ => simp [callOutcome, callMade_same]
    · rw [callOutcome_other A h same, objectOf, if_neg same, ih]
      cases found : objectOf h id with
      | none => rfl
      | some obj =>
        cases obj with
        | defined n body =>
          have unnamed : k ∉ names body := fun member => fresh (served_names session found k member)
          simp only [outcome_other unnamed]
        | _ => rfl

theorem alike_fresh {A : Arithmetic Num} {h : History Empty Num} {k id : Nat} (fresh : k ∉ ids h)
    (obj : Object Empty Num) (present : id ∈ ids h) : Alike A ((k, obj) :: h) h id := by
  have other : k ≠ id := fun eq => fresh (eq ▸ present)
  exact alike_other other h obj

theorem serve_congr {A : Arithmetic Num} {h h' : History Empty Num} {r : Request Num}
    (same : ∀ k ∈ r.names, Alike A h h' k) : serve A h r = serve A h' r := by
  cases r with
  | getOperator op => rfl
  | defFunction n body => rfl
  | evaluate e => rw [serve, serve, outcome_congr same]
  | read value => rw [serve, serve, (same value List.mem_cons_self).1]
  | call function args => rw [serve, serve, (same function List.mem_cons_self).2]

theorem served_object {A : Arithmetic Num} {reqs : List (Request Num)} {h : History Empty Num}
    (session : Served A reqs h) {id : Nat} {r : Request Num} (served : id ∈ ids h)
    (request : reqs[id]? = some r) : objectOf h id = some (serve A h r) := by
  induction session with
  | start => simp [ids] at served
  | @serve h k r' session request' fresh created ih =>
    unfold objectOf
    by_cases same : k = id
    · subst k
      rw [request', Option.some.injEq] at request
      subst r'
      rw [if_pos rfl, serve_congr (fun k member => alike_fresh fresh _ (created k member))]
    · have earlier : id ∈ ids h := by
        rcases List.mem_cons.mp served with first | later
        · exact absurd first.symm same
        · exact later
      have names := served_created session earlier request
      rw [if_neg same, ih earlier, serve_congr (fun k member => alike_fresh fresh _ (names k member))]

def natural : Arithmetic Nat where
  zero := 0
  apply := fun op a b =>
    match op with
    | .add => a + b
    | .subtract => a - b
    | .multiply => a * b
    | .divide => a / b

def incrementRequests : List (Request Nat) :=
  [.getOperator 0, .defFunction 1 (.call (some (.made 0)) [.parameter 0, .literal 1]),
    .evaluate (.literal 5), .evaluate (.call (some (.made 1)) [.previousResult (some (.made 2))])]

def incrementSession : History Empty Nat :=
  [(3, .value ⟨6⟩), (2, .value ⟨5⟩),
    (1, .defined 1 (.call (some (.made 0)) [.parameter 0, .literal 1])), (0, .operator .add)]

theorem increment_served : Served natural incrementRequests incrementSession := by
  have operator : incrementRequests[0]? = some (.getOperator 0) := rfl
  have function : incrementRequests[1]? =
      some (.defFunction 1 (.call (some (.made 0)) [.parameter 0, .literal 1])) := rfl
  have value : incrementRequests[2]? = some (.evaluate (.literal 5)) := rfl
  have result : incrementRequests[3]? =
      some (.evaluate (.call (some (.made 1)) [.previousResult (some (.made 2))])) := rfl
  have first : Served natural incrementRequests [(0, .operator .add)] :=
    Served.start.serve operator (by decide) (by decide)
  have second := first.serve function (by decide) (by decide)
  have third := second.serve value (by decide) (by decide)
  exact third.serve result (by decide) (by decide)

end CalculatorSession
