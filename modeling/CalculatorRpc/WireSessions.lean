import CalculatorRpc.CallDispatch
import CalculatorRpc.ExpressionBuilding
import CalculatorRpc.RequestSchedules

/- Sessions of messages against sessions of requests. A client writes its requests
   with the setters of its language, and the server answers the messages by their
   method ids and on their structs. Every such session is one of the requests. -/
namespace WireSessions
open CalculatorExpression CalculatorEvaluate CalculatorSession MessageStructs ExpressionAccessors
open StructEvaluation ExpressionBuilding CallDispatch EventRuns

variable {Num : Type} (F : Float64 Num) (A : Arithmetic Num)

def objectOfServer : Server Num → Object Empty Num
  | .operator op => .operator op
  | .closure defParamCount defBody caps => .defined defParamCount (view F caps defBody)
  | .value server => .value server

def objectOfAnswer : Answer Num → Object Empty Num
  | .error e => .failed e
  | .ok results =>
    match promised results with
    | some server => objectOfServer F server
    | none => .number (value F results.root)

def plainHistory (w : WireHistory Num) : History Empty Num :=
  w.map fun entry => (entry.1, objectOfAnswer F entry.2)

theorem setCapability_object (server : Server Num) :
    objectOfAnswer F (setCapability server) = objectOfServer F server := by
  have sized := newStruct_sized 0 1
  have results : setCapability server =
      .ok ⟨putPtr 0 (.capability 0) (newStruct 0 1), [some server]⟩ := by
    rw [setCapability, sized.setPtr (by decide)]
    rfl
  have found : promised (⟨putPtr 0 (.capability 0) (newStruct 0 1), [some server]⟩ :
      ResultsMessage Num) = some server := by
    rw [promised, ptr_put_same sized (by decide)]
    rfl
  rw [results]
  simp only [objectOfAnswer, found]

theorem setNumberResult_value (v : Num) :
    setNumberResult F v = .ok (numberStruct F v) := by
  rw [setNumberResult, setValue_new]
  rfl

theorem numbers_filled (args : List Num) : numbers F (filled F args.length args) = args := by
  have list : (filled F args.length args).ptr 0 = .list args.length (slots F args) := rfl
  rw [numbers, float64List, list, Pointer.elements, List.map_map]
  apply List.ext_getElem?
  intro i
  by_cases inside : i < args.length
  · have slot : slots F args i = numberStruct F args[i] := by
      rw [slots, List.getElem?_eq_getElem inside]
    rw [List.getElem?_map, List.getElem?_range inside, Option.map_some, Function.comp, slot,
      value_numberStruct, List.getElem?_eq_getElem inside]
  · rw [List.getElem?_eq_none (by simp; omega), List.getElem?_eq_none (by omega)]

/-- Reading or calling an earlier answer does what it does to the object. -/
structure Invokes (w : WireHistory Num) : Prop where
  call : ∀ id params, (invoke F A w id (goMethod .call) params).map (value F) =
    callOutcome A (plainHistory F w) id (numbers F params)
  read : ∀ id params, (invoke F A w id (goMethod .read) params).map (value F) =
    readMade (plainHistory F w) id

theorem evaluate_outcome {w : WireHistory Num} (invokes : Invokes F A w) (caps : CapTable (Cap Empty))
    (callParams : Option Struct) (expr : Struct) :
    StructEvaluation.evaluate F caps int64 (wireRuntime F A w) callParams expr () =
      received id (outcome A (plainHistory F w) (callParams.map (numbers F)) (view F caps expr), ()) := by
  have same : CalculatorEvaluate.evaluate int64 ((wireRuntime F A w).plain F)
      (callParams.map (numbers F)) (view F caps expr) =
      CalculatorEvaluate.evaluate int64 (runtime A noHost (plainHistory F w) none)
        (callParams.map (numbers F)) (view F caps expr) := by
    apply evaluate_congr
    case params => rfl
    case arguments => rfl
    case enter => rfl
    case leave => rfl
    case calls =>
      intro f _
      cases f with
      | hosted c => exact c.elim
      | made id =>
        funext args s
        have outcome := invokes.call id (filled F args.length args)
        rw [numbers_filled] at outcome
        rw [plain_call]
        exact Prod.ext outcome rfl
    case reads =>
      intro v _
      cases v with
      | hosted c => exact c.elim
      | made id =>
        funext s
        rw [plain_read]
        exact Prod.ext (invokes.read id (newStruct 0 0)) rfl
  rw [evaluate_refines, plainEvaluate, same]
  rfl

theorem call_functionMethods : findMethod functionMethods (goMethod .call) = some .call := by decide

theorem read_functionMethods : findMethod functionMethods (goMethod .read) = none := by decide

theorem call_valueMethods : findMethod valueMethods (goMethod .call) = none := by decide

theorem read_valueMethods : findMethod valueMethods (goMethod .read) = some .read := by decide

theorem callServer_outcome {earlier : WireHistory Num} (invokes : Invokes F A earlier)
    (params : Struct) (k : Nat) (server : Server Num) (callable : server.methods = functionMethods) :
    (callServer F A (wireRuntime F A earlier) params server).map (value F) =
      callOutcome A ((k, objectOfServer F server) :: plainHistory F earlier) k (numbers F params) := by
  cases server with
  | operator op =>
    rw [objectOfServer, callOutcome_operator, callServer]
    rcases numbers F params with _ | ⟨a, _ | ⟨b, _ | ⟨c, rest⟩⟩⟩
    · rfl
    · rfl
    · simp only [setNumberResult_value, Except.map, value_numberStruct]
    · rfl
  | closure n body caps =>
    rw [objectOfServer, callOutcome_defined, callServer]
    split
    · rfl
    · rw [evaluate_outcome F A invokes, Option.map_some]
      cases outcome A (plainHistory F earlier) (some (numbers F params)) (view F caps body) with
      | error e => rfl
      | ok v => simp only [received, id, setNumberResult_value, Except.map, value_numberStruct]
  | value v => simp [Server.methods, valueMethods, functionMethods] at callable

theorem invoke_other {k id : Nat} (other : k ≠ id) (answer : Answer Num) (earlier : WireHistory Num)
    (m : Method) (params : Struct) :
    invoke F A ((k, answer) :: earlier) id m params = invoke F A earlier id m params := by
  simp only [invoke, if_neg other]

theorem invoke_failed (id : Nat) (e : Error) (earlier : WireHistory Num) (m : Method) (params : Struct) :
    invoke F A ((id, .error e) :: earlier) id m params = .error e := by
  simp only [invoke, ↓reduceIte]

theorem invoke_null {results : ResultsMessage Num} (null : promised results = none) (id : Nat)
    (earlier : WireHistory Num) (m : Method) (params : Struct) :
    invoke F A ((id, .ok results) :: earlier) id m params = .error (unimplemented m) := by
  simp only [invoke, ↓reduceIte, null]

theorem invoke_server {results : ResultsMessage Num} {server : Server Num}
    (found : promised results = some server) (id : Nat) (earlier : WireHistory Num) (m : Method)
    (params : Struct) :
    invoke F A ((id, .ok results) :: earlier) id m params =
      match findMethod server.methods m with
      | some .read => readValue F server
      | some .call => callServer F A (wireRuntime F A earlier) params server
      | _ => .error (unimplemented m) := by
  simp only [invoke, ↓reduceIte, found]
  rfl

theorem invoke_call_here {earlier : WireHistory Num} (invokes : Invokes F A earlier) (id : Nat)
    (answer : Answer Num) (params : Struct) :
    (invoke F A ((id, answer) :: earlier) id (goMethod .call) params).map (value F) =
      callOutcome A ((id, objectOfAnswer F answer) :: plainHistory F earlier) id
        (numbers F params) := by
  cases answer with
  | error e =>
    rw [invoke_failed, callOutcome, objectOfAnswer, callMade_same]
    rfl
  | ok results =>
    cases found : promised results with
    | none =>
      simp only [objectOfAnswer, found]
      rw [invoke_null F A found, callOutcome, callMade_same]
      rfl
    | some server =>
      simp only [objectOfAnswer, found]
      rw [invoke_server F A found]
      cases server with
      | operator op =>
        rw [Server.methods, call_functionMethods]
        exact callServer_outcome F A invokes params id _ rfl
      | closure n body caps =>
        rw [Server.methods, call_functionMethods]
        exact callServer_outcome F A invokes params id _ rfl
      | value server =>
        rw [Server.methods, call_valueMethods, objectOfServer, callOutcome, callMade_same]
        rfl

theorem invoke_read_here (earlier : WireHistory Num) (id : Nat) (answer : Answer Num)
    (params : Struct) :
    (invoke F A ((id, answer) :: earlier) id (goMethod .read) params).map (value F) =
      readMade ((id, objectOfAnswer F answer) :: plainHistory F earlier) id := by
  rw [readMade, objectOf, if_pos rfl]
  cases answer with
  | error e =>
    rw [invoke_failed]
    rfl
  | ok results =>
    cases found : promised results with
    | none =>
      simp only [objectOfAnswer, found]
      rw [invoke_null F A found]
      rfl
    | some server =>
      simp only [objectOfAnswer, found]
      rw [invoke_server F A found]
      cases server with
      | operator op =>
        rw [Server.methods, read_functionMethods]
        rfl
      | closure n body caps =>
        rw [Server.methods, read_functionMethods]
        rfl
      | value server =>
        rw [Server.methods, read_valueMethods]
        simp only [readValue, ValueServer.read, Except.bind, setNumberResult_value, Except.map,
          value_numberStruct, objectOfServer]

theorem invokes_all (w : WireHistory Num) : Invokes F A w := by
  induction w with
  | nil => exact ⟨fun _ _ => rfl, fun _ _ => rfl⟩
  | cons entry earlier ih =>
    obtain ⟨k, answer⟩ := entry
    constructor
    · intro id params
      by_cases here : k = id
      · subst k
        exact invoke_call_here F A ih id answer params
      · rw [invoke_other F A here, ih.call id params]
        exact (callOutcome_other A _ here _ _).symm
    · intro id params
      by_cases here : k = id
      · subst k
        exact invoke_read_here F A earlier id answer params
      · rw [invoke_other F A here, ih.read id params]
        exact (readMade_other here _ _).symm

section Sending

variable {C : Type} (l : Language)

def paramsStep (d : Draft C) (st : Step (Option C) Num) : Option (Draft C) :=
  (atTarget 0 (performAt F (setters l) st.path (place l st.write d.caps).1) d.root).map fun root =>
    ⟨root, (place l st.write d.caps).2⟩

theorem run_paramsStep (steps : List (Step (Option C) Num)) {d : Draft C} {t : Struct}
    (target : d.root.ptr 0 = .struct t) :
    run (paramsStep F l) d steps = (run (draftStep F l) ⟨t, d.caps⟩ steps).map fun e =>
      ⟨putPtr 0 (.struct e.root) d.root, e.caps⟩ := by
  induction steps generalizing d t with
  | nil =>
    rw [run, run, Option.map_some, putPtr_self (ptr_pointer target (by simp)).2]
  | cons st steps ih =>
    rw [run, run, draftStep]
    cases written : performAt F (setters l) st.path (place l st.write d.caps).1 t with
    | none => simp only [paramsStep, atTarget, target, written, Option.map_none, Option.bind_none]
    | some t' =>
      have sized : Sized 0 1 d.root := ⟨Nat.zero_le _, (ptr_pointer target (by simp)).1⟩
      have first : paramsStep F l d st =
          some ⟨putPtr 0 (.struct t') d.root, (place l st.write d.caps).2⟩ := by
        rw [paramsStep, atTarget_struct target written, Option.map_some]
      rw [first, Option.bind_some, ih (ptr_put_same sized (by decide) (.struct t')), Option.map_some,
        Option.bind_some]
      simp only [putPtr_putPtr]

def setParams : List Num → Nat → Struct → Option Struct
  | [], _, params => some params
  | v :: vs, i, params => (setParam F i v params).bind (setParams vs (i + 1))

theorem setParams_filled (vs done : List Num) {n : Nat} (total : done.length + vs.length = n) :
    setParams F vs done.length (filled F n done) = some (filled F n (done ++ vs)) := by
  induction vs generalizing done with
  | nil => rw [setParams, List.append_nil]
  | cons v vs ih =>
    rw [List.length_cons] at total
    have rest := ih (done ++ [v]) (by rw [List.length_append, List.length_singleton]; omega)
    rw [List.length_append, List.length_singleton, List.append_assoc] at rest
    rw [setParams, setParam_filled F (by omega), Option.bind_some, rest]
    rfl

def sent : Request Num → List (Step (Option (Cap Empty)) Num) → Option CallMessage
  | .getOperator op, _ =>
    (setUint16 0 op (newStruct 8 0)).map fun params =>
      ⟨none, clientMethod l .getOperator, params, []⟩
  | .defFunction paramCount _, steps =>
    ((setUint32 0 paramCount.toUInt32 (newStruct 8 1)).bind (setPtr 0 (.struct newExpression))).bind
      fun params => (run (paramsStep F l) ⟨params, []⟩ steps).map fun d =>
        ⟨none, clientMethod l .defFunction, d.root, d.caps⟩
  | .evaluate _, steps =>
    (setPtr 0 (.struct newExpression) (newStruct 0 1)).bind fun params =>
      (run (paramsStep F l) ⟨params, []⟩ steps).map fun d =>
        ⟨none, clientMethod l .evaluate, d.root, d.caps⟩
  | .read value, _ => some ⟨some value, clientMethod l .read, newStruct 0 0, []⟩
  | .call function args, _ =>
    ((newParams args.length (newStruct 0 1)).bind (setParams F args 0)).map fun params =>
      ⟨some function, clientMethod l .call, params, []⟩

def Writes : Request Num → List (Step (Option (Cap Empty)) Num) → Prop
  | .defFunction _ body, steps => Builds Eq body steps
  | .evaluate e, steps => Builds Eq e steps
  | _, steps => steps = []

theorem findMethod_calculator (l : Language) :
    findMethod calculatorMethods (clientMethod l .evaluate) = some .evaluate ∧
      findMethod calculatorMethods (clientMethod l .defFunction) = some .defFunction ∧
      findMethod calculatorMethods (clientMethod l .getOperator) = some .getOperator := by
  cases l <;> decide

theorem clientMethod_go (l : Language) (h : Handler) : clientMethod l h = goMethod h := by
  cases l <;> cases h <;> rfl

theorem body_written {e : Expression (Cap Empty) (Cap Empty) Num}
    {steps : List (Step (Option (Cap Empty)) Num)} (builds : Builds Eq e steps) {base : Struct}
    {size : Nat} (sized : Sized size 1 base) :
    ∃ root caps, run (paramsStep F l) ⟨putPtr 0 (.struct newExpression) base, []⟩ steps =
        some ⟨putPtr 0 (.struct root) base, caps⟩ ∧ view F caps root = e ∧
      ∀ c, some c ∈ caps → c ∈ e.functions ∨ c ∈ e.values := by
  have target := ptr_put_same sized (show 0 < 1 by decide) (.struct newExpression)
  obtain ⟨d, ran, seen, entries⟩ := draft_builds F l builds
    (d := ⟨newExpression, []⟩) (newStruct_sized 16 2)
  refine ⟨d.root, d.caps, ?_, seen, ?_⟩
  · rw [run_paramsStep F l steps target, ran, Option.map_some, putPtr_putPtr]
  · intro c entry
    exact (entries c entry).resolve_left (by simp)

/-- The calls that a request waits for, as its message names them. -/
def messageNames (m : CallMessage) : List Nat :=
  m.target.toList ++ m.caps.filterMap fun c => c.bind Cap.name

theorem messageNames_expression {e : CapExpression Empty Num} {m : CallMessage} {root : Struct}
    (bootstrap : m.target = none) (seen : view F m.caps root = e)
    (entries : ∀ c, some c ∈ m.caps → c ∈ e.functions ∨ c ∈ e.values) (k : Nat) :
    k ∈ messageNames m ↔ k ∈ names e := by
  rw [messageNames, bootstrap, Option.toList_none, List.nil_append, List.mem_filterMap, names_mem]
  constructor
  · rintro ⟨entry, member, name⟩
    obtain ⟨c, rfl, name⟩ := Option.bind_eq_some_iff.mp name
    cases c with
    | made id =>
      obtain rfl := Option.some.inj name
      exact entries _ member
    | hosted c => exact c.elim
  · intro occurs
    rw [← seen] at occurs
    exact ⟨some (.made k), view_caps F m.caps root (.made k) occurs, rfl⟩

/-- The server's answer to the message stands for what serving the request leaves, and
    the message waits for what the request waits for. -/
def Answers (w : WireHistory Num) (r : Request Num) (m : CallMessage) : Prop :=
  objectOfAnswer F (handle F A w m) = serve A (plainHistory F w) r ∧
    ∀ k, k ∈ messageNames m ↔ k ∈ r.names

variable (w : WireHistory Num)

theorem getOperator_sent (op : UInt16) (steps : List (Step (Option (Cap Empty)) Num)) :
    ∃ m, sent F l (.getOperator op) steps = some m ∧ Answers F A w (.getOperator op) m := by
  have sized := newStruct_sized 8 0
  have set : setUint16 0 op (newStruct 8 0) = some (putNumber 0 2 op.toNat (newStruct 8 0)) :=
    sized.setNumber (by decide) _
  have read := uint16_put_same sized (show 0 + 2 ≤ 8 by decide) op
  refine ⟨_, by rw [sent, set, Option.map_some], ?_, by simp [Request.names, messageNames]⟩
  simp only [handle, (findMethod_calculator l).2.2, handleGetOperator, read]
  rw [serve, getOperator]
  cases operators op with
  | none => rfl
  | some op => exact setCapability_object F (.operator op)

theorem defFunction_sent (n : Int32) {body : CapExpression Empty Num}
    {steps : List (Step (Option (Cap Empty)) Num)} (builds : Builds Eq body steps) :
    ∃ m, sent F l (.defFunction n body) steps = some m ∧ Answers F A w (.defFunction n body) m := by
  have sized := newStruct_sized 8 1
  have count : setUint32 0 n.toUInt32 (newStruct 8 1) =
      some (putNumber 0 4 n.toUInt32.toNat (newStruct 8 1)) := sized.setNumber (by decide) _
  have counted := sized.putNumber (show 0 + 4 ≤ 8 by decide) n.toUInt32.toNat
  have read := uint32_put_same sized (show 0 + 4 ≤ 8 by decide) n.toUInt32
  obtain ⟨root, caps, ran, seen, entries⟩ := body_written F l builds counted
  have target := ptr_put_same counted (show 0 < 1 by decide) (.struct root)
  have closure : handle F A w ⟨none, clientMethod l .defFunction, putPtr 0 (.struct root)
      (putNumber 0 4 n.toUInt32.toNat (newStruct 8 1)), caps⟩ =
      setCapability (.closure n root caps) := by
    simp only [handle, (findMethod_calculator l).2.1, handleDefFunction, target, Pointer.target]
    congr 2
    exact congrArg UInt32.toInt32 read
  refine ⟨⟨none, clientMethod l .defFunction, putPtr 0 (.struct root)
      (putNumber 0 4 n.toUInt32.toNat (newStruct 8 1)), caps⟩, ?_, ?_, ?_⟩
  · rw [sent, count, Option.bind_some, counted.setPtr (by decide), Option.bind_some, ran,
      Option.map_some]
  · rw [closure, setCapability_object, objectOfServer, seen, serve]
  · exact messageNames_expression F rfl seen entries

theorem evaluate_sent {e : CapExpression Empty Num}
    {steps : List (Step (Option (Cap Empty)) Num)} (builds : Builds Eq e steps) :
    ∃ m, sent F l (.evaluate e) steps = some m ∧ Answers F A w (.evaluate e) m := by
  have sized := newStruct_sized 0 1
  obtain ⟨root, caps, ran, seen, entries⟩ := body_written F l builds sized
  have target := ptr_put_same sized (show 0 < 1 by decide) (.struct root)
  refine ⟨⟨none, clientMethod l .evaluate, putPtr 0 (.struct root) (newStruct 0 1), caps⟩, ?_, ?_, ?_⟩
  · rw [sent, sized.setPtr (by decide), Option.bind_some, ran, Option.map_some]
  · simp only [handle, (findMethod_calculator l).1, handleEvaluate, target, Pointer.target]
    rw [evaluate_outcome F A (invokes_all F A w), seen, serve, Option.map_none]
    cases outcome A (plainHistory F w) none e with
    | error e => rfl
    | ok v => exact setCapability_object F (.value ⟨v⟩)
  · exact messageNames_expression F rfl seen entries

theorem answered_number {x : Except Error Struct} {y : Except Error Num}
    (same : x.map (value F) = y) :
    objectOfAnswer F (x.map fun root => ⟨root, []⟩) = answered y := by
  subst y
  cases x with
  | error e => rfl
  | ok root =>
    have number : promised (⟨root, []⟩ : ResultsMessage Num) = none := by
      rw [promised]
      cases root.ptr 0 <;> rfl
    simp only [Except.map, objectOfAnswer, number, answered]

theorem read_sent (id : Nat) (steps : List (Step (Option (Cap Empty)) Num)) :
    ∃ m, sent F l (.read id) steps = some m ∧ Answers F A w (.read id) m := by
  refine ⟨_, rfl, ?_, by simp [Request.names, messageNames]⟩
  simp only [handle, clientMethod_go]
  exact answered_number F ((invokes_all F A w).read id (newStruct 0 0))

theorem call_sent (id : Nat) (args : List Num) (steps : List (Step (Option (Cap Empty)) Num)) :
    ∃ m, sent F l (.call id args) steps = some m ∧ Answers F A w (.call id args) m := by
  have params := setParams_filled F args [] (Nat.zero_add args.length)
  have outcome := (invokes_all F A w).call id (filled F args.length args)
  rw [numbers_filled] at outcome
  refine ⟨⟨some id, clientMethod l .call, filled F args.length args, []⟩, ?_, ?_,
    by simp [Request.names, messageNames]⟩
  · rw [sent, newParams_filled F, Option.bind_some]
    rw [List.length_nil, List.nil_append] at params
    rw [params, Option.map_some]
  · simp only [handle, clientMethod_go]
    exact answered_number F outcome

theorem sent_answers {r : Request Num} {steps : List (Step (Option (Cap Empty)) Num)}
    (writes : Writes r steps) : ∃ m, sent F l r steps = some m ∧ Answers F A w r m := by
  cases r with
  | getOperator op => exact getOperator_sent F A l w op steps
  | defFunction n body => exact defFunction_sent F A l w n writes
  | evaluate e => exact evaluate_sent F A l w writes
  | read id => exact read_sent F A l w id steps
  | call id args => exact call_sent F A l w id args steps

end Sending

/-- A session of messages: each of them is handled at most once, and only after those
    whose answers it refers to. -/
inductive Handled (msgs : List CallMessage) : WireHistory Num → Prop where
  | start : Handled msgs []
  | handle {w : WireHistory Num} {id : Nat} {m : CallMessage} (session : Handled msgs w)
      (message : msgs[id]? = some m) (fresh : id ∉ w.map Prod.fst)
      (created : ∀ k ∈ messageNames m, k ∈ w.map Prod.fst) :
      Handled msgs ((id, CallDispatch.handle F A w m) :: w)

/-- The messages are those of the requests, each written in some language and in some
    order of its steps. -/
def Sends (reqs : List (Request Num)) (msgs : List CallMessage) : Prop :=
  List.Forall₂ (fun r m => ∃ l steps, Writes r steps ∧ sent F l r steps = some m) reqs msgs

theorem ids_plainHistory (w : WireHistory Num) : ids (plainHistory F w) = w.map Prod.fst := by
  rw [ids, plainHistory, List.map_map]
  rfl

def clientSteps : Request Num → List (Step (Option (Cap Empty)) Num)
  | .defFunction _ body => leftToRight body
  | .evaluate e => leftToRight e
  | _ => []

def Sendable : Request Num → Prop
  | .defFunction _ body => Known body
  | .evaluate e => Known e
  | _ => True

theorem clientSteps_writes {r : Request Num} (sendable : Sendable r) : Writes r (clientSteps r) := by
  cases r with
  | defFunction n body => exact leftToRight_builds sendable
  | evaluate e => exact leftToRight_builds sendable
  | _ => rfl

def clientMessages (l : Language) (reqs : List (Request Num)) : List CallMessage :=
  reqs.filterMap fun r => sent F l r (clientSteps r)

include A in
theorem clientMessages_sends (l : Language) {reqs : List (Request Num)}
    (sendable : ∀ r ∈ reqs, Sendable r) : Sends F reqs (clientMessages F l reqs) := by
  induction reqs with
  | nil => exact .nil
  | cons r reqs ih =>
    have writes := clientSteps_writes (sendable r List.mem_cons_self)
    obtain ⟨m, written, -⟩ := sent_answers F A l [] writes
    have first : clientMessages F l (r :: reqs) = m :: clientMessages F l reqs := by
      simp only [clientMessages, List.filterMap_cons, written]
    rw [first]
    exact .cons ⟨l, clientSteps r, writes, written⟩
      (ih fun r member => sendable r (List.mem_cons_of_mem _ member))

section Correspondence

variable {F A} {reqs : List (Request Num)} {msgs : List CallMessage} (sends : Sends F reqs msgs)

theorem plainHistory_handle {id : Nat} {r : Request Num} {m : CallMessage} {w : WireHistory Num}
    (answers : Answers F A w r m) : plainHistory F ((id, handle F A w m) :: w) =
      (id, serve A (plainHistory F w) r) :: plainHistory F w := by
  rw [← answers.1]
  rfl

include sends

theorem sends_request {id : Nat} {m : CallMessage} (message : msgs[id]? = some m) :
    ∃ r, reqs[id]? = some r ∧ ∀ w, Answers F A w r m := by
  induction sends generalizing id with
  | nil => simp at message
  | @cons r m' reqs msgs here _ ih =>
    cases id with
    | zero =>
      obtain rfl := Option.some.inj message
      obtain ⟨l, steps, writes, written⟩ := here
      refine ⟨r, rfl, ?_⟩
      intro w
      obtain ⟨m, written', answers⟩ := sent_answers F A l w writes
      obtain rfl := Option.some.inj (written'.symm.trans written)
      exact answers
    | succ id => exact ih message

theorem sends_message {id : Nat} {r : Request Num} (request : reqs[id]? = some r) :
    ∃ m, msgs[id]? = some m := by
  have inside : id < msgs.length := by
    rw [← List.Forall₂.length_eq sends]
    exact (List.getElem?_eq_some_iff.mp request).1
  exact ⟨msgs[id], List.getElem?_eq_getElem inside⟩

theorem handled_served {w : WireHistory Num} (session : Handled F A msgs w) :
    Served A reqs (plainHistory F w) := by
  induction session with
  | start => exact .start
  | @handle w id m session message fresh created ih =>
    obtain ⟨r, request, answers⟩ := sends_request (A := A) sends message
    rw [plainHistory_handle (answers w)]
    apply ih.serve request
    · rw [ids_plainHistory]
      exact fresh
    · intro k named
      rw [ids_plainHistory]
      exact created k (((answers w).2 k).mpr named)

theorem served_handled {h : History Empty Num} (session : Served A reqs h) :
    ∃ w, Handled F A msgs w ∧ plainHistory F w = h := by
  induction session with
  | start => exact ⟨[], .start, rfl⟩
  | @serve h id r session request fresh created ih =>
    obtain ⟨w, handled, rfl⟩ := ih
    obtain ⟨m, message⟩ := sends_message sends request
    obtain ⟨r', request', answers⟩ := sends_request (A := A) sends message
    obtain rfl := Option.some.inj (request.symm.trans request')
    rw [ids_plainHistory] at fresh created
    refine ⟨(id, handle F A w m) :: w, handled.handle message fresh ?_, plainHistory_handle (answers w)⟩
    intro k named
    exact created k (((answers w).2 k).mp named)

end Correspondence

section Sums

def words : Float64 UInt64 := ⟨id, id, fun _ => rfl⟩

def wrapping : Arithmetic UInt64 where
  zero := 0
  apply := fun op a b =>
    match op with
    | .add => a + b
    | .subtract => a - b
    | .multiply => a * b
    | .divide => a / b

def sumExpression : CapExpression Empty UInt64 :=
  .call (some (.made 0)) [.literal 2, .previousResult (some (.made 1))]

def sumRequests : List (Request UInt64) :=
  [.getOperator 0, .evaluate (.literal 3), .evaluate sumExpression, .read 2]

def sumSteps : List (Step (Option (Cap Empty)) UInt64) :=
  [⟨[], .initCall⟩, ⟨[], .setFunction (some (.made 0))⟩, ⟨[], .initParams 2⟩,
    ⟨[0], .setLiteral 2⟩, ⟨[1], .setPreviousResult (some (.made 1))⟩]

def sumStepsBackwards : List (Step (Option (Cap Empty)) UInt64) :=
  [⟨[], .initCall⟩, ⟨[], .initParams 2⟩, ⟨[1], .setPreviousResult (some (.made 1))⟩,
    ⟨[0], .setLiteral 2⟩, ⟨[], .setFunction (some (.made 0))⟩]

theorem sumSteps_builds : Builds Eq sumExpression sumSteps :=
  ⟨some (.made 0), [⟨[0], .setLiteral 2⟩, ⟨[1], .setPreviousResult (some (.made 1))⟩], rfl,
    Or.inl ⟨rfl, rfl⟩, by simp, rfl, ⟨_, rfl, rfl⟩, trivial⟩

theorem sumStepsBackwards_builds : Builds Eq sumExpression sumStepsBackwards :=
  ⟨some (.made 0), [⟨[1], .setPreviousResult (some (.made 1))⟩, ⟨[0], .setLiteral 2⟩,
    ⟨[], .setFunction (some (.made 0))⟩], rfl, Or.inr ⟨rfl, rfl⟩, by simp, rfl, ⟨_, rfl, rfl⟩, trivial⟩

def sumMessages (l : Language) (steps : List (Step (Option (Cap Empty)) UInt64)) : List CallMessage :=
  [sent words l (.getOperator 0) [], sent words l (.evaluate (.literal 3)) [⟨[], .setLiteral 3⟩],
    sent words l (.evaluate sumExpression) steps, sent words l (.read 2) []].reduceOption

theorem sumMessages_sends (l : Language) {steps : List (Step (Option (Cap Empty)) UInt64)}
    (builds : Builds Eq sumExpression steps) : Sends words sumRequests (sumMessages l steps) := by
  obtain ⟨operator, first, -⟩ := getOperator_sent words wrapping l [] 0 []
  obtain ⟨literal, second, -⟩ := evaluate_sent words wrapping l [] (e := .literal 3) rfl
  obtain ⟨sum, third, -⟩ := evaluate_sent words wrapping l [] builds
  rw [sumMessages, first, second, third]
  exact .cons ⟨l, [], rfl, first⟩ (.cons ⟨l, _, rfl, second⟩ (.cons ⟨l, steps, builds, third⟩
    (.cons ⟨l, [], rfl, rfl⟩ .nil)))

def answersTo (msgs : List CallMessage) (order : List Nat) : WireHistory UInt64 :=
  order.foldl (fun w id => (msgs[id]?.elim w fun m => (id, handle words wrapping w m) :: w)) []

theorem sum_handled : Handled words wrapping (sumMessages .ts sumSteps)
    (answersTo (sumMessages .ts sumSteps) [0, 1, 2, 3]) := by
  have operator : (sumMessages .ts sumSteps)[0]? = some _ := rfl
  have literal : (sumMessages .ts sumSteps)[1]? = some _ := rfl
  have sum : (sumMessages .ts sumSteps)[2]? = some _ := rfl
  have read : (sumMessages .ts sumSteps)[3]? = some _ := rfl
  have first := (Handled.start (F := words) (A := wrapping)).handle operator (by decide) (by decide)
  have second := first.handle literal (by decide) (by decide)
  have third := second.handle sum (by decide) (by decide)
  exact third.handle read (by decide) (by decide)

theorem sum_handled_backwards : Handled words wrapping (sumMessages .rust sumStepsBackwards)
    (answersTo (sumMessages .rust sumStepsBackwards) [1, 0, 2, 3]) := by
  have operator : (sumMessages .rust sumStepsBackwards)[0]? = some _ := rfl
  have literal : (sumMessages .rust sumStepsBackwards)[1]? = some _ := rfl
  have sum : (sumMessages .rust sumStepsBackwards)[2]? = some _ := rfl
  have read : (sumMessages .rust sumStepsBackwards)[3]? = some _ := rfl
  have first := (Handled.start (F := words) (A := wrapping)).handle literal (by decide) (by decide)
  have second := first.handle operator (by decide) (by decide)
  have third := second.handle sum (by decide) (by decide)
  exact third.handle read (by decide) (by decide)

end Sums

/-- The sessions of the messages are those of the requests that they were written from. -/
theorem message_sessions_exact {reqs : List (Request Num)} {msgs : List CallMessage}
    (sends : Sends F reqs msgs) (h : History Empty Num) :
    Served A reqs h ↔ ∃ w, Handled F A msgs w ∧ plainHistory F w = h := by
  constructor
  · intro session
    exact served_handled sends session
  · rintro ⟨w, session, rfl⟩
    exact handled_served sends session

theorem sum_session_exact :
    Served wrapping sumRequests
      (plainHistory words (answersTo (sumMessages .ts sumSteps) [0, 1, 2, 3])) :=
  (message_sessions_exact words wrapping (sumMessages_sends .ts sumSteps_builds) _).mpr
    ⟨_, sum_handled, rfl⟩

example : objectOf (plainHistory words (answersTo (sumMessages .ts sumSteps) [0, 1, 2, 3])) 3 =
    some (.number 5) := rfl

/-- Two clients that make the same requests, in whatever languages, orders of steps and
    orders of arrival, get answers that stand for the same objects. -/
theorem answers_agree_across_languages {reqs : List (Request Num)} {msgs msgs' : List CallMessage}
    (sends : Sends F reqs msgs) (sends' : Sends F reqs msgs') {w w' : WireHistory Num}
    (session : Handled F A msgs w) (session' : Handled F A msgs' w') :
    ∀ id ∈ w.map Prod.fst, id ∈ w'.map Prod.fst →
      objectOf (plainHistory F w) id = objectOf (plainHistory F w') id := by
  intro id answered answered'
  rw [← ids_plainHistory F] at answered answered'
  exact (RequestSchedules.served_agree (handled_served sends session)
    (handled_served sends' session') id answered answered').1

theorem sum_sessions_agree :
    objectOf (plainHistory words (answersTo (sumMessages .ts sumSteps) [0, 1, 2, 3])) 3 =
      objectOf (plainHistory words (answersTo (sumMessages .rust sumStepsBackwards) [1, 0, 2, 3])) 3 :=
  answers_agree_across_languages words wrapping (sumMessages_sends .ts sumSteps_builds)
    (sumMessages_sends .rust sumStepsBackwards_builds) sum_handled sum_handled_backwards 3
    (by decide) (by decide)

/-- What a client writes, the server evaluates: in every language, in every order of the
    steps and whatever the struct held before. -/
theorem written_expression_evaluates {S C : Type} (l : Language) {e : Expression C C Num}
    {steps : List (Step (Option C) Num)} (builds : Builds Eq e steps) {d : Draft C}
    (sized : Sized 16 2 d.root) :
    ∃ d', run (draftStep F l) d steps = some d' ∧
      ∀ int (rt : WireRuntime S C) callParams s,
        StructEvaluation.evaluate F d'.caps int rt callParams d'.root s =
          received id (CalculatorEvaluate.evaluate int (rt.plain F) (callParams.map (numbers F)) e s) := by
  obtain ⟨d', ran, seen, -⟩ := draft_builds F l builds sized
  refine ⟨d', ran, ?_⟩
  intro int rt callParams s
  rw [evaluate_refines, plainEvaluate, seen]

theorem sum_written_and_evaluated :
    ∃ d', run (draftStep words .rust) ⟨newExpression, []⟩ sumStepsBackwards = some d' ∧
      ∀ int (rt : WireRuntime Unit (Cap Empty)) callParams s,
        StructEvaluation.evaluate words d'.caps int rt callParams d'.root s =
          received id (CalculatorEvaluate.evaluate int (rt.plain words)
            (callParams.map (numbers words)) sumExpression s) :=
  written_expression_evaluates words .rust sumStepsBackwards_builds (newStruct_sized 16 2)

end WireSessions
