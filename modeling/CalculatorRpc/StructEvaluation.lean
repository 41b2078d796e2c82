import CalculatorRpc.ExpressionAccessors
import CalculatorRpc.Evaluate

/- `calculatorServer.evaluate` on the structs of a message. It switches on the tag
   and then uses getters that panic on any other tag; calls and reads pass structs
   too. Here it is shown to be the evaluator of expressions. -/
namespace StructEvaluation
open CalculatorExpression CalculatorEvaluate FallibleRuns MessageStructs ExpressionAccessors

variable {S C Num : Type}

inductive Fault where
  | panic (text : String)
  | error (e : Error)

def value (F : Float64 Num) (s : Struct) : Num := F.frombits (s.uint64 0)

def setValue (F : Float64 Num) (v : Num) : Struct → Option Struct := setUint64 0 (F.bits v)

def newFloat64List (n : Nat) : Pointer := .list n (fun _ => newStruct 8 0)

def float64List (F : Float64 Num) (p : Pointer) : List Num := p.elements.map (value F)

def numbers (F : Float64 Num) (params : Struct) : List Num := float64List F (params.ptr 0)

def newParams (n : Nat) : Struct → Option Struct := setPtr 0 (newFloat64List n)

def setParam (F : Float64 Num) (i : Nat) (val : Num) : Struct → Option Struct :=
  atElement 0 i (setValue F val)

/-- What the RPC library contributes where calls carry structs. -/
structure WireRuntime (S C : Type) where
  params : Nat → S → Except Error Unit × S
  arguments : Nat → S → Except Error Unit × S
  enter : C → S → S
  leave : C → S → S
  call : C → Struct → S → Except Error Struct × S
  read : C → S → Except Error Struct × S

def received {α β : Type} (f : α → β) : Except Error α × S → Except Fault β × S
  | (.error e, s) => (.error (.error e), s)
  | (.ok a, s) => (.ok (f a), s)

def got {α β : Type} (s : S) (f : α → Except Fault β × S) : Except String α → Except Fault β × S
  | .error text => (.error (.panic text), s)
  | .ok a => f a

def wrote {α : Type} (s : S) : Option α → Except Fault α × S
  | none => (.error (.panic "capnp: set field outside struct boundaries"), s)
  | some a => (.ok a, s)

/-- `for i := 0; i < n; i++` with an early return, from index `i` on with `n` rounds left. -/
def loopFrom {A E : Type} (body : Nat → A → S → Except E A × S) : Nat → Nat → A → S → Except E A × S
  | _, 0, a, s => (.ok a, s)
  | i, n + 1, a, s =>
    match body i a s with
    | (.error e, s) => (.error e, s)
    | (.ok a, s) => loopFrom body (i + 1) n a s

def evaluateParameter (F : Float64 Num) (int : UInt32 → Int) (rt : WireRuntime S C)
    (callParams : Option Struct) (pr : UInt32) (s : S) : Except Fault Num × S :=
  match callParams with
  | none => (.error (.error (.outsideFunction pr)), s)
  | some params =>
    match rt.arguments (numbers F params).length s with
    | (.error e, s) => (.error (.error e), s)
    | (.ok _, s) =>
      if ((numbers F params).length : Int) ≤ int pr then
        (.error (.error (.missingParameter pr (numbers F params).length)), s)
      else received id (listAt (numbers F params) (int pr), s)

def evaluateCall (F : Float64 Num) (rt : WireRuntime S C) (function : Option C) (n : Nat)
    (fill : Struct → S → Except Fault Struct × S) (s : S) : Except Fault Num × S :=
  match function with
  | none => (.error (.error .nullClient), s)
  | some f =>
    match rt.params n (rt.enter f s) with
    | (.error e, s) => (.error (.error e), rt.leave f s)
    | (.ok _, s) =>
      match andThen (fun s => wrote s (newParams n (newStruct 0 1))) fill s with
      | (.error e, s) => (.error e, rt.leave f s)
      | (.ok params, s) => received (value F) (rt.call f params (rt.leave f s))

def setEvaluated (F : Float64 Num) (eval : Nat → S → Except Fault Num × S) (i : Nat) (params : Struct)
    (s : S) : Except Fault Struct × S :=
  match eval i s with
  | (.error e, s) => (.error e, s)
  | (.ok val, s) => wrote s (setParam F i val params)

def evaluateNode (F : Float64 Num) (caps : CapTable C) (int : UInt32 → Int) (rt : WireRuntime S C)
    (callParams : Option Struct) (expr : Struct) (fill : Struct → S → Except Fault Struct × S) (s : S) :
    Except Fault Num × S :=
  switch expr
    (got s (fun v => (.ok v, s)) (literal F expr))
    (got s (fun pr => pr.elim (.error (.error .nullClient), s) fun pr =>
      received (value F) (rt.read pr s)) (previousResult caps expr))
    (got s (fun pr => evaluateParameter F int rt callParams pr s) (parameter expr))
    (evaluateCall F rt (callFunction caps expr) (ExpressionAccessors.callParams expr).elements.length
      fill s)
    (fun which => (.error (.error (.unknownExpression which)), s))

mutual
def evaluate (F : Float64 Num) (caps : CapTable C) (int : UInt32 → Int) (rt : WireRuntime S C)
    (callParams : Option Struct) : Struct → S → Except Fault Num × S
  | .mk data count pointer, s =>
    evaluateNode F caps int rt callParams (.mk data count pointer)
      (fun params s =>
        if 1 < count then evaluateParams F caps int rt callParams (pointer 1) params s
        else (.ok params, s)) s

def evaluateParams (F : Float64 Num) (caps : CapTable C) (int : UInt32 → Int) (rt : WireRuntime S C)
    (callParams : Option Struct) : Pointer → Struct → S → Except Fault Struct × S
  | .list length element, params, s =>
    loopFrom (setEvaluated F fun i s => evaluate F caps int rt callParams (element i) s) 0 length
      params s
  | _, params, s => (.ok params, s)
end

def numberStruct (F : Float64 Num) (v : Num) : Struct :=
  putNumber 0 8 (F.bits v).toNat (newStruct 8 0)

def slots (F : Float64 Num) (vs : List Num) (i : Nat) : Struct :=
  match vs[i]? with
  | some v => numberStruct F v
  | none => newStruct 8 0

def filled (F : Float64 Num) (n : Nat) (vs : List Num) : Struct :=
  .mk [] 1 fun k => if k = 0 then .list n (slots F vs) else .null

/-- The runtime of the evaluator of expressions that a runtime for structs amounts to. -/
def WireRuntime.plain (F : Float64 Num) (rt : WireRuntime S C) : Runtime S C C Num where
  zero := F.frombits 0
  params := rt.params
  arguments := rt.arguments
  enter := rt.enter
  leave := rt.leave
  call := fun f args s =>
    match rt.call f (filled F args.length args) s with
    | (.error e, s) => (.error e, s)
    | (.ok results, s) => (.ok (value F results), s)
  read := fun v s =>
    match rt.read v s with
    | (.error e, s) => (.error e, s)
    | (.ok results, s) => (.ok (value F results), s)

theorem plain_call (F : Float64 Num) (rt : WireRuntime S C) (f : C) (args : List Num) (s : S) :
    (rt.plain F).call f args s = ((rt.call f (filled F args.length args) s).1.map (value F),
      (rt.call f (filled F args.length args) s).2) := by
  simp only [WireRuntime.plain]
  cases rt.call f (filled F args.length args) s with
  | mk r s' => cases r <;> rfl

theorem plain_read (F : Float64 Num) (rt : WireRuntime S C) (v : C) (s : S) :
    (rt.plain F).read v s = ((rt.read v s).1.map (value F), (rt.read v s).2) := by
  simp only [WireRuntime.plain]
  cases rt.read v s with
  | mk r s' => cases r <;> rfl

theorem setValue_new (F : Float64 Num) (v : Num) :
    setValue F v (newStruct 8 0) = some (numberStruct F v) :=
  (newStruct_sized 8 0).setNumber (show 0 + 8 ≤ 8 by decide) _

theorem value_numberStruct (F : Float64 Num) (v : Num) : value F (numberStruct F v) = v := by
  have bits : (numberStruct F v).uint64 0 = F.bits v :=
    uint64_put_same (newStruct_sized 8 0) (by decide) (F.bits v)
  rw [value, bits, F.frombits_bits]

theorem newParams_filled (F : Float64 Num) (n : Nat) :
    newParams n (newStruct 0 1) = some (filled F n []) := by
  have sized := newStruct_sized 0 1
  rw [newParams, sized.setPtr (by decide)]
  rfl

theorem slots_append (F : Float64 Num) (vs : List Num) (v : Num) :
    replace (slots F vs) vs.length (numberStruct F v) = slots F (vs ++ [v]) := by
  funext i
  unfold replace slots
  by_cases last : i = vs.length
  · rw [if_pos last, last, List.getElem?_concat_length]
  · rw [if_neg last]
    by_cases before : i < vs.length
    · rw [List.getElem?_append_left before]
    · rw [List.getElem?_eq_none (by omega), List.getElem?_eq_none (by simp; omega)]

theorem setParam_filled (F : Float64 Num) {n : Nat} {vs : List Num} (inside : vs.length < n) (v : Num) :
    setParam F vs.length v (filled F n vs) = some (filled F n (vs ++ [v])) := by
  have list : (filled F n vs).ptr 0 = .list n (slots F vs) := rfl
  have fresh : slots F vs vs.length = newStruct 8 0 := by
    rw [slots, List.getElem?_eq_none (Nat.le_refl _)]
  have written : setValue F v (slots F vs vs.length) = some (numberStruct F v) := by
    rw [fresh, setValue_new]
  have same : putPtr 0 (.list n (slots F (vs ++ [v]))) (filled F n vs) = filled F n (vs ++ [v]) := by
    rw [putPtr, filled, filled]
    congr 1
    funext k
    by_cases here : k = 0
    · rw [if_pos here, if_pos here]
    · rw [if_neg here, if_neg here, Struct.pointer, if_neg here]
  rw [setParam, atElement_list list inside written, slots_append, same]

theorem getMember_same {α : Type} {tag : UInt16} {s : Struct} (same : which s = tag) (name : String)
    (v : α) : getMember tag name v s = .ok v := if_neg (not_not.mpr same)

section Refinement

variable (F : Float64 Num) (caps : CapTable C) (int : UInt32 → Int) (rt : WireRuntime S C)
variable (callParams : Option Struct)

theorem evaluate_node (expr : Struct) (s : S) :
    evaluate F caps int rt callParams expr s = evaluateNode F caps int rt callParams expr
      (evaluateParams F caps int rt callParams (ExpressionAccessors.callParams expr)) s := by
  obtain ⟨data, count, pointer⟩ := expr
  rw [evaluate]
  congr 1
  funext params s
  rw [ExpressionAccessors.callParams, Struct.ptr, Struct.pointerCount, Struct.pointer]
  split
  · rfl
  · rfl

def plainEvaluate (expr : Struct) : S → Except Error Num × S :=
  CalculatorEvaluate.evaluate int (rt.plain F) (callParams.map (numbers F)) (view F caps expr)

theorem loop_filled {element : Nat → Struct} {n : Nat}
    (each : ∀ i s, evaluate F caps int rt callParams (element i) s =
      received id (plainEvaluate F caps int rt callParams (element i) s))
    (left i : Nat) (vs : List Num) (s : S) (sofar : vs.length = i) (total : i + left = n) :
    loopFrom (setEvaluated F fun i s => evaluate F caps int rt callParams (element i) s) i left
      (filled F n vs) s =
    received (fun ws => filled F n (vs ++ ws))
      (runAll (plainEvaluate F caps int rt callParams) ((List.range' i left).map element) s) := by
  induction left generalizing i vs s with
  | zero => simp only [loopFrom, List.range'_zero, List.map_nil, runAll, received, List.append_nil]
  | succ left ih =>
    rw [List.range'_succ, List.map_cons, loopFrom]
    have here := each i s
    cases head : plainEvaluate F caps int rt callParams (element i) s with
    | mk r s' =>
      rw [head] at here
      cases r with
      | error e =>
        have stop : setEvaluated F (fun i s => evaluate F caps int rt callParams (element i) s) i
            (filled F n vs) s = (.error (.error e), s') := by rw [setEvaluated, here]; rfl
        rw [runAll_cons_error head, stop]
        rfl
      | ok v =>
        have next : setParam F i v (filled F n vs) = some (filled F n (vs ++ [v])) := by
          rw [← sofar]
          exact setParam_filled F (by omega) v
        have go : setEvaluated F (fun i s => evaluate F caps int rt callParams (element i) s) i
            (filled F n vs) s = (.ok (filled F n (vs ++ [v])), s') := by
          simp only [setEvaluated, here, received, id, next, wrote]
        rw [runAll_cons_ok head, go]
        simp only
        rw [ih (i + 1) (vs ++ [v]) s' (by simp [sofar]) (by omega)]
        cases runAll (plainEvaluate F caps int rt callParams)
            ((List.range' (i + 1) left).map element) s' with
        | mk r'' s'' =>
          cases r'' with
          | error e => rfl
          | ok ws => simp [received, Except.map]

theorem params_filled {p : Pointer}
    (each : ∀ length element, p = .list length element → ∀ i s,
      evaluate F caps int rt callParams (element i) s =
        received id (plainEvaluate F caps int rt callParams (element i) s)) (s : S) :
    evaluateParams F caps int rt callParams p (filled F p.elements.length []) s =
      received (filled F p.elements.length)
        (runAll (plainEvaluate F caps int rt callParams) p.elements s) := by
  cases p with
  | list length element =>
    have loop := loop_filled F caps int rt callParams (each length element rfl) length 0 [] s rfl
      (Nat.zero_add length)
    simp only [List.nil_append] at loop
    rw [evaluateParams, Pointer.elements, List.length_map, List.length_range, loop,
      List.range_eq_range']
  | _ => rfl

theorem received_plain (f : Struct → Num) (x : Except Error Struct × S) :
    received f x = received id
      (match x with
        | (.error e, s) => (.error e, s)
        | (.ok results, s) => (.ok (f results), s)) := by
  obtain ⟨r, s⟩ := x
  cases r <;> rfl

theorem parameter_refines (pr : UInt32) (s : S) :
    evaluateParameter F int rt callParams pr s = received id
      (CalculatorEvaluate.evaluate int (rt.plain F) (callParams.map (numbers F)) (.parameter pr) s) := by
  cases callParams with
  | none => rfl
  | some params =>
    rw [Option.map_some, evaluateParameter, CalculatorEvaluate.evaluate, CalculatorEvaluate.evaluateWith]
    simp only [WireRuntime.plain]
    cases rt.arguments (numbers F params).length s with
    | mk r s' =>
      cases r with
      | error e => rfl
      | ok u =>
        simp only
        split <;> rfl

theorem call_refines (f : Option C) (p : Pointer)
    (each : ∀ length element, p = .list length element → ∀ i s,
      evaluate F caps int rt callParams (element i) s =
        received id (plainEvaluate F caps int rt callParams (element i) s)) (s : S) :
    evaluateCall F rt f p.elements.length (evaluateParams F caps int rt callParams p) s = received id
      (CalculatorEvaluate.evaluate int (rt.plain F) (callParams.map (numbers F))
        (.call f (p.elements.map (view F caps))) s) := by
  cases f with
  | none => rfl
  | some f =>
    rw [evaluate_call, evaluateCall, List.length_map]
    have follow : (rt.plain F).params = rt.params := rfl
    have enter : (rt.plain F).enter = rt.enter := rfl
    rw [follow, enter]
    cases rt.params p.elements.length (rt.enter f s) with
    | mk r s' =>
      cases r with
      | error e => rfl
      | ok u =>
        have params : andThen (fun s => wrote s (newParams p.elements.length (newStruct 0 1)))
            (evaluateParams F caps int rt callParams p) s' =
            received (filled F p.elements.length)
              (runAll (plainEvaluate F caps int rt callParams) p.elements s') := by
          rw [← params_filled F caps int rt callParams each s', andThen, newParams_filled F]
          rfl
        have list : runAll (CalculatorEvaluate.evaluate int (rt.plain F) (callParams.map (numbers F)))
            (p.elements.map (view F caps)) s' =
            runAll (plainEvaluate F caps int rt callParams) p.elements s' := by
          rw [runAll_map]
          rfl
        simp only [params, list]
        cases ran : runAll (plainEvaluate F caps int rt callParams) p.elements s' with
        | mk r'' s'' =>
          cases r'' with
          | error e => rfl
          | ok vs =>
            have length := runAll_length (congrArg Prod.fst ran)
            simp only [received]
            rw [← length]
            exact received_plain (value F) (rt.call f (filled F vs.length vs) (rt.leave f s''))

theorem evaluate_refines (expr : Struct) : ∀ s,
    evaluate F caps int rt callParams expr s =
      received id (plainEvaluate F caps int rt callParams expr s) := by
  induction expr using Struct.ind with
  | step expr _ lists =>
  intro s
  rw [evaluate_node, evaluateNode, plainEvaluate]
  rcases tag_cases expr with tag | tag | tag | tag | tag
  · rw [switch_literal tag, view_literal F caps tag, literal, getMember_same tag]
    rfl
  · rw [switch_previousResult tag, view_previousResult F caps tag, previousResult, getMember_same tag]
    cases client caps (expr.ptr 0) with
    | none => rfl
    | some pr => exact received_plain (value F) (rt.read pr s)
  · rw [switch_parameter tag, view_parameter F caps tag, parameter, getMember_same tag]
    exact parameter_refines F int rt callParams (expr.uint32 0) s
  · rw [switch_call tag, view_call F caps tag]
    apply call_refines
    intro length element eq i s
    have inside := (ptr_pointer eq (by simp)).2
    exact lists 1 length element inside i s
  · rw [switch_unknown tag, view_unknown F caps tag]
    rfl

/-- However a message is made, its evaluation is that of the expression in it, and neither
    a getter of the wrong member nor a write outside a struct or a list happens on the
    way. -/
theorem any_struct_evaluates (expr : Struct) (s : S) :
    evaluate F caps int rt callParams expr s =
        received id (CalculatorEvaluate.evaluate int (rt.plain F) (callParams.map (numbers F))
          (view F caps expr) s) ∧
      ∀ text s', evaluate F caps int rt callParams expr s ≠ (.error (.panic text), s') := by
  have refines := evaluate_refines F caps int rt callParams expr s
  refine ⟨refines, ?_⟩
  intro text s' panics
  rw [refines] at panics
  cases outcome : plainEvaluate F caps int rt callParams expr s with
  | mk r t => cases r <;> simp [outcome, received] at panics

end Refinement

end StructEvaluation
