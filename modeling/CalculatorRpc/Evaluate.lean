import CalculatorRpc.Expression
import CalculatorRpc.FallibleRuns

/- `calculatorServer.evaluate` and the functions it meets. What the RPC library
   contributes is a `Runtime`: following a list pointer, starting and finishing a
   params callback, dispatching a call, reading a value. Beside it are the width of
   Go's `int` and the lists that the callbacks fill, whose indexes can be watched.
   The evaluator is the same for all of them. -/
namespace CalculatorEvaluate
open CalculatorExpression FallibleRuns

variable {S F V Num : Type}

structure Runtime (S F V Num : Type) where
  zero : Num
  -- Following the pointer to a list of that many expressions, as `ecall.Params()` does.
  params : Nat → S → Except Error Unit × S
  -- Following the pointer to a list of that many numbers, as `callParams.Params()` does.
  arguments : Nat → S → Except Error Unit × S
  -- A call was started and its params callback begins.
  enter : F → S → S
  -- The params callback is over, with or without an error.
  leave : F → S → S
  call : F → List Num → S → Except Error Num × S
  read : V → S → Except Error Num × S

/-- Go's `int(pr)` on a platform with 64-bit integers. -/
def int64 (pr : UInt32) : Int := pr.toNat

/-- `l.At(i)`, which panics outside the list. -/
def listAt (l : List Num) (i : Int) : Except Error Num :=
  if 0 ≤ i then
    match l[i.toNat]? with
    | some v => .ok v
    | none => .error .indexOutOfRange
  else .error .indexOutOfRange

def listSet (l : List Num) (i : Nat) (val : Num) : Except Error (List Num) :=
  if i < l.length then .ok (l.set i val) else .error .indexOutOfRange

inductive Access where
  -- The guard of a parameter node let `l.At(index)` through, or returned its error.
  | parameter (pr : UInt32) (len : Nat) (index : Option Int)
  | cparamsAt (i len : Nat)
  | pparamsSet (i len : Nat)
  deriving DecidableEq

def Access.Safe : Access → Prop
  | .parameter pr len index =>
    (∀ i, index = some i → 0 ≤ i ∧ i < len) ∧ (len ≤ pr.toNat → index = none)
  | .cparamsAt i len => i < len
  | .pparamsSet i len => i < len

/-- The lists that `params.NewParams` makes, and what is seen of the indexes. -/
structure Lists (S Num : Type) where
  newParams : Nat → List Num
  note : Access → S → S

def plainLists (zero : Num) : Lists S Num := ⟨fun len => List.replicate len zero, fun _ s => s⟩

mutual
def evaluateWith (lists : Lists S Num) (int : UInt32 → Int) (rt : Runtime S F V Num)
    (callParams : Option (List Num)) : Expression F V Num → S → Except Error Num × S
  | .literal value, s => (.ok value, s)
  | .previousResult none, s => (.error .nullClient, s)
  | .previousResult (some pr), s => rt.read pr s
  | .parameter pr, s =>
    match callParams with
    | none => (.error (.outsideFunction pr), s)
    | some l =>
      match rt.arguments l.length s with
      | (.error e, s) => (.error e, s)
      | (.ok _, s) =>
        if (l.length : Int) ≤ int pr then
          (.error (.missingParameter pr l.length), lists.note (.parameter pr l.length none) s)
        else (listAt l (int pr), lists.note (.parameter pr l.length (some (int pr))) s)
  | .call none _, s => (.error .nullClient, s)
  | .call (some f) cparams, s =>
    -- The params callback runs before the call is dispatched, and its error ends the call.
    match rt.params cparams.length (rt.enter f s) with
    | (.error e, s) => (.error e, rt.leave f s)
    | (.ok _, s) =>
      match evaluateParamsWith lists int rt callParams cparams.length cparams 0
          (lists.newParams cparams.length) s with
      | (.error e, s) => (.error e, rt.leave f s)
      | (.ok pparams, s) => rt.call f pparams (rt.leave f s)
  | .unknown which, s => (.error (.unknownExpression which), s)

/-- The loop of the params callback from index `i` on; `cparams.At(i)` is the first
    of the remaining parameters. -/
def evaluateParamsWith (lists : Lists S Num) (int : UInt32 → Int) (rt : Runtime S F V Num)
    (callParams : Option (List Num)) (len : Nat) :
    List (Expression F V Num) → Nat → List Num → S → Except Error (List Num) × S
  | [], _, pparams, s => (.ok pparams, s)
  | cparam :: rest, i, pparams, s =>
    match evaluateWith lists int rt callParams cparam (lists.note (.cparamsAt i len) s) with
    | (.error e, s) => (.error e, s)
    | (.ok val, s) =>
      match listSet pparams i val with
      | .error e => (.error e, lists.note (.pparamsSet i pparams.length) s)
      | .ok filled => evaluateParamsWith lists int rt callParams len rest (i + 1) filled
          (lists.note (.pparamsSet i pparams.length) s)
end

def evaluate (int : UInt32 → Int) (rt : Runtime S F V Num) (callParams : Option (List Num))
    (e : Expression F V Num) (s : S) : Except Error Num × S :=
  evaluateWith (plainLists rt.zero) int rt callParams e s

def callDefinedWith (lists : Lists S Num) (int : UInt32 → Int) (rt : Runtime S F V Num)
    (defParamCount : Int32) (defBody : Expression F V Num) (args : List Num) (s : S) :
    Except Error Num × S :=
  match rt.arguments args.length s with
  | (.error e, s) => (.error e, s)
  | (.ok _, s) =>
    if (args.length : Int) ≠ defParamCount.toInt then
      (.error (.wrongArguments defParamCount.toInt args.length), s)
    else evaluateWith lists int rt (some args) defBody s

def callDefined (int : UInt32 → Int) (rt : Runtime S F V Num) (defParamCount : Int32)
    (defBody : Expression F V Num) (args : List Num) (s : S) : Except Error Num × S :=
  callDefinedWith (plainLists rt.zero) int rt defParamCount defBody args s

def makeOperator (arguments : Nat → S → Except Error Unit × S) (f : Num → Num → Num)
    (args : List Num) (s : S) : Except Error Num × S :=
  match arguments args.length s with
  | (.error e, s) => (.error e, s)
  | (.ok _, s) =>
    match args with
    | [a, b] => (.ok (f a b), s)
    | _ => (.error (.wrongArguments 2 args.length), s)

theorem listSet_inside {l : List Num} {i : Nat} (inside : i < l.length) (val : Num) :
    listSet l i val = .ok (l.set i val) := if_pos inside

theorem listAt_int64 (l : List Num) (pr : UInt32) :
    (if (l.length : Int) ≤ int64 pr then Except.error (.missingParameter pr l.length)
      else listAt l (int64 pr)) =
      match l[pr.toNat]? with
      | some v => .ok v
      | none => .error (.missingParameter pr l.length) := by
  simp only [int64, Int.ofNat_le]
  by_cases outside : l.length ≤ pr.toNat
  · rw [if_pos outside, List.getElem?_eq_none outside]
  · have inside : pr.toNat < l.length := by omega
    rw [if_neg outside, List.getElem?_eq_getElem inside, listAt, if_pos (by omega), Int.toNat_natCast,
      List.getElem?_eq_getElem inside]

section Steps

variable (lists : Lists S Num) (int : UInt32 → Int) (rt : Runtime S F V Num)
  (callParams : Option (List Num))

def guarded (int : UInt32 → Int) (pr : UInt32) (len : Nat) : Access :=
  .parameter pr len (if (len : Int) ≤ int pr then none else some (int pr))

theorem evaluateWith_parameter (l : List Num) (pr : UInt32) :
    evaluateWith lists int rt (some l) (.parameter pr) =
      andThen (rt.arguments l.length) (fun _ s =>
        (if (l.length : Int) ≤ int pr then .error (.missingParameter pr l.length)
          else listAt l (int pr), lists.note (guarded int pr l.length) s)) := by
  funext s
  rw [evaluateWith]
  unfold andThen
  cases rt.arguments l.length s with
  | mk r s' =>
    cases r with
    | error e => rfl
    | ok u =>
      simp only [guarded]
      split <;> rfl

theorem evaluateWith_call (f : F) (ps : List (Expression F V Num)) :
    evaluateWith lists int rt callParams (.call (some f) ps) =
      andThen (bracket (rt.enter f) (rt.leave f) (andThen (rt.params ps.length) (fun _ =>
        evaluateParamsWith lists int rt callParams ps.length ps 0 (lists.newParams ps.length))))
        (rt.call f) := by
  funext s
  rw [evaluateWith]
  simp only [andThen, bracket]
  cases rt.params ps.length (rt.enter f s) with
  | mk r s' =>
    cases r with
    | error e => rfl
    | ok u =>
      simp only
      cases evaluateParamsWith lists int rt callParams ps.length ps 0 (lists.newParams ps.length) s' with
      | mk r' s'' => cases r' <;> rfl

theorem evaluateParamsWith_cons (len : Nat) (p : Expression F V Num) (ps : List (Expression F V Num))
    {i : Nat} {pparams : List Num} (inside : i < pparams.length) :
    evaluateParamsWith lists int rt callParams len (p :: ps) i pparams =
      andThen (fun s => evaluateWith lists int rt callParams p (lists.note (.cparamsAt i len) s))
        (fun val s => evaluateParamsWith lists int rt callParams len ps (i + 1) (pparams.set i val)
          (lists.note (.pparamsSet i pparams.length) s)) := by
  funext s
  rw [evaluateParamsWith]
  simp only [andThen]
  cases evaluateWith lists int rt callParams p (lists.note (.cparamsAt i len) s) with
  | mk r s' =>
    cases r with
    | error e => rfl
    | ok val => simp only [listSet_inside inside]

theorem callDefinedWith_andThen (n : Int32) (body : Expression F V Num) (args : List Num) :
    callDefinedWith lists int rt n body args =
      andThen (rt.arguments args.length) (fun _ s =>
        if (args.length : Int) ≠ n.toInt then (.error (.wrongArguments n.toInt args.length), s)
        else evaluateWith lists int rt (some args) body s) := by
  funext s
  unfold callDefinedWith andThen
  cases rt.arguments args.length s with
  | mk r s' => cases r <;> rfl

/-- The callback's loop fills the list from the left and always stays inside it,
    so it is a traversal of the parameters. -/
theorem evaluateParams_runAll (len : Nat) (ps : List (Expression F V Num)) (i : Nat)
    (pparams : List Num) (sized : pparams.length = i + ps.length) :
    evaluateParamsWith (plainLists rt.zero) int rt callParams len ps i pparams =
      andThen (runAll (evaluate int rt callParams) ps)
        (fun vs s => (.ok (pparams.take i ++ vs), s)) := by
  induction ps generalizing i pparams with
  | nil =>
    have all : pparams.take i = pparams := List.take_of_length_le (by simp at sized; omega)
    funext s
    simp only [evaluateParamsWith, andThen, runAll, all, List.append_nil]
  | cons p ps ih =>
    rw [List.length_cons] at sized
    have inside : i < pparams.length := by omega
    have grown : ∀ v, (pparams.set i v).take (i + 1) = pparams.take i ++ [v] := by
      intro v
      rw [List.take_add_one, List.take_set_of_le (Nat.le_refl i), List.getElem?_set_self inside]
      rfl
    have rest := fun v => ih (i + 1) (pparams.set i v) (by rw [List.length_set]; omega)
    rw [evaluateParamsWith_cons _ int rt callParams len p ps inside, runAll_cons, andThen_assoc]
    congr 1
    funext v
    rw [andThen_assoc]
    refine (rest v).trans ?_
    simp only [grown, List.append_assoc, List.singleton_append]
    rfl

theorem evaluate_call_andThen (f : F) (ps : List (Expression F V Num)) :
    evaluate int rt callParams (.call (some f) ps) =
      andThen (bracket (rt.enter f) (rt.leave f) (andThen (rt.params ps.length) (fun _ =>
        runAll (evaluate int rt callParams) ps))) (rt.call f) := by
  have filled := evaluateParams_runAll int rt callParams ps.length ps 0
    (List.replicate ps.length rt.zero) (by simp)
  simp only [List.take_zero, List.nil_append, andThen_answer] at filled
  exact (evaluateWith_call _ int rt callParams f ps).trans (by rw [← filled]; rfl)

theorem evaluate_call (f : F) (ps : List (Expression F V Num)) (s : S) :
    evaluate int rt callParams (.call (some f) ps) s =
      match rt.params ps.length (rt.enter f s) with
      | (.error e, s) => (.error e, rt.leave f s)
      | (.ok _, s) =>
        match runAll (evaluate int rt callParams) ps s with
        | (.error e, s) => (.error e, rt.leave f s)
        | (.ok vs, s) => rt.call f vs (rt.leave f s) := by
  rw [evaluate_call_andThen]
  simp only [andThen, bracket]
  cases rt.params ps.length (rt.enter f s) with
  | mk r s' =>
    cases r with
    | error e => rfl
    | ok u =>
      simp only
      cases runAll (evaluate int rt callParams) ps s' with
      | mk r' s'' => cases r' <;> rfl

end Steps

theorem evaluate_parameter (rt : Runtime S F V Num) (l : List Num) (pr : UInt32) :
    evaluate int64 rt (some l) (.parameter pr) =
      andThen (rt.arguments l.length) (fun _ s =>
        (match l[pr.toNat]? with
          | some v => .ok v
          | none => .error (.missingParameter pr l.length), s)) := by
  simp only [← listAt_int64]
  exact evaluateWith_parameter _ int64 rt l pr

theorem callDefined_andThen (int : UInt32 → Int) (rt : Runtime S F V Num) (n : Int32)
    (body : Expression F V Num) (args : List Num) :
    callDefined int rt n body args =
      andThen (rt.arguments args.length) (fun _ s =>
        if (args.length : Int) ≠ n.toInt then (.error (.wrongArguments n.toInt args.length), s)
        else evaluate int rt (some args) body s) :=
  callDefinedWith_andThen _ int rt n body args

theorem makeOperator_andThen (arguments : Nat → S → Except Error Unit × S) (f : Num → Num → Num)
    (args : List Num) :
    makeOperator arguments f args =
      andThen (arguments args.length) (fun _ s =>
        (match args with
          | [a, b] => .ok (f a b)
          | _ => .error (.wrongArguments 2 args.length), s)) := by
  funext s
  unfold makeOperator andThen
  cases arguments args.length s with
  | mk r s' =>
    cases r with
    | error e => rfl
    | ok u => rcases args with _ | ⟨a, _ | ⟨b, _ | ⟨c, rest⟩⟩⟩ <;> rfl

theorem evaluate_congr {rt rt' : Runtime S F V Num} (int : UInt32 → Int)
    (params : rt.params = rt'.params) (arguments : rt.arguments = rt'.arguments)
    (enter : rt.enter = rt'.enter) (leave : rt.leave = rt'.leave)
    (callParams : Option (List Num)) (e : Expression F V Num)
    (calls : ∀ f ∈ e.functions, rt.call f = rt'.call f)
    (reads : ∀ v ∈ e.values, rt.read v = rt'.read v) :
    evaluate int rt callParams e = evaluate int rt' callParams e := by
  induction e with
  | literal v => rfl
  | previousResult v =>
    funext s
    cases v with
    | none => rfl
    | some v => simp only [evaluate, evaluateWith, reads v (by simp [Expression.values])]
  | parameter i =>
    cases callParams with
    | none => rfl
    | some l =>
      have first := evaluateWith_parameter (plainLists rt.zero) int rt l i
      rw [arguments] at first
      exact first.trans (evaluateWith_parameter (plainLists rt'.zero) int rt' l i).symm
  | call f ps ih =>
    funext s
    cases f with
    | none => rfl
    | some f =>
      have same : runAll (evaluate int rt callParams) ps = runAll (evaluate int rt' callParams) ps := by
        apply runAll_congr
        intro p hp
        apply ih p hp
        · intro g hg
          exact calls g (functions_call.mpr (Or.inr ⟨p, hp, hg⟩))
        · intro v hv
          exact reads v (values_call.mpr ⟨p, hp, hv⟩)
      rw [evaluate_call, evaluate_call, same, params, enter, leave,
        calls f (by simp [Expression.functions])]
  | unknown w => rfl

end CalculatorEvaluate
