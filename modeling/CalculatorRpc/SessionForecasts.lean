import CalculatorRpc.LogForecasts
import CalculatorRpc.StaticForm

/- What evaluation in a session can note, read off the expression and the functions
   that the session has defined. The forecast follows the evaluator node by node; what
   a parameter, a read of a peer's value and a callback for a peer contribute is left
   open, and so are the messages and the peers. -/
namespace SessionForecasts
open CalculatorExpression CalculatorEvaluate CalculatorSession FallibleRuns LogForecasts StaticForm

variable {S T L K H F V Num : Type}

structure Sites (H K : Type) where
  -- A parameter that is looked up in a list of so many arguments.
  parameter : Nat → UInt32 → Forecast K
  read : H → Forecast K
  callback : H → Forecast K → Forecast K

def Sites.around (sites : Sites H K) : Cap H → Forecast K → Forecast K
  | .made _, o => o
  | .hosted c, o => sites.callback c o

mutual
def expressionForecast (sites : Sites H K) (function : Cap H → Nat → Forecast K)
    (readable : Cap H → Prop) (context : Option Nat) : CapExpression H Num → Forecast K
  | .literal _ => .silent True
  | .previousResult none => .silent False
  | .previousResult (some (.made id)) => .silent (readable (.made id))
  | .previousResult (some (.hosted c)) => sites.read c
  | .parameter pr => context.elim (.silent False) fun m => sites.parameter m pr
  | .call none _ => .silent False
  | .call (some f) ps =>
    (sites.around f (paramsForecast sites function readable context ps)).andThen (function f ps.length)
  | .unknown _ => .silent False

def paramsForecast (sites : Sites H K) (function : Cap H → Nat → Forecast K)
    (readable : Cap H → Prop) (context : Option Nat) : List (CapExpression H Num) → Forecast K
  | [] => .silent True
  | p :: ps => (expressionForecast sites function readable context p).andThen
      (paramsForecast sites function readable context ps)
end

/-- A call with `m` arguments, after its callback. What a peer does with a call
    of its own function is not done by this server. -/
def functionForecast (sites : Sites H K) : History H Num → Cap H → Nat → Forecast K
  | _, .hosted _, _ => .silent True
  | [], .made _, _ => .silent False
  | (k, obj) :: earlier, .made id, m =>
    if k = id then
      match obj with
      | .operator _ => .silent (m = 2)
      | .defined paramCount body => (Forecast.silent ((m : Int) = paramCount.toInt)).andThen
          (expressionForecast sites (functionForecast sites earlier) (Readable earlier) (some m) body)
      | _ => .silent False
    else functionForecast sites earlier (.made id) m

theorem functionForecast_hosted (sites : Sites H K) (h : History H Num) (c : H) (m : Nat) :
    functionForecast sites h (.hosted c) m = .silent True := by
  cases h <;> rfl

mutual
def ListsFit (fits : Nat → Prop) : Expression F V Num → Prop
  | .call _ ps => fits ps.length ∧ AllListsFit fits ps
  | _ => True

def AllListsFit (fits : Nat → Prop) : List (Expression F V Num) → Prop
  | [] => True
  | p :: ps => ListsFit fits p ∧ AllListsFit fits ps
end

def BodiesFit (fits : Nat → Prop) (h : History H Num) : Prop :=
  ∀ k n body, (k, .defined n body) ∈ h → ListsFit fits body

theorem allListsFit_iff (fits : Nat → Prop) (ps : List (Expression F V Num)) :
    AllListsFit fits ps ↔ ∀ p ∈ ps, ListsFit fits p := by
  induction ps with
  | nil => simp [AllListsFit]
  | cons p ps ih => simp [AllListsFit, ih]

theorem listsFit_any (e : Expression F V Num) : ListsFit (fun _ => True) e := by
  induction e with
  | call f ps ih => exact ⟨trivial, (allListsFit_iff _ ps).mpr ih⟩
  | _ => trivial

/-- What the evaluator's primitives note is as the sites say. -/
structure Supports (lists : Lists (Logged S L) Num) (int : UInt32 → Int)
    (host : Host (Logged S L) H Num) (R : Reading S T L K) (smooth : Prop) (sites : Sites H K)
    (fits : Nat → Prop) : Prop where
  follow : ∀ m n, Follows R smooth (host.follow m n) (.silent True)
  arguments : ∀ n, Follows R smooth (host.arguments n) (.silent True)
  made : ∀ {c : Logged S L → Except Error Num × Logged S L} {o : Forecast K}, Follows R smooth c o →
    Follows R smooth
      (fun s => ((c (host.newArguments s)).1, host.oldArguments s (c (host.newArguments s)).2)) o
  callback : ∀ (f : Cap H) {c : Logged S L → Except Error (List Num) × Logged S L} {o : Forecast K},
    Follows R smooth c o →
      Follows R smooth (bracket (host.enter f.peer) (host.leave f.peer) c) (sites.around f o)
  call : ∀ c args, Follows R smooth (host.call c args) (.silent True)
  read : ∀ c, Follows R smooth (host.read c) (sites.read c)
  lookup : ∀ (l : List Num) pr, Follows R smooth
    (fun s => (if (l.length : Int) ≤ int pr then .error (.missingParameter pr l.length)
      else listAt l (int pr), lists.note (guarded int pr l.length) s)) (sites.parameter l.length pr)
  cparamsAt : ∀ {c : Logged S L → Except Error Num × Logged S L} {o : Forecast K} {i len : Nat},
    i < len → Follows R smooth c o → Follows R smooth (fun s => c (lists.note (.cparamsAt i len) s)) o
  pparamsSet : ∀ {c : Logged S L → Except Error (List Num) × Logged S L} {o : Forecast K} {i len : Nat},
    i < len → Follows R smooth c o → Follows R smooth (fun s => c (lists.note (.pparamsSet i len) s)) o
  sized : ∀ n, fits n → (lists.newParams n).length = n

theorem evaluateParamsWith_length {lists : Lists S Num} {int : UInt32 → Int} {rt : Runtime S F V Num}
    {callParams : Option (List Num)} {len : Nat} {ps : List (Expression F V Num)} {i : Nat}
    {pparams : List Num} (sized : pparams.length = i + ps.length) {s : S} {vs : List Num}
    (run : (evaluateParamsWith lists int rt callParams len ps i pparams s).1 = .ok vs) :
    vs.length = pparams.length := by
  induction ps generalizing i pparams s with
  | nil =>
    rw [evaluateParamsWith, Except.ok.injEq] at run
    rw [run]
  | cons p ps ih =>
    rw [List.length_cons] at sized
    rw [evaluateParamsWith_cons lists int rt callParams len p ps (by omega)] at run
    obtain ⟨val, s', -, rest⟩ := andThen_ok run
    have filled := ih (by rw [List.length_set]; omega) rest
    rw [filled, List.length_set]

section Evaluation

variable {lists : Lists (Logged S L) Num} {int : UInt32 → Int} {host : Host (Logged S L) H Num}
  {R : Reading S T L K} {smooth : Prop} {sites : Sites H K} {fits : Nat → Prop}
  (supports : Supports lists int host R smooth sites fits) {A : Arithmetic Num} {h : History H Num}

include supports

theorem params_follow {rt : Runtime (Logged S L) (Cap H) (Cap H) Num} {callParams : Option (List Num)}
    {ps : List (CapExpression H Num)} {function : Cap H → Nat → Forecast K} {readable : Cap H → Prop}
    {context : Option Nat}
    (each : ∀ p ∈ ps, Follows R smooth (evaluateWith lists int rt callParams p)
      (expressionForecast sites function readable context p))
    {len i : Nat} (all : len = i + ps.length) {pparams : List Num} (sized : pparams.length = len) :
    Follows R smooth (evaluateParamsWith lists int rt callParams len ps i pparams)
      (paramsForecast sites function readable context ps) := by
  induction ps generalizing i pparams with
  | nil => exact follows_answer (.ok pparams) (by simp)
  | cons p ps ih =>
    rw [List.length_cons] at all
    rw [evaluateParamsWith_cons _ _ _ _ _ _ _ (by omega)]
    have inside : i < len := by omega
    have first := supports.cparamsAt inside (each p List.mem_cons_self)
    refine follows_andThen first (fun _ val _ => ?_)
    refine supports.pparamsSet (by omega) ?_
    exact ih (fun q hq => each q (List.mem_cons_of_mem p hq)) (by omega) (by rw [List.length_set, sized])

theorem evaluate_follows
    (calls : ∀ id args, Follows R smooth (callMadeWith lists int A host h id args)
      (functionForecast sites h (.made id) args.length))
    (message : Option Nat) (callParams : Option (List Num)) (e : CapExpression H Num)
    (fit : ListsFit fits e) :
    Follows R smooth
      (evaluateWith lists int
        (runtimeWith A host message (callMadeWith lists int A host h) (readMade h)) callParams e)
      (expressionForecast sites (functionForecast sites h) (Readable h)
        (callParams.map List.length) e) := by
  induction e using Expression.induction with
  | literal v => exact follows_answer (.ok v) (by simp)
  | previousResult v =>
    rcases v with _ | (id | c)
    · exact follows_answer _ (by simp)
    · exact follows_answer (readMade h id) (readMade_ok_iff h id)
    · exact supports.read c
  | parameter pr =>
    cases callParams with
    | none => exact follows_answer _ (by simp)
    | some l =>
      have looked := follows_andThen (supports.arguments l.length) (fun _ _ _ => supports.lookup l pr)
      rw [Forecast.silent_andThen] at looked
      rw [evaluateWith_parameter]
      exact looked
  | call f ps ih =>
    rcases f with _ | f
    · exact follows_answer _ (by simp)
    · have each := fun p hp => ih p hp ((allListsFit_iff fits ps).mp fit.2 p hp)
      have sized := supports.sized ps.length fit.1
      have loop := follows_andThen (supports.follow message ps.length)
        (fun _ _ _ => params_follow supports each (Nat.zero_add _).symm sized)
      rw [Forecast.silent_andThen] at loop
      rw [evaluateWith_call, expressionForecast]
      refine follows_andThen (supports.callback f loop) (fun s vs run => ?_)
      cases f with
      | made id =>
        obtain ⟨u, s', -, filled⟩ := andThen_ok run
        have len := evaluateParamsWith_length (sized.trans (Nat.zero_add _).symm) filled
        have call := calls id vs
        rw [len, sized] at call
        exact supports.made call
      | hosted c =>
        rw [functionForecast_hosted]
        exact supports.call c vs
  | unknown which => exact follows_answer _ (by simp)

theorem callDefined_follows {k : Nat} (n : Int32) {body : CapExpression H Num} {args : List Num}
    {o : Forecast K}
    (run : Follows R smooth (evaluateWith lists int
      (runtimeWith A host (some k) (callMadeWith lists int A host h) (readMade h)) (some args) body) o) :
    Follows R smooth (callDefinedWith lists int
        (runtimeWith A host (some k) (callMadeWith lists int A host h) (readMade h)) n body args)
      ((Forecast.silent ((args.length : Int) = n.toInt)).andThen o) := by
  have read := supports.arguments args.length
  rw [callDefinedWith_andThen]
  by_cases arity : (args.length : Int) = n.toInt
  · have both := follows_andThen read (fun _ _ _ => run)
    rw [Forecast.silent_andThen] at both
    simp only [arity, ne_eq, not_true_eq_false, ↓reduceIte, Forecast.silent_andThen]
    exact both
  · have refusal : Follows R smooth
        (fun s : Logged S L => ((.error (.wrongArguments n.toInt args.length) : Except Error Num), s))
        (.silent False) := follows_answer _ (by simp)
    have both := follows_andThen read (fun _ _ _ => refusal)
    rw [Forecast.silent_andThen] at both
    simp only [arity, ne_eq, not_false_eq_true, ↓reduceIte, Forecast.never_andThen]
    exact both

theorem makeOperator_follows (f : Num → Num → Num) (args : List Num) :
    Follows R smooth (makeOperator host.arguments f args) (.silent (args.length = 2)) := by
  rw [makeOperator_andThen, ← Forecast.silent_andThen (.silent _)]
  refine follows_andThen (supports.arguments args.length) (fun _ _ _ => follows_answer _ ?_)
  rcases args with _ | ⟨a, _ | ⟨b, _ | ⟨c, rest⟩⟩⟩ <;> simp

theorem callMade_follows (bodies : BodiesFit fits h) (id : Nat) (args : List Num) :
    Follows R smooth (callMadeWith lists int A host h id args)
      (functionForecast sites h (.made id) args.length) := by
  induction h generalizing id args with
  | nil => exact follows_answer _ (by simp)
  | cons entry earlier ih =>
    obtain ⟨k, obj⟩ := entry
    have calls := ih (fun j n body member => bodies j n body (List.mem_cons_of_mem _ member))
    simp only [functionForecast]
    by_cases same : k = id
    · subst k
      rw [if_pos rfl, callMadeWith_same]
      cases obj with
      | operator op => exact makeOperator_follows supports (A.apply op) args
      | defined n body =>
        have fit := bodies id n body List.mem_cons_self
        have inner := evaluate_follows supports calls (some id) (some args) body fit
        exact callDefined_follows supports n inner
      | _ => exact follows_answer _ (by simp)
    · rw [if_neg same, callMadeWith_other _ _ A host earlier same]
      exact calls id args

/-- Evaluation in a session notes what the forecast of the expression says. -/
theorem session_follows (bodies : BodiesFit fits h) (message : Option Nat)
    (callParams : Option (List Num)) (e : CapExpression H Num) (fit : ListsFit fits e) :
    Follows R smooth
      (evaluateWith lists int
        (runtimeWith A host message (callMadeWith lists int A host h) (readMade h)) callParams e)
      (expressionForecast sites (functionForecast sites h) (Readable h)
        (callParams.map List.length) e) :=
  evaluate_follows supports (callMade_follows supports bodies) message callParams e fit

end Evaluation

end SessionForecasts
