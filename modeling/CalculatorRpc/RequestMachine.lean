import CalculatorRpc.Session

/- A request that is being served, as a machine that stops at every capability
   call. Function and value capabilities are looked up in the history of the
   moment, which may have grown since the request began. -/
namespace RequestMachine
open CalculatorExpression CalculatorEvaluate CalculatorSession FallibleRuns

variable {Num : Type}

/-- A params callback in its loop: the parameters from `index` on are left, and
    those before it are in `pparams`. -/
structure Frame (Num : Type) where
  function : Nat
  callParams : Option (List Num)
  rest : List (CapExpression Empty Num)
  index : Nat
  pparams : List Num

inductive Control (Num : Type) where
  | evaluating (callParams : Option (List Num)) (e : CapExpression Empty Num)
  | reading (value : Nat)
  | calling (function : Nat) (args : List Num)
  | returning (r : Except Error Num)

structure Machine (Num : Type) where
  control : Control Num
  frames : List (Frame Num)

def nextParam (f : Frame Num) (frames : List (Frame Num)) : Machine Num :=
  match f.rest with
  | [] => ⟨.calling f.function f.pparams, frames⟩
  | p :: rest => ⟨.evaluating f.callParams p, { f with rest := rest } :: frames⟩

def dispatch (A : Arithmetic Num) (h : History Empty Num) (function : Nat) (args : List Num) :
    Control Num :=
  match objectOf h function with
  | some (.operator op) => .returning (makeOperator (fun _ s => (.ok (), s)) (A.apply op) args ()).1
  | some (.defined paramCount body) =>
    if (args.length : Int) ≠ paramCount.toInt then
      .returning (.error (.wrongArguments paramCount.toInt args.length))
    else .evaluating (some args) body
  | some (.failed e) => .returning (.error e)
  | _ => .returning (.error .notCallable)

def step (A : Arithmetic Num) (h : History Empty Num) : Machine Num → Machine Num
  | ⟨.evaluating callParams (.call (some (.made function)) ps), frames⟩ =>
    nextParam ⟨function, callParams, ps, 0, List.replicate ps.length A.zero⟩ frames
  | ⟨.evaluating _ (.previousResult (some (.made value))), frames⟩ => ⟨.reading value, frames⟩
  -- The other expressions call no capability.
  | ⟨.evaluating callParams e, frames⟩ => ⟨.returning (outcome A h callParams e), frames⟩
  | ⟨.reading value, frames⟩ => ⟨.returning (readMade h value), frames⟩
  | ⟨.calling function args, frames⟩ => ⟨dispatch A h function args, frames⟩
  | ⟨.returning (.error e), _ :: frames⟩ => ⟨.returning (.error e), frames⟩
  | ⟨.returning (.ok val), f :: frames⟩ =>
    match listSet f.pparams f.index val with
    | .error e => ⟨.returning (.error e), frames⟩
    | .ok pparams => nextParam { f with index := f.index + 1, pparams := pparams } frames
  | ⟨.returning r, []⟩ => ⟨.returning r, []⟩

def fillParams (A : Arithmetic Num) (h : History Empty Num) (callParams : Option (List Num)) :
    List (CapExpression Empty Num) → Nat → List Num → Except Error (List Num)
  | [], _, pparams => .ok pparams
  | p :: rest, i, pparams =>
    match outcome A h callParams p with
    | .error e => .error e
    | .ok val =>
      match listSet pparams i val with
      | .error e => .error e
      | .ok pparams => fillParams A h callParams rest (i + 1) pparams

def frameOutcome (A : Arithmetic Num) (h : History Empty Num) (f : Frame Num) : Except Error Num :=
  (fillParams A h f.callParams f.rest f.index f.pparams).bind (callOutcome A h f.function)

def controlOutcome (A : Arithmetic Num) (h : History Empty Num) : Control Num → Except Error Num
  | .evaluating callParams e => outcome A h callParams e
  | .reading value => readMade h value
  | .calling function args => callOutcome A h function args
  | .returning r => r

def receive (A : Arithmetic Num) (h : History Empty Num) (f : Frame Num) (val : Num) :
    Except Error Num :=
  match listSet f.pparams f.index val with
  | .error e => .error e
  | .ok pparams => frameOutcome A h { f with index := f.index + 1, pparams := pparams }

def resume (A : Arithmetic Num) (h : History Empty Num) :
    List (Frame Num) → Except Error Num → Except Error Num
  | [], r => r
  | f :: frames, r => resume A h frames (r.bind (receive A h f))

/-- What the machine is going to return, if the history stays as it is. -/
def finish (A : Arithmetic Num) (h : History Empty Num) (m : Machine Num) : Except Error Num :=
  resume A h m.frames (controlOutcome A h m.control)

section Steps

variable {A : Arithmetic Num} {h : History Empty Num}

theorem evaluateParams_fill (callParams : Option (List Num)) (len : Nat)
    (ps : List (CapExpression Empty Num)) (i : Nat) (pparams : List Num) :
    evaluateParamsWith (plainLists A.zero) int64 (runtime A noHost h none) callParams len ps i
        pparams () =
      (fillParams A h callParams ps i pparams, ()) := by
  induction ps generalizing i pparams with
  | nil => rfl
  | cons p ps ih =>
    have head : evaluateWith (plainLists A.zero) int64 (runtime A noHost h none) callParams p () =
        (outcome A h callParams p, ()) := rfl
    unfold evaluateParamsWith fillParams
    simp only [plainLists] at head ⊢
    rw [head]
    cases outcome A h callParams p with
    | error e => rfl
    | ok val =>
      simp only
      cases listSet pparams i val with
      | error e => rfl
      | ok pparams => exact ih (i + 1) pparams

theorem outcome_frame (callParams : Option (List Num)) (function : Nat)
    (ps : List (CapExpression Empty Num)) :
    outcome A h callParams (.call (some (.made function)) ps) =
      frameOutcome A h ⟨function, callParams, ps, 0, List.replicate ps.length A.zero⟩ := by
  have params := @evaluateParams_fill Num A h callParams ps.length ps 0 (List.replicate ps.length A.zero)
  have call := evaluateWith_call (plainLists A.zero) int64 (runtime A noHost h none) callParams
    (.made function) ps
  have filled : outcome A h callParams (.call (some (.made function)) ps) = _ :=
    congrArg Prod.fst (congrFun call ())
  rw [filled]
  simp only [andThen, bracket, runtime, runtimeWith, noHost] at params ⊢
  simp only [plainLists] at params ⊢
  rw [params, frameOutcome]
  cases fillParams A h callParams ps 0 (List.replicate ps.length A.zero) with
  | error e => rfl
  | ok pparams => rfl

theorem nextParam_finish (f : Frame Num) (frames : List (Frame Num)) :
    finish A h (nextParam f frames) = resume A h frames (frameOutcome A h f) := by
  obtain ⟨function, callParams, rest, index, pparams⟩ := f
  cases rest with
  | nil => rfl
  | cons p rest =>
    simp only [nextParam, finish, resume, controlOutcome, frameOutcome, fillParams]
    cases outcome A h callParams p with
    | error e => rfl
    | ok val =>
      simp only [Except.bind, receive]
      cases listSet pparams index val with
      | error e => rfl
      | ok pparams => rfl

theorem dispatch_outcome {reqs : List (Request Num)} (session : Served A reqs h) (function : Nat)
    (args : List Num) :
    controlOutcome A h (dispatch A h function args) = callOutcome A h function args := by
  rw [callOutcome_served session, dispatch]
  cases objectOf h function with
  | none => rfl
  | some obj =>
    cases obj with
    | operator op => rcases args with _ | ⟨a, _ | ⟨b, _ | ⟨c, rest⟩⟩⟩ <;> rfl
    | defined n body =>
      simp only
      split <;> rfl
    | _ => rfl

/-- A step changes nothing about what the machine is going to return. -/
theorem step_finish {reqs : List (Request Num)} (session : Served A reqs h) (m : Machine Num) :
    finish A h (step A h m) = finish A h m := by
  obtain ⟨control, frames⟩ := m
  cases control with
  | evaluating callParams e =>
    cases e with
    | literal v => rfl
    | previousResult v =>
      rcases v with _ | (id | c)
      · rfl
      · rfl
      · exact c.elim
    | parameter i => rfl
    | call f ps =>
      rcases f with _ | (id | c)
      · rfl
      · unfold step
        rw [nextParam_finish, finish, controlOutcome, outcome_frame]
      · exact c.elim
    | unknown w => rfl
  | reading value => rfl
  | calling function args => rw [step, finish, finish, dispatch_outcome session, controlOutcome]
  | returning r =>
    cases frames with
    | nil => cases r <;> rfl
    | cons f frames =>
      cases r with
      | error e => rfl
      | ok val =>
        simp only [step, finish, resume, controlOutcome, Except.bind, receive]
        cases listSet f.pparams f.index val with
        | error e => rfl
        | ok pparams => exact nextParam_finish _ frames

end Steps

def Control.names : Control Num → List Nat
  | .evaluating _ e => CalculatorSession.names e
  | .reading value => [value]
  | .calling function _ => [function]
  | .returning _ => []

def Frame.names (f : Frame Num) : List Nat := f.function :: f.rest.flatMap CalculatorSession.names

def Machine.names (m : Machine Num) : List Nat := m.control.names ++ m.frames.flatMap Frame.names

theorem nextParam_names {f : Frame Num} {frames : List (Frame Num)} {id : Nat}
    (member : id ∈ (nextParam f frames).names) : id ∈ f.names ∨ id ∈ frames.flatMap Frame.names := by
  obtain ⟨function, callParams, rest, index, pparams⟩ := f
  cases rest with
  | nil => simpa [nextParam, Machine.names, Control.names, Frame.names] using member
  | cons p rest =>
    simp only [nextParam, Machine.names, Control.names, List.flatMap_cons, List.mem_append] at member
    rcases member with head | frame | later
    · exact Or.inl (List.mem_cons_of_mem _ (List.mem_append_left _ head))
    · rcases List.mem_cons.mp frame with same | tail
      · exact Or.inl (same ▸ List.mem_cons_self)
      · exact Or.inl (List.mem_cons_of_mem _ (List.mem_append_right _ tail))
    · exact Or.inr later

theorem dispatch_names {A : Arithmetic Num} {reqs : List (Request Num)} {h : History Empty Num}
    (session : Served A reqs h) (function : Nat) (args : List Num) {id : Nat}
    (member : id ∈ (dispatch A h function args).names) : id ∈ ids h := by
  unfold dispatch at member
  cases found : objectOf h function with
  | none => simp [found, Control.names] at member
  | some obj =>
    cases obj with
    | defined n body =>
      simp only [found] at member
      split at member
      · simp [Control.names] at member
      · exact served_names session found id member
    | _ => simp [found, Control.names] at member

theorem return_names {A : Arithmetic Num} {h : History Empty Num} {r : Except Error Num}
    {f : Frame Num} {frames : List (Frame Num)} {id : Nat}
    (member : id ∈ (step A h ⟨.returning r, f :: frames⟩).names) :
    id ∈ f.names ∨ id ∈ frames.flatMap Frame.names := by
  cases r with
  | error e => exact Or.inr (by simpa [step, Machine.names, Control.names] using member)
  | ok val =>
    simp only [step] at member
    cases fill : listSet f.pparams f.index val with
    | error e =>
      simp only [fill, Machine.names, Control.names, List.nil_append] at member
      exact Or.inr member
    | ok pparams =>
      simp only [fill] at member
      rcases nextParam_names member with frame | later
      · exact Or.inl frame
      · exact Or.inr later

/-- Running a request reaches no capability but those that are returned. -/
theorem step_names {A : Arithmetic Num} {reqs : List (Request Num)} {h : History Empty Num}
    (session : Served A reqs h) {m : Machine Num} (created : ∀ id ∈ m.names, id ∈ ids h) :
    ∀ id ∈ (step A h m).names, id ∈ ids h := by
  intro id member
  obtain ⟨control, frames⟩ := m
  have outer : id ∈ frames.flatMap Frame.names → id ∈ ids h := fun frame =>
    created id (List.mem_append_right _ frame)
  have returned : ∀ r, id ∈ (⟨.returning r, frames⟩ : Machine Num).names → id ∈ ids h := by
    intro r inside
    exact outer (by simpa [Machine.names, Control.names] using inside)
  cases control with
  | evaluating callParams e =>
    cases e with
    | literal v => exact returned _ member
    | previousResult v =>
      rcases v with _ | (value | c)
      · exact returned _ member
      · exact created id member
      · exact c.elim
    | parameter i => exact returned _ member
    | call f ps =>
      rcases f with _ | (function | c)
      · exact returned _ member
      · rcases nextParam_names member with frame | later
        · apply created
          apply List.mem_append_left
          unfold Control.names
          rw [names_call]
          simpa [Frame.names] using frame
        · exact outer later
      · exact c.elim
    | unknown w => exact returned _ member
  | reading value => exact returned _ member
  | calling function args =>
    rcases List.mem_append.mp member with control | later
    · exact dispatch_names session function args control
    · exact outer later
  | returning r =>
    cases frames with
    | nil => exact created id (by cases r <;> exact member)
    | cons f frames =>
      rcases return_names member with frame | later
      · exact outer (List.mem_append_left _ frame)
      · exact outer (List.mem_append_right _ later)

section Growth

variable {A : Arithmetic Num} {h h' : History Empty Num}

theorem fillParams_congr {callParams : Option (List Num)} {ps : List (CapExpression Empty Num)}
    (same : ∀ p ∈ ps, outcome A h callParams p = outcome A h' callParams p) (i : Nat)
    (pparams : List Num) :
    fillParams A h callParams ps i pparams = fillParams A h' callParams ps i pparams := by
  induction ps generalizing i pparams with
  | nil => rfl
  | cons p ps ih =>
    have rest := ih (fun q hq => same q (List.mem_cons_of_mem p hq))
    simp only [fillParams, same p List.mem_cons_self, rest]

theorem finish_congr {m : Machine Num}
    (same : ∀ id ∈ m.names, Alike A h h' id) : finish A h m = finish A h' m := by
  obtain ⟨control, frames⟩ := m
  have now : controlOutcome A h control = controlOutcome A h' control := by
    have named := fun id member => same id (List.mem_append_left _ member)
    cases control with
    | evaluating callParams e => exact outcome_congr named callParams
    | reading value => exact (named value List.mem_cons_self).1
    | calling function args => exact (named function List.mem_cons_self).2 args
    | returning r => rfl
  have later : ∀ r, resume A h frames r = resume A h' frames r := by
    have named := fun id member => same id (List.mem_append_right control.names member)
    clear same now
    induction frames with
    | nil => intro r; rfl
    | cons f frames ih =>
      intro r
      have frame := fun id member => named id (List.mem_append_left _ member)
      have call := (frame f.function List.mem_cons_self).2
      have params : ∀ p ∈ f.rest, outcome A h f.callParams p = outcome A h' f.callParams p := by
        intro p hp
        apply outcome_congr
        intro id member
        exact frame id (List.mem_cons_of_mem _ (List.mem_flatMap.mpr ⟨p, hp, member⟩))
      have received : receive A h f = receive A h' f := by
        funext val
        simp only [receive, frameOutcome, fillParams_congr params, funext call]
      unfold resume
      rw [received]
      exact ih (fun id member => named id (List.mem_append_right _ member)) _
  unfold finish
  rw [now, later]

end Growth

end RequestMachine
