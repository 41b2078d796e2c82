import CalculatorRpc.SessionForecasts
import CalculatorRpc.StartTraces

/- Calls on capabilities of a peer hold the lock of the peer's connection while
   their params callback runs, and starting one takes the lock. The evaluator
   computes the arguments of a call inside its callback. -/
namespace ConnectionLock
open CalculatorExpression CalculatorEvaluate CalculatorSession FallibleRuns StaticForm
open LogForecasts StartTraces SessionForecasts

variable {σ H P Num : Type}

structure World (σ H Num : Type) where
  follow : Option Nat → Nat → σ → Except Error Unit × σ
  arguments : Nat → σ → Except Error Unit × σ
  call : H → List Num → σ → Except Error Num × σ
  read : H → σ → Except Error Num × σ

def inWorld {α : Type} (f : σ → Except Error α × σ) (s : Traced σ H) : Except Error α × Traced σ H :=
  ((f s.state.world).1, { s with state := { s.state with world := (f s.state.world).2 } })

/-- The callback of `Value.read` is empty, but it runs under the lock as well. -/
def lockHost (w : World σ H Num) : Host (Traced σ H) H Num where
  follow := fun m n => inWorld (w.follow m n)
  arguments := fun n => inWorld (w.arguments n)
  newArguments := fun s => s
  oldArguments := fun _ s => s
  enter := fun f s =>
    match f with
    | none => s
    | some c => start c s
  leave := fun f s =>
    match f with
    | none => s
    | some _ => StartTraces.leave s
  call := fun c args => inWorld (w.call c args)
  read := fun c => andThen (bracket (start c) StartTraces.leave (fun s => (.ok (), s)))
    (fun _ => inWorld (w.read c))

def lockSites (party : H → P) : Sites H (Key H) where
  parameter := fun m pr => .silent (pr.toNat < m)
  read := fun c => inside party c (.silent True)
  callback := inside party

/-- Somewhere a call on a capability of a peer has, in a parameter that evaluation
    can get to, another call or read of a capability of the same peer, be it in
    the parameter itself or in the body of a function that is called there. -/
def CallsInsideCallback (party : H → P) (h : History H Num) (context : Option Nat)
    (e : CapExpression H Num) : Prop :=
  (expressionForecast (lockSites party) (functionForecast (lockSites party) h) (Readable h)
    context e).keys
    .nested

structure World.Obliging (w : World σ H Num) : Prop where
  follow : ∀ m n s, ∃ v, (w.follow m n s).1 = .ok v
  arguments : ∀ n s, ∃ v, (w.arguments n s).1 = .ok v
  call : ∀ c args s, ∃ v, (w.call c args s).1 = .ok v
  read : ∀ c s, ∃ v, (w.read c s).1 = .ok v

section Host

variable {smooth : Prop} {party : H → P} {w : World σ H Num}

theorem inWorld_follows {α : Type} {f : σ → Except Error α × σ}
    (always : smooth → ∀ s, ∃ v, (f s).1 = .ok v) :
    Follows (stacked party) smooth (inWorld f) (.silent True) :=
  follows_silent (fun _ => rfl) (fun _ => rfl) (fun _ _ _ => trivial)
    (fun fair _ s => always fair s.state.world)

theorem read_follows (fair : smooth → w.Obliging) (c : H) :
    Follows (stacked party) smooth ((lockHost w).read c) (inside party c (.silent True)) := by
  have callback : Follows (stacked party) smooth
      (fun s : Traced σ H => ((.ok () : Except Error Unit), s)) (.silent True) :=
    follows_answer _ (by simp)
  have answer : Follows (stacked party) smooth (inWorld (w.read c)) (.silent True) :=
    inWorld_follows (fun f => (fair f).read c)
  have both := follows_andThen (follows_inside c callback) (fun _ _ _ => answer)
  rw [Forecast.andThen_silent] at both
  exact both

theorem lookup_follows (l : List Num) (pr : UInt32) :
    Follows (stacked party) smooth
      (fun s : Traced σ H => (if (l.length : Int) ≤ int64 pr then .error (.missingParameter pr l.length)
        else listAt l (int64 pr), s)) (.silent (pr.toNat < l.length)) := by
  rw [listAt_int64]
  apply follows_answer
  by_cases inside : pr.toNat < l.length
  · simp [inside]
  · simp [inside]

theorem host_supports (zero : Num) (fair : smooth → w.Obliging) :
    Supports (plainLists zero) int64 (lockHost w) (stacked party) smooth (lockSites party)
      (fun _ => True) where
  follow := fun m n => inWorld_follows (fun f => (fair f).follow m n)
  arguments := fun n => inWorld_follows (fun f => (fair f).arguments n)
  made := fun run => run
  callback := by
    intro f c o run
    cases f with
    | made id => exact run
    | hosted peer => exact follows_inside peer run
  call := fun c args => inWorld_follows (fun f => (fair f).call c args)
  read := read_follows fair
  lookup := lookup_follows
  cparamsAt := fun _ run => run
  pparamsSet := fun _ run => run
  sized := fun _ _ => List.length_replicate

theorem evaluate_follows (fair : smooth → w.Obliging) (A : Arithmetic Num) (h : History H Num)
    (message : Option Nat) (callParams : Option (List Num)) (e : CapExpression H Num) :
    Follows (stacked party) smooth (evaluate int64 (runtime A (lockHost w) h message) callParams e)
      (expressionForecast (lockSites party) (functionForecast (lockSites party) h) (Readable h)
        (callParams.map List.length) e) :=
  session_follows (host_supports A.zero fair) (fun _ _ body _ => listsFit_any body) message callParams e
    (listsFit_any e)

end Host

def obliging (zero : Num) : World Unit H Num where
  follow := fun _ _ s => (.ok (), s)
  arguments := fun _ s => (.ok (), s)
  call := fun _ _ s => (.ok zero, s)
  read := fun _ s => (.ok zero, s)

theorem obliging_obliges (zero : Num) : (obliging zero : World Unit H Num).Obliging :=
  ⟨fun _ _ _ => ⟨(), rfl⟩, fun _ _ => ⟨(), rfl⟩, fun _ _ _ => ⟨zero, rfl⟩, fun _ _ => ⟨zero, rfl⟩⟩

/-- Whatever the peers do, no call on a capability of a peer is started while the
    callback of another one of the same peer is open, exactly for the expressions
    without a call inside a callback of the same peer. -/
theorem never_reenters_iff (party : H → P) (A : Arithmetic Num) (h : History H Num)
    (message : Option Nat) (callParams : Option (List Num)) (e : CapExpression H Num) :
    (∀ (σ : Type) (w : World σ H Num) (world : σ) (c : H) (stack : List H),
      (c, stack) ∈ (evaluate int64 (runtime A (lockHost w) h message) callParams e
        ⟨⟨world, []⟩, []⟩).2.log → ¬ Clash party c stack) ↔
      ¬ CallsInsideCallback party h (callParams.map List.length) e := by
  constructor
  · intro never nested
    have fair : True → (obliging A.zero : World Unit H Num).Obliging := fun _ => obliging_obliges A.zero
    obtain ⟨new, run⟩ := evaluate_follows fair A h message callParams e ⟨⟨(), []⟩, []⟩
    obtain ⟨⟨c, stack⟩, member, inner, same, clash⟩ := run.reached trivial .nested nested
    have whole : stack = inner := same.trans (List.append_nil inner)
    refine never Unit (obliging A.zero) () c stack ?_ (whole ▸ clash)
    rw [run.log]
    exact member
  · intro flat σ w world c stack member clash
    have fair : False → w.Obliging := False.elim
    obtain ⟨new, run⟩ := evaluate_follows fair A h message callParams e ⟨⟨world, []⟩, []⟩
    rw [run.log] at member
    have covered := run.covered (c, stack) member
    exact flat (covered.2 .nested ⟨stack, (List.append_nil stack).symm, clash⟩)

def clientInClient : CapExpression Nat Nat :=
  .call (some (.hosted 0)) [.call (some (.hosted 1)) [.literal 7]]

theorem client_in_client_reenters :
    (1, [0]) ∈ (evaluate int64 (runtime natural (lockHost (obliging 0)) [] none) none clientInClient
      ⟨⟨(), []⟩, []⟩).2.log ∧ Clash (fun _ => ()) 1 [0] :=
  ⟨by decide, 0, by decide, rfl⟩

end ConnectionLock
