import CalculatorRpc.ListIndexing

/- Which expressions never index a list out of range. The loop over the parameters
   of a call stays inside both of its lists; what remains are the parameter
   indexes that evaluation can come to. -/
namespace IndexSafety
open CalculatorExpression CalculatorEvaluate CalculatorSession FallibleRuns LogForecasts StaticForm
open SessionForecasts ListIndexing

variable {S H Num : Type}

def indexSites (width : IntWidth) : Sites H UInt32 where
  parameter := fun m pr => ⟨0 ≤ width.int pr ∧ width.int pr < m, fun x => x = pr⟩
  read := fun _ => .silent True
  callback := fun _ o => o

/-- Evaluation can come to this parameter in a function context, be it in the
    expression itself or in the body of a function that is called. -/
def LooksUp (width : IntWidth) (h : History H Num) (context : Option Nat) (e : CapExpression H Num) :
    UInt32 → Prop :=
  (expressionForecast (indexSites width) (functionForecast (indexSites width) h) (Readable h)
    context e).keys

structure Obliging (host : Host S H Num) : Prop where
  follow : ∀ m n s, ∃ v, (host.follow m n s).1 = .ok v
  arguments : ∀ n s, ∃ v, (host.arguments n s).1 = .ok v
  call : ∀ c args s, ∃ v, (host.call c args s).1 = .ok v
  read : ∀ c s, ∃ v, (host.read c s).1 = .ok v

/-- Every index but those of the forecast parameters is safe. -/
def indexes (width : IntWidth) : Reading S Unit Access UInt32 where
  frame := fun _ => ()
  allowed := fun _ access => access.Safe ∨ ∃ pr len, access = guarded width.int pr len
  about := fun pr _ access => ∃ len, access = guarded width.int pr len

section Host

variable {width : IntWidth} {smooth : Prop} {host : Host S H Num}

theorem inState_indexes {α : Type} {f : S → Except Error α × S}
    (always : smooth → ∀ s, ∃ v, (f s).1 = .ok v) :
    Follows (indexes width) smooth (inState f) (.silent True) :=
  follows_silent (fun _ => rfl) (fun _ => rfl) (fun _ _ _ => trivial)
    (fun fair _ s => always fair s.state)

theorem listAt_ok_iff (l : List Num) (i : Int) : (∃ v, listAt l i = .ok v) ↔ 0 ≤ i ∧ i < l.length := by
  unfold listAt
  by_cases nonneg : 0 ≤ i
  · by_cases inside : i.toNat < l.length
    · simp [nonneg, inside]
      omega
    · simp [nonneg, inside]
      omega
  · simp [nonneg]

theorem lookup_ok_iff (l : List Num) (pr : UInt32) :
    (∃ v, (if (l.length : Int) ≤ width.int pr then .error (.missingParameter pr l.length)
      else listAt l (width.int pr)) = .ok v) ↔ 0 ≤ width.int pr ∧ width.int pr < l.length := by
  by_cases outside : (l.length : Int) ≤ width.int pr
  · simp [if_pos outside]
    omega
  · rw [if_neg outside]
    exact listAt_ok_iff l (width.int pr)

theorem guarded_about (pr x : UInt32) (len : Nat) (frame : Unit) :
    (indexes width : Reading S Unit Access UInt32).about x frame (guarded width.int pr len) ↔
      x = pr := by
  constructor
  · rintro ⟨len', same⟩
    exact (Access.parameter.inj same).1.symm
  · rintro rfl
    exact ⟨len, rfl⟩

theorem host_supports (zero : Num) (fair : smooth → Obliging host) :
    Supports (indexedLists zero) width.int (unlogged host) (indexes width) smooth (indexSites width)
      (fun len => len < 2 ^ 30) where
  follow := fun m n => inState_indexes (fun f => (fair f).follow m n)
  arguments := fun n => inState_indexes (fun f => (fair f).arguments n)
  made := follows_around (fun _ => ⟨rfl, rfl⟩) (fun _ _ => ⟨rfl, rfl⟩)
  callback := by
    intro f c o run
    have around : Follows (indexes width) smooth
        (bracket ((unlogged host).enter f.peer) ((unlogged host).leave f.peer) c) o :=
      follows_around (fun _ => ⟨rfl, rfl⟩) (fun _ _ => ⟨rfl, rfl⟩) run
    cases f <;> exact around
  call := fun c args => inState_indexes (fun f => (fair f).call c args)
  read := fun c => inState_indexes (fun f => (fair f).read c)
  lookup := fun l pr => follows_entry _ (lookup_ok_iff l pr) (fun _ => Or.inr ⟨pr, l.length, rfl⟩)
    (fun x => guarded_about pr x l.length)
  cparamsAt := fun inside => follows_note (fun _ => Or.inl inside) (fun _ _ about => by
    obtain ⟨_, same⟩ := about
    exact Access.noConfusion same)
  pparamsSet := fun inside => follows_note (fun _ => Or.inl inside) (fun _ _ about => by
    obtain ⟨_, same⟩ := about
    exact Access.noConfusion same)
  sized := fun n short => (congrArg List.length (newParams_short zero short)).trans List.length_replicate

theorem evaluate_indexes (fair : smooth → Obliging host) (A : Arithmetic Num) {h : History H Num}
    (bodies : ShortBodies h) (message : Option Nat) (callParams : Option (List Num))
    {e : CapExpression H Num} (short : ShortLists e) :
    Follows (indexes width) smooth
      (evaluateIndexed width (runtimeIndexed width A host h message) callParams e)
      (expressionForecast (indexSites width) (functionForecast (indexSites width) h) (Readable h)
        (callParams.map List.length) e) :=
  session_follows (host_supports A.zero fair) bodies message callParams e short

end Host

def obligingHost (zero : Num) : Host Unit H Num where
  follow := fun _ _ s => (.ok (), s)
  arguments := fun _ s => (.ok (), s)
  newArguments := fun s => s
  oldArguments := fun _ s => s
  enter := fun _ s => s
  leave := fun _ s => s
  call := fun _ _ s => (.ok zero, s)
  read := fun _ s => (.ok zero, s)

theorem obligingHost_obliges (zero : Num) : Obliging (obligingHost zero : Host Unit H Num) :=
  ⟨fun _ _ _ => ⟨(), rfl⟩, fun _ _ => ⟨(), rfl⟩, fun _ _ _ => ⟨zero, rfl⟩, fun _ _ => ⟨zero, rfl⟩⟩

/-- Whatever the messages and the peers do, every index is inside its list and every
    parameter without an argument is refused, exactly if `int` is 64 bits wide or
    evaluation cannot come to a parameter from 2^31 on. -/
theorem indexes_inside_iff (width : IntWidth) (A : Arithmetic Num) (h : History H Num)
    (bodies : ShortBodies h) (message : Option Nat) (callParams : Option (List Num))
    (e : CapExpression H Num) (short : ShortLists e) :
    (∀ (S : Type) (host : Host S H Num) (s : S) (access : Access),
      access ∈ (evaluateIndexed width (runtimeIndexed width A host h message) callParams e
        ⟨s, []⟩).2.log → access.Safe) ↔
      width = .bits64 ∨
        ∀ pr, LooksUp width h (callParams.map List.length) e pr → pr.toNat < 2 ^ 31 := by
  constructor
  · intro inside
    cases width with
    | bits64 => exact Or.inl rfl
    | bits32 =>
      refine Or.inr (fun pr looked => ?_)
      have fair : True → Obliging (obligingHost A.zero : Host Unit H Num) :=
        fun _ => obligingHost_obliges A.zero
      obtain ⟨new, run⟩ := evaluate_indexes fair A bodies message callParams short ⟨(), []⟩
      obtain ⟨access, member, len, eq⟩ := run.reached trivial pr looked
      have noted : access ∈ (evaluateIndexed .bits32
          (runtimeIndexed .bits32 A (obligingHost A.zero) h message) callParams e ⟨(), []⟩).2.log := by
        rw [run.log]
        exact member
      have safe := inside Unit (obligingHost A.zero) () access noted
      rw [eq, guarded_safe_iff] at safe
      rcases int32_cases pr with low | ⟨_, negative⟩
      · exact low.1
      · exact absurd safe (Int.not_le.mpr negative)
  · intro condition S host s access member
    have fair : False → Obliging host := False.elim
    obtain ⟨new, run⟩ := evaluate_indexes fair A bodies message callParams short ⟨s, []⟩
    rw [run.log] at member
    obtain ⟨safe | ⟨pr, len, eq⟩, keys⟩ := run.covered access member
    · exact safe
    · have looked := keys pr ⟨len, eq⟩
      rw [eq, guarded_safe_iff]
      rcases int_cases width pr with same | ⟨narrow, high, negative⟩
      · omega
      · rcases condition with wide | low
        · exact absurd (narrow.symm.trans wide) (by simp)
        · exact absurd (low pr looked) (by omega)

def lastParameter : History Empty Nat := [(0, .defined 1 (.parameter 4294967295))]

def callLastParameter : CapExpression Empty Nat := .call (some (.made 0)) [.literal 7]

theorem lastParameter_short : ShortBodies lastParameter := by
  intro k n body member
  simp only [lastParameter, List.mem_singleton, Prod.mk.injEq, Object.defined.injEq] at member
  rw [member.2.2]
  trivial

theorem callLastParameter_short : ShortLists callLastParameter := by
  simp [callLastParameter, ListsFit, AllListsFit]

theorem last_parameter_inside_iff :
    ShortBodies lastParameter ∧ ShortLists callLastParameter ∧
    ((∀ (S : Type) (host : Host S Empty Nat) (s : S) (access : Access),
      access ∈ (evaluateIndexed .bits64 (runtimeIndexed .bits64 natural host lastParameter none) none
        callLastParameter ⟨s, []⟩).2.log → access.Safe) ↔
      IntWidth.bits64 = .bits64 ∨
        ∀ pr, LooksUp .bits64 lastParameter none callLastParameter pr → pr.toNat < 2 ^ 31) :=
  ⟨lastParameter_short, callLastParameter_short, indexes_inside_iff .bits64 natural lastParameter
    lastParameter_short none none callLastParameter callLastParameter_short⟩

/-- With 32-bit integers the index becomes -1, which is less than the number of
    arguments, so the guard lets it through. -/
theorem last_parameter_indexes_outside :
    Served natural [.defFunction 1 (.parameter 4294967295)] lastParameter ∧
    ¬ ∀ (S : Type) (host : Host S Empty Nat) (s : S) (access : Access),
      access ∈ (evaluateIndexed .bits32 (runtimeIndexed .bits32 natural host lastParameter none) none
        callLastParameter ⟨s, []⟩).2.log → access.Safe := by
  constructor
  · have definition : [Request.defFunction 1 (.parameter 4294967295 : CapExpression Empty Nat)][0]? =
        some (.defFunction 1 (.parameter 4294967295)) := rfl
    exact Served.start.serve definition (by decide) (by decide)
  · intro inside
    have looked : Access.parameter 4294967295 1 (some (-1)) ∈ (evaluateIndexed .bits32
        (runtimeIndexed .bits32 natural (obligingHost 0) lastParameter none) none callLastParameter
        ⟨(), []⟩).2.log := by decide
    have safe := inside Unit (obligingHost 0) () _ looked
    exact absurd (safe.1 (-1) rfl).1 (by decide)

end IndexSafety
