import CalculatorRpc.EventRuns
import CalculatorRpc.RequestMachine
import Mathlib.Logic.Function.Basic

/- The server with any number of requests in progress. Which connection a request
   came in on makes no difference to it; a schedule may start any request whose
   capabilities are returned, and may advance any running request by one step. -/
namespace RequestSchedules
open CalculatorExpression CalculatorSession RequestMachine EventRuns

variable {Num : Type}

structure Server (Num : Type) where
  returned : History Empty Num
  running : Nat → Option (Machine Num)

def Server.idle : Server Num := ⟨[], fun _ => none⟩

inductive Event where
  | start (id : Nat)
  | advance (id : Nat)

/-- GetOperator and DefFunction call no capability and return at once. -/
def enter : Request Num → Object Empty Num ⊕ Machine Num
  | .getOperator op => .inl (getOperator op)
  | .defFunction paramCount body => .inl (.defined paramCount body)
  | .evaluate e => .inr ⟨.evaluating none e, []⟩
  | .read value => .inr ⟨.reading value, []⟩
  | .call function args => .inr ⟨.calling function args, []⟩

def leave : Request Num → Except Error Num → Object Empty Num
  | .evaluate _, r => evaluated r
  | _, r => answered r

def Server.step (A : Arithmetic Num) (reqs : List (Request Num)) (s : Server Num) :
    Event → Option (Server Num)
  | .start id =>
    match reqs[id]? with
    | none => none
    | some r =>
      if id ∉ ids s.returned ∧ (s.running id).isNone ∧ ∀ k ∈ r.names, k ∈ ids s.returned then
        match enter r with
        | .inl obj => some { s with returned := (id, obj) :: s.returned }
        | .inr m => some { s with running := Function.update s.running id (some m) }
      else none
  | .advance id =>
    match reqs[id]?, s.running id with
    | some r, some ⟨.returning result, []⟩ =>
      some ⟨(id, leave r result) :: s.returned, Function.update s.running id none⟩
    | some _, some m =>
      some { s with running := Function.update s.running id (some (RequestMachine.step A s.returned m)) }
    | _, _ => none

theorem Server.step_cases {A : Arithmetic Num} {reqs : List (Request Num)} {s s' : Server Num}
    {e : Event} (next : Server.step A reqs s e = some s') :
    (∃ id r, reqs[id]? = some r ∧ id ∉ ids s.returned ∧ s.running id = none ∧
      (∀ k ∈ r.names, k ∈ ids s.returned) ∧
      ((∃ obj, enter r = .inl obj ∧ s' = { s with returned := (id, obj) :: s.returned }) ∨
        ∃ m, enter r = .inr m ∧
          s' = { s with running := Function.update s.running id (some m) })) ∨
    (∃ id r m, reqs[id]? = some r ∧ s.running id = some m ∧
      ((∃ result, m = ⟨.returning result, []⟩ ∧
          s' = ⟨(id, leave r result) :: s.returned, Function.update s.running id none⟩) ∨
        (∀ result, m ≠ ⟨.returning result, []⟩) ∧ s' = { s with
          running := Function.update s.running id (some (RequestMachine.step A s.returned m)) })) := by
  cases e with
  | start id =>
    left
    simp only [Server.step] at next
    split at next
    · simp at next
    · rename_i r request
      split at next
      · rename_i ready
        refine ⟨id, r, request, ready.1, by simpa using ready.2.1, ready.2.2, ?_⟩
        split at next
        · rename_i obj atOnce
          exact Or.inl ⟨obj, atOnce, (Option.some.inj next).symm⟩
        · rename_i m running
          exact Or.inr ⟨m, running, (Option.some.inj next).symm⟩
      · simp at next
  | advance id =>
    right
    simp only [Server.step] at next
    split at next
    · rename_i r result request running
      exact ⟨id, r, _, request, running, Or.inl ⟨result, rfl, (Option.some.inj next).symm⟩⟩
    · rename_i r m unfinished request running
      exact ⟨id, r, m, request, running, Or.inr ⟨unfinished, (Option.some.inj next).symm⟩⟩
    · simp at next

/-- A running request that is going to leave what it would leave if it were
    served at this moment. -/
structure Underway (A : Arithmetic Num) (reqs : List (Request Num)) (h : History Empty Num)
    (id : Nat) (m : Machine Num) : Prop where
  fresh : id ∉ ids h
  created : ∀ k ∈ m.names, k ∈ ids h
  request : ∃ r, reqs[id]? = some r ∧ (∀ k ∈ r.names, k ∈ ids h) ∧
    leave r (finish A h m) = serve A h r

structure Sound (A : Arithmetic Num) (reqs : List (Request Num)) (s : Server Num) : Prop where
  served : Served A reqs s.returned
  running : ∀ id m, s.running id = some m → Underway A reqs s.returned id m

section Invariant

variable {A : Arithmetic Num} {reqs : List (Request Num)} {h : History Empty Num} {s s' : Server Num}

theorem idle_sound : Sound A reqs Server.idle :=
  ⟨Served.start, fun id m running => by simp [Server.idle] at running⟩

theorem underway_grows {k id : Nat} {m : Machine Num} (fresh : k ∉ ids h) (obj : Object Empty Num)
    (other : k ≠ id) (u : Underway A reqs h id m) : Underway A reqs ((k, obj) :: h) id m := by
  obtain ⟨r, request, names, result⟩ := u.request
  refine ⟨?_, fun j member => List.mem_cons_of_mem _ (u.created j member), r, request,
    fun j member => List.mem_cons_of_mem _ (names j member), ?_⟩
  · intro member
    rcases List.mem_cons.mp member with first | later
    · exact other first.symm
    · exact u.fresh later
  · rw [finish_congr (fun j member => alike_fresh fresh obj (u.created j member)),
      serve_congr (fun j member => alike_fresh fresh obj (names j member)), result]

theorem underway_advances {id : Nat} {m : Machine Num} (session : Served A reqs h)
    (u : Underway A reqs h id m) : Underway A reqs h id (RequestMachine.step A h m) := by
  refine ⟨u.fresh, step_names session u.created, ?_⟩
  rw [step_finish session]
  exact u.request

theorem enter_at_once {r : Request Num} {obj : Object Empty Num} (atOnce : enter r = .inl obj)
    (h : History Empty Num) : serve A h r = obj := by
  cases r with
  | getOperator op => exact Sum.inl.inj atOnce
  | defFunction n body => exact Sum.inl.inj atOnce
  | _ => simp [enter] at atOnce

theorem enter_underway {id : Nat} {r : Request Num} {m : Machine Num} (begins : enter r = .inr m)
    (request : reqs[id]? = some r) (fresh : id ∉ ids h) (created : ∀ k ∈ r.names, k ∈ ids h) :
    Underway A reqs h id m := by
  have machine : (∀ k ∈ m.names, k ∈ r.names) ∧ leave r (finish A h m) = serve A h r := by
    cases r with
    | getOperator op => simp [enter] at begins
    | defFunction n body => simp [enter] at begins
    | evaluate e =>
      obtain rfl := Sum.inr.inj begins
      exact ⟨fun k member => by simpa [Machine.names, Control.names, Request.names] using member, rfl⟩
    | read value =>
      obtain rfl := Sum.inr.inj begins
      exact ⟨fun k member => by simpa [Machine.names, Control.names, Request.names] using member, rfl⟩
    | call function args =>
      obtain rfl := Sum.inr.inj begins
      exact ⟨fun k member => by simpa [Machine.names, Control.names, Request.names] using member, rfl⟩
  exact ⟨fresh, fun k member => created k (machine.1 k member), r, request, created, machine.2⟩

theorem return_sound {id : Nat} {r : Request Num} {obj : Object Empty Num}
    {running : Nat → Option (Machine Num)} (sound : Sound A reqs s) (request : reqs[id]? = some r)
    (fresh : id ∉ ids s.returned) (created : ∀ k ∈ r.names, k ∈ ids s.returned)
    (result : obj = serve A s.returned r)
    (others : ∀ j m, running j = some m → id ≠ j ∧ s.running j = some m) :
    Sound A reqs ⟨(id, obj) :: s.returned, running⟩ := by
  subst obj
  constructor
  · exact sound.served.serve request fresh created
  · intro j m found
    obtain ⟨other, before⟩ := others j m found
    exact underway_grows fresh _ other (sound.running j m before)

theorem running_sound {id : Nat} {m : Machine Num} (sound : Sound A reqs s)
    (u : Underway A reqs s.returned id m) :
    Sound A reqs { s with running := Function.update s.running id (some m) } := by
  constructor
  · exact sound.served
  · intro j m' found
    simp only at found
    by_cases same : j = id
    · subst j
      rw [Function.update_self, Option.some.injEq] at found
      subst m'
      exact u
    · rw [Function.update_of_ne same] at found
      exact sound.running j m' found

theorem step_sound {e : Event} (sound : Sound A reqs s) (next : Server.step A reqs s e = some s') :
    Sound A reqs s' := by
  rcases Server.step_cases next with ⟨id, r, request, fresh, absent, created, begun⟩ |
    ⟨id, r, m, request, running, advanced⟩
  · rcases begun with ⟨obj, atOnce, rfl⟩ | ⟨m, begins, rfl⟩
    · apply return_sound sound request fresh created (enter_at_once atOnce _).symm
      intro j m found
      refine ⟨?_, found⟩
      rintro rfl
      rw [absent] at found
      simp at found
    · exact running_sound sound (enter_underway begins request fresh created)
  · have u := sound.running id m running
    rcases advanced with ⟨result, rfl, rfl⟩ | ⟨-, rfl⟩
    · obtain ⟨r', request', created, returns⟩ := u.request
      obtain rfl := Option.some.inj (request.symm.trans request')
      apply return_sound sound request u.fresh created returns
      intro j m found
      by_cases same : j = id
      · subst j
        simp at found
      · rw [Function.update_of_ne same] at found
        exact ⟨Ne.symm same, found⟩
    · exact running_sound sound (underway_advances sound.served u)

theorem reachable_sound (reached : Reachable (Server.step A reqs) Server.idle s) : Sound A reqs s :=
  reachable_invariant (Sound A reqs) idle_sound (fun _ _ _ sound next => step_sound sound next) reached

end Invariant

/-- Any two sessions over the same requests agree on what both have served. -/
theorem served_agree {A : Arithmetic Num} {reqs : List (Request Num)} {h h' : History Empty Num}
    (session : Served A reqs h) (session' : Served A reqs h') :
    ∀ id ∈ ids h, id ∈ ids h' → objectOf h id = objectOf h' id ∧ Alike A h h' id := by
  induction session with
  | start => intro id member; simp [ids] at member
  | @serve h k r session request fresh created ih =>
    intro id member member'
    by_cases same : k = id
    · subst k
      have grown : Served A reqs ((id, serve A h r) :: h) := session.serve request fresh created
      have created' := served_created session' member' request
      have names : ∀ j ∈ r.names, Alike A h h' j := fun j named =>
        (ih j (created j named) (created' j named)).2
      have object : objectOf ((id, serve A h r) :: h) id = objectOf h' id := by
        rw [served_object session' member' request, objectOf, if_pos rfl, serve_congr names]
      refine ⟨object, ?_, ?_⟩
      · unfold readMade
        rw [object, ← readMade]
      · intro args
        rw [callOutcome_served grown, callOutcome_served session', object]
        cases found : objectOf h' id with
        | none => rfl
        | some obj =>
          cases obj with
          | defined n body =>
            rw [found, objectOf, if_pos rfl, Option.some.injEq] at object
            have body_names : Request.names r = CalculatorSession.names body := by
              rw [serve_defined object]
              rfl
            have same : ∀ j ∈ CalculatorSession.names body, Alike A ((id, serve A h r) :: h) h' j := by
              intro j named
              rw [← body_names] at named
              exact (alike_fresh fresh _ (created j named)).trans (names j named)
            simp only [outcome_congr same]
          | _ => rfl
    · have earlier : id ∈ ids h := by
        rcases List.mem_cons.mp member with first | later
        · exact absurd first.symm same
        · exact later
      obtain ⟨object, alike⟩ := ih id earlier member'
      rw [objectOf_fresh _ fresh earlier]
      exact ⟨object, (alike_other same h _).trans alike⟩

def Quiet (A : Arithmetic Num) (reqs : List (Request Num)) (s : Server Num) : Prop :=
  ∀ e, Server.step A reqs s e = none

theorem quiet_returned {A : Arithmetic Num} {reqs : List (Request Num)} {s : Server Num}
    (quiet : Quiet A reqs s) {id : Nat} {r : Request Num}
    (request : reqs[id]? = some r) (created : ∀ k ∈ r.names, k ∈ ids s.returned) :
    id ∈ ids s.returned := by
  by_contra absent
  have stopped : s.running id = none := by
    cases running : s.running id with
    | none => rfl
    | some m =>
      have refused := quiet (.advance id)
      simp only [Server.step, request, running] at refused
      split at refused <;> simp_all
  have refused := quiet (.start id)
  simp only [Server.step, request, stopped, Option.isNone_none, true_and] at refused
  rw [if_pos ⟨absent, created⟩] at refused
  split at refused <;> simp at refused

theorem served_everywhere {A : Arithmetic Num} {reqs : List (Request Num)} {h : History Empty Num}
    (session : Served A reqs h) {t : Server Num} (quiet : Quiet A reqs t) :
    ∀ id ∈ ids h, id ∈ ids t.returned := by
  induction session with
  | start => intro id member; simp [ids] at member
  | @serve h k r session request fresh created ih =>
    intro id member
    rcases List.mem_cons.mp member with now | earlier
    · subst now
      exact quiet_returned quiet request (fun j named => ih j (created j named))
    · exact ih id earlier

/-- The order in which requests are started and interleaved is not observable.
    What two schedules have both returned, at any point of either of them, is the
    same object and does the same when it is read or called; and two schedules
    that have nothing left to do have returned the same requests. -/
theorem schedules_agree {A : Arithmetic Num} {reqs : List (Request Num)} {s t : Server Num}
    (first : Reachable (Server.step A reqs) Server.idle s)
    (second : Reachable (Server.step A reqs) Server.idle t) :
    (∀ id ∈ ids s.returned, id ∈ ids t.returned →
      objectOf s.returned id = objectOf t.returned id ∧ Alike A s.returned t.returned id) ∧
    (Quiet A reqs s → Quiet A reqs t → ∀ id, id ∈ ids s.returned ↔ id ∈ ids t.returned) := by
  have left := reachable_sound first
  have right := reachable_sound second
  constructor
  · exact served_agree left.served right.served
  · intro quiet quiet' id
    constructor
    · exact served_everywhere left.served quiet' id
    · exact served_everywhere right.served quiet id

def twoSums : List (Request Nat) :=
  [.getOperator 0, .evaluate (.call (some (.made 0)) [.literal 5, .literal 1]),
    .evaluate (.call (some (.made 0)) [.literal 2, .literal 3])]

def oneAfterTheOther : List Event :=
  [.start 0, .start 1] ++ List.replicate 7 (.advance 1) ++ [.start 2] ++ List.replicate 7 (.advance 2)

def inTurns : List Event :=
  [.start 0, .start 2, .start 1] ++ (List.replicate 7 [.advance 2, .advance 1]).flatten

theorem two_sums_agree : ∃ s t, run (Server.step natural twoSums) Server.idle oneAfterTheOther = some s ∧
    run (Server.step natural twoSums) Server.idle inTurns = some t ∧
    ids s.returned = [2, 1, 0] ∧ ids t.returned = [1, 2, 0] ∧
    objectOf s.returned 1 = objectOf t.returned 1 := by
  have first : (run (Server.step natural twoSums) Server.idle oneAfterTheOther).map
      (fun s => ids s.returned) = some [2, 1, 0] := by decide +kernel
  have second : (run (Server.step natural twoSums) Server.idle inTurns).map
      (fun s => ids s.returned) = some [1, 2, 0] := by decide +kernel
  obtain ⟨s, hs, order⟩ := Option.map_eq_some_iff.mp first
  obtain ⟨t, ht, order'⟩ := Option.map_eq_some_iff.mp second
  refine ⟨s, t, hs, ht, order, order', ?_⟩
  have agree := (schedules_agree ⟨oneAfterTheOther, hs⟩ ⟨inTurns, ht⟩).1 1
  exact (agree (by rw [order]; decide) (by rw [order']; decide)).1

end RequestSchedules
