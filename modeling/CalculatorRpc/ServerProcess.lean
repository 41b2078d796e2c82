import CalculatorRpc.ScheduleTermination

/- The server process: `doServer` accepts connections for as long as it can, and each
   of them gets a calculator of its own. A connection that fails is logged and the
   others go on; a failed accept ends the process. -/
namespace ServerProcess
open CalculatorSession RequestSchedules ScheduleTermination EventRuns

variable {Num : Type}

structure Connection (Num : Type) where
  server : Server Num
  ended : Bool

structure Process (Num : Type) where
  running : Bool
  connections : List (Connection Num)
  log : List String

inductive ProcessEvent where
  | accept
  | acceptFails (err : String)
  | serve (client : Nat) (e : Event)
  | waitReturns (client : Nat) (err : Option String)

def Process.start : Process Num := ⟨true, [], ["Listening on 127.0.0.1:9494"]⟩

def warning (err : Option String) : List String := (err.map fun text => "warn: " ++ text).toList

def Process.atClient (p : Process Num) (i : Nat) (f : Connection Num → Option (Process Num)) :
    Option (Process Num) :=
  if p.running then p.connections[i]?.bind fun c => if c.ended then none else f c else none

/-- The i-th client sends the requests `reqs i`. -/
def Process.step (A : Arithmetic Num) (reqs : Nat → List (Request Num)) (p : Process Num) :
    ProcessEvent → Option (Process Num)
  | .accept =>
    if p.running then
      some { p with
        connections := p.connections ++ [⟨Server.idle, false⟩]
        log := p.log ++ ["Client joined"] }
    else none
  | .acceptFails err =>
    if p.running then some { p with running := false, log := p.log ++ [err] } else none
  | .serve i e => p.atClient i fun c =>
    (Server.step A (reqs i) c.server e).map fun s =>
      { p with connections := p.connections.set i { c with server := s } }
  | .waitReturns i err => p.atClient i fun c =>
    some { p with
      connections := p.connections.set i { c with ended := true }
      log := p.log ++ warning err }

theorem atClient_some {p p' : Process Num} {i : Nat} {f : Connection Num → Option (Process Num)}
    (next : p.atClient i f = some p') :
    ∃ c, p.running = true ∧ p.connections[i]? = some c ∧ c.ended = false ∧ f c = some p' := by
  unfold Process.atClient at next
  split at next
  · rename_i running
    obtain ⟨c, found, next⟩ := Option.bind_eq_some_iff.mp next
    split at next
    · simp at next
    · rename_i opened
      exact ⟨c, running, found, by simpa using opened, next⟩
  · simp at next

section Steps

variable {A : Arithmetic Num} {reqs : Nat → List (Request Num)} {p p' : Process Num}

theorem step_connections {e : ProcessEvent} (next : Process.step A reqs p e = some p') :
    p'.connections = p.connections ++ [⟨Server.idle, false⟩] ∨
    p'.connections = p.connections ∨
    ∃ i c c', p.connections[i]? = some c ∧ p'.connections = p.connections.set i c' ∧
      (c'.server = c.server ∨ ∃ e, Server.step A (reqs i) c.server e = some c'.server) := by
  cases e with
  | accept =>
    simp only [Process.step] at next
    split at next
    · obtain rfl := Option.some.inj next
      exact Or.inl rfl
    · simp at next
  | acceptFails err =>
    simp only [Process.step] at next
    split at next
    · obtain rfl := Option.some.inj next
      exact Or.inr (Or.inl rfl)
    · simp at next
  | serve i e =>
    obtain ⟨c, -, found, -, next⟩ := atClient_some next
    obtain ⟨s, served, rfl⟩ := Option.map_eq_some_iff.mp next
    exact Or.inr (Or.inr ⟨i, c, _, found, rfl, Or.inr ⟨e, served⟩⟩)
  | waitReturns i err =>
    obtain ⟨c, -, found, -, next⟩ := atClient_some next
    obtain rfl := Option.some.inj next
    exact Or.inr (Or.inr ⟨i, c, _, found, rfl, Or.inl rfl⟩)

/-- Every connection is in a state that its own requests alone lead to. -/
def Separate (A : Arithmetic Num) (reqs : Nat → List (Request Num)) (p : Process Num) : Prop :=
  ∀ (i : Nat) c, p.connections[i]? = some c →
    Reachable (Server.step A (reqs i)) Server.idle c.server

theorem step_separate {e : ProcessEvent} (separate : Separate A reqs p)
    (next : Process.step A reqs p e = some p') : Separate A reqs p' := by
  intro j d found
  rcases step_connections next with joined | same | ⟨i, c, c', here, changed, moved⟩
  · rw [joined] at found
    by_cases old : j < p.connections.length
    · rw [List.getElem?_append_left old] at found
      exact separate j d found
    · rw [List.getElem?_append_right (by omega)] at found
      have new : d = ⟨Server.idle, false⟩ := by
        exact List.mem_singleton.mp (List.mem_of_getElem? found)
      rw [new]
      exact reachable_start _ _
  · rw [same] at found
    exact separate j d found
  · rw [changed] at found
    by_cases same : i = j
    · subst j
      have inside := (List.getElem?_eq_some_iff.mp here).1
      rw [List.getElem?_set_self inside, Option.some.injEq] at found
      subst d
      rcases moved with still | ⟨e, served⟩
      · rw [still]
        exact separate i c here
      · exact reachable_step (separate i c here) served
    · rw [List.getElem?_set_ne same] at found
      exact separate j d found

theorem reachable_separate (reached : Reachable (Process.step A reqs) Process.start p) :
    Separate A reqs p :=
  reachable_invariant (Separate A reqs) (by simp [Separate, Process.start])
    (fun _ _ _ separate next => step_separate separate next) reached

end Steps

def twoKinds (i : Nat) : List (Request Nat) :=
  if i = 0 then [.evaluate (.literal 5), .read 0] else [.getOperator 0]

def disturbed : List ProcessEvent :=
  [.accept, .serve 0 (.start 0), .accept, .serve 0 (.advance 0), .serve 1 (.start 0),
    .waitReturns 1 (some "EOF"), .serve 0 (.advance 0), .serve 0 (.start 1), .serve 0 (.advance 1),
    .serve 0 (.advance 1)]

def alone : List ProcessEvent :=
  [.accept, .serve 0 (.start 0), .serve 0 (.advance 0), .serve 0 (.advance 0)]

theorem disturbed_runs : ∃ p, run (Process.step natural twoKinds) Process.start disturbed = some p ∧
    p.connections[0]?.map (fun c => ids c.server.returned) = some [1, 0] := by
  have ran : (run (Process.step natural twoKinds) Process.start disturbed).map
      (fun p => p.connections[0]?.map fun c => ids c.server.returned) = some (some [1, 0]) := by
    decide +kernel
  exact Option.map_eq_some_iff.mp ran

theorem alone_runs : ∃ p, run (Process.step natural twoKinds) Process.start alone = some p ∧
    p.connections[0]?.map (fun c => ids c.server.returned) = some [0] := by
  have ran : (run (Process.step natural twoKinds) Process.start alone).map
      (fun p => p.connections[0]?.map fun c => ids c.server.returned) = some (some [0]) := by
    decide +kernel
  exact Option.map_eq_some_iff.mp ran

/-- What a client gets does not depend on the other clients: in any two processes in which
    it sends the same requests, its answers agree, and all of them have come once its own
    connection has nothing left to do. -/
theorem clients_do_not_interfere {A : Arithmetic Num} {reqs reqs' : Nat → List (Request Num)}
    {p p' : Process Num} (reached : Reachable (Process.step A reqs) Process.start p)
    (reached' : Reachable (Process.step A reqs') Process.start p') {i j : Nat}
    {c c' : Connection Num} (client : p.connections[i]? = some c)
    (client' : p'.connections[j]? = some c') (same : reqs i = reqs' j) :
    (∀ id ∈ ids c.server.returned, id ∈ ids c'.server.returned →
      objectOf c.server.returned id = objectOf c'.server.returned id) ∧
    (Ordered (reqs i) → Quiet A (reqs i) c.server →
      ∀ id < (reqs i).length, id ∈ ids c.server.returned) := by
  have alone := reachable_sound (reachable_separate reached i c client)
  have alone' := reachable_sound (reachable_separate reached' j c' client')
  rw [← same] at alone'
  constructor
  · intro id here there
    exact (served_agree alone.served alone'.served id here there).1
  · intro ordered quiet
    exact quiet_all_returned ordered quiet

theorem disturbed_client_agrees : ∃ p p' c c',
    run (Process.step natural twoKinds) Process.start disturbed = some p ∧
    run (Process.step natural twoKinds) Process.start alone = some p' ∧
    p.connections[0]? = some c ∧ p'.connections[0]? = some c' ∧
    objectOf c.server.returned 0 = objectOf c'.server.returned 0 := by
  obtain ⟨p, ran, served⟩ := disturbed_runs
  obtain ⟨p', ran', served'⟩ := alone_runs
  obtain ⟨c, client, returned⟩ := Option.map_eq_some_iff.mp served
  obtain ⟨c', client', returned'⟩ := Option.map_eq_some_iff.mp served'
  refine ⟨p, p', c, c', ran, ran', client, client', ?_⟩
  exact (clients_do_not_interfere ⟨disturbed, ran⟩ ⟨alone, ran'⟩ client client' rfl).1 0
    (by rw [returned]; decide) (by rw [returned']; decide)

end ServerProcess
