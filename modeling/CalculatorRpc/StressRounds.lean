import CalculatorRpc.WireSessions
import CalculatorRpc.ScheduleTermination
import Mathlib.Algebra.BigOperators.Intervals

/- The stress test of the TypeScript client: rounds of sums, each of them made from
   the promised result of the one before, and one read at the end of every round.
   The sums of a round are all sent before any answer is awaited. The source awaits the
   read before it begins the next round, and nothing calls it; here the server may run
   all the calls in any order that their results allow, which includes those orders. -/
namespace StressRounds
open CalculatorExpression CalculatorSession RequestSchedules EventRuns WireSessions
open ScheduleTermination

variable {Num : Type}

/-- The calls that were sent, named by their place, and for each round its number of
    sums with the read whose answer is printed. -/
structure Client (Num : Type) where
  requests : List (Request Num)
  printed : List (Nat × Nat)

def Client.send (c : Client Num) (r : Request Num) : Nat × Client Num :=
  (c.requests.length, { c with requests := c.requests ++ [r] })

def addNext (num : Nat → Num) (add : Nat) (p : Nat × Client Num) (i : Nat) : Nat × Client Num :=
  p.2.send (.evaluate
    (.call (some (.made add)) [.previousResult (some (.made p.1)), .literal (num i)]))

def sums (num : Nat → Num) (c : Client Num) (numCalls : Nat) : Nat × Client Num :=
  let (add, c) := c.send (.getOperator 0)
  let (lhs, c) := c.send (.evaluate (.literal (num 0)))
  (List.range numCalls).foldl (addNext num add) (lhs, c)

def round (num : Nat → Num) (c : Client Num) (numCalls : Nat) : Client Num :=
  let (lhs, c) := sums num c numCalls
  let (read, c) := c.send (.read lhs)
  { c with printed := c.printed ++ [(numCalls, read)] }

def stressTest (num : Nat → Num) (rounds : List Nat) : Client Num :=
  rounds.foldl (round num) ⟨[], []⟩

def testRounds : List Nat := (List.range 3).flatMap fun _ => (List.range 11).map fun j => j * 128

def sumOf (A : Arithmetic Num) (num : Nat → Num) (start : Num) (is : List Nat) : Num :=
  is.foldl (fun sum i => A.apply .add sum (num i)) start

theorem names_next (num : Nat → Num) (add lhs i : Nat) :
    (Request.evaluate (.call (some (.made add)) [.previousResult (some (.made lhs)),
      .literal (num i)]) : Request Num).names = [add, lhs] := rfl

theorem next_sendable (num : Nat → Num) (add lhs i : Nat) :
    Sendable (.evaluate (.call (some (.made add)) [.previousResult (some (.made lhs)),
      .literal (num i)]) : Request Num) := by
  apply ExpressionBuilding.Known.call
  intro p member
  rcases List.mem_cons.mp member with rfl | member
  · exact .previousResult _
  · rw [List.mem_singleton.mp member]
    exact .literal _

structure Grows (c c' : Client Num) : Prop where
  kept : c.requests <+: c'.requests
  ordered : Ordered c.requests → Ordered c'.requests
  sendable : (∀ r ∈ c.requests, Sendable r) → ∀ r ∈ c'.requests, Sendable r

theorem Grows.refl (c : Client Num) : Grows c c :=
  ⟨List.prefix_rfl, fun ordered => ordered, fun sendable => sendable⟩

theorem Grows.trans {c c' c'' : Client Num} (first : Grows c c') (second : Grows c' c'') :
    Grows c c'' where
  kept := first.kept.trans second.kept
  ordered := fun ordered => second.ordered (first.ordered ordered)
  sendable := fun sendable => second.sendable (first.sendable sendable)

theorem send_grows (c : Client Num) {r : Request Num} (can : Sendable r)
    (earlier : ∀ k ∈ r.names, k < c.requests.length) : Grows c (c.send r).2 where
  kept := List.prefix_append _ _
  ordered := fun ordered => ordered_send ordered earlier
  sendable := by
    intro sendable r' member
    rcases List.mem_append.mp member with old | new
    · exact sendable r' old
    · rw [List.mem_singleton.mp new]
      exact can

theorem send_inside (c : Client Num) (r : Request Num) :
    (c.send r).1 < (c.send r).2.requests.length := by
  simp [Client.send]

theorem Grows.inside {c c' : Client Num} (grows : Grows c c') {id : Nat}
    (inside : id < c.requests.length) : id < c'.requests.length :=
  Nat.lt_of_lt_of_le inside grows.kept.length_le

theorem loop_grows (num : Nat → Num) (add : Nat) (is : List Nat) {lhs : Nat} {c : Client Num}
    (added : add < c.requests.length) (made : lhs < c.requests.length) :
    Grows c (is.foldl (addNext num add) (lhs, c)).2 ∧
      (is.foldl (addNext num add) (lhs, c)).1 <
        (is.foldl (addNext num add) (lhs, c)).2.requests.length := by
  induction is generalizing lhs c with
  | nil => exact ⟨Grows.refl c, made⟩
  | cons i is ih =>
    rw [List.foldl_cons]
    have first : Grows c (addNext num add (lhs, c) i).2 := by
      apply send_grows c (next_sendable num add lhs i)
      intro k named
      rw [names_next, List.mem_cons, List.mem_singleton] at named
      rcases named with eq | eq <;> omega
    obtain ⟨rest, last⟩ := ih (first.inside added) (send_inside c _)
    exact ⟨first.trans rest, last⟩

theorem loop_printed (num : Nat → Num) (add : Nat) (is : List Nat) (p : Nat × Client Num) :
    (is.foldl (addNext num add) p).2.printed = p.2.printed := by
  induction is generalizing p with
  | nil => rfl
  | cons i is ih => exact ih _

theorem round_printed (num : Nat → Num) (c : Client Num) (n : Nat) :
    (round num c n).printed = c.printed ++ [(n, (sums num c n).2.requests.length)] := by
  have kept : (sums num c n).2.printed = c.printed := loop_printed num _ _ _
  rw [← kept]
  rfl

theorem rounds_printed (num : Nat → Num) (rounds : List Nat) (c : Client Num) :
    (rounds.foldl (round num) c).printed.map Prod.fst = c.printed.map Prod.fst ++ rounds := by
  induction rounds generalizing c with
  | nil => simp
  | cons n rounds ih =>
    rw [List.foldl_cons, ih, round_printed, List.map_append, List.append_assoc]
    rfl

theorem sums_grows (num : Nat → Num) (c : Client Num) (n : Nat) :
    Grows c (sums num c n).2 ∧ (sums num c n).1 < (sums num c n).2.requests.length := by
  have operator : Grows c (c.send (.getOperator 0)).2 := 
    send_grows c trivial (by simp [Request.names])
  have zero : Grows (c.send (.getOperator 0)).2
      ((c.send (.getOperator 0)).2.send (.evaluate (.literal (num 0)))).2 :=
    send_grows _ (ExpressionBuilding.Known.literal _)
      (by simp [Request.names, names, Expression.functions, Expression.values])
  obtain ⟨rest, last⟩ := loop_grows num (c.send (.getOperator 0)).1 (List.range n)
    (zero.inside (send_inside c _)) (send_inside _ _)
  exact ⟨(operator.trans zero).trans rest, last⟩

theorem round_grows (num : Nat → Num) (c : Client Num) (n : Nat) : Grows c (round num c n) := by
  obtain ⟨added, last⟩ := sums_grows num c n
  have read : Grows (sums num c n).2 ((sums num c n).2.send (.read (sums num c n).1)).2 := by
    refine send_grows _ (show Sendable (.read _) from trivial) ?_
    intro k named
    rw [Request.names, List.mem_singleton] at named
    omega
  have whole := added.trans read
  exact ⟨whole.kept, whole.ordered, whole.sendable⟩

theorem rounds_grow (num : Nat → Num) (rounds : List Nat) (c : Client Num) :
    Grows c (rounds.foldl (round num) c) := by
  induction rounds generalizing c with
  | nil => exact Grows.refl c
  | cons n rounds ih => exact (round_grows num c n).trans (ih _)

theorem callOutcome_add {h : History Empty Num} {id : Nat} {op : Operator}
    (operator : objectOf h id = some (.operator op)) (A : Arithmetic Num) (a b : Num) :
    callOutcome A h id [a, b] = .ok (A.apply op a b) := by
  induction h with
  | nil => simp [objectOf] at operator
  | cons entry h ih =>
    obtain ⟨k, obj⟩ := entry
    unfold objectOf at operator
    split at operator
    · rename_i here
      subst k
      obtain rfl := Option.some.inj operator
      rw [callOutcome_operator]
    · rename_i other
      rw [callOutcome_other A h other, ih operator]

def Reads (h : History Empty Num) (id : Nat) (v : Num) : Prop :=
  id ∈ ids h → readMade h id = .ok v

section Sessions

variable {A : Arithmetic Num} {reqs : List (Request Num)} {h : History Empty Num}
  (session : Served A reqs h)

theorem sent_request {c : Client Num} {r : Request Num} (sent : (c.send r).2.requests <+: reqs) :
    reqs[c.requests.length]? = some r := by
  obtain ⟨later, rfl⟩ := sent
  simp [Client.send]

include session

theorem evaluate_reads {id : Nat} {e : CapExpression Empty Num} {v : Num}
    (request : reqs[id]? = some (.evaluate e))
    (value : (∀ k ∈ names e, k ∈ ids h) → outcome A h none e = .ok v) : Reads h id v := by
  intro served
  have outcome := value (served_created session served request)
  have object := served_object session served request
  rw [serve, outcome] at object
  rw [readMade, object]
  rfl

theorem next_reads {num : Nat → Num} {add lhs i id : Nat} {v : Num}
    (operator : reqs[add]? = some (.getOperator 0)) (reads : Reads h lhs v)
    (request : reqs[id]? = some (.evaluate
      (.call (some (.made add)) [.previousResult (some (.made lhs)), .literal (num i)]))) :
    Reads h id (A.apply .add v (num i)) := by
  apply evaluate_reads session request
  intro created
  have addServed : add ∈ ids h := created add (by rw [names_call]; exact Or.inl rfl)
  have lhsServed : lhs ∈ ids h :=
    created lhs (by rw [names_call]; exact Or.inr ⟨_, List.mem_cons_self, List.mem_cons_self⟩)
  have object : objectOf h add = some (.operator .add) := served_object session addServed operator
  rw [outcome_call]
  simp only [outcomes, outcome_result, reads lhsServed, outcome_literal, Except.bind]
  exact callOutcome_add object A v (num i)

/-- The loop: if its first result reads as `v`, its last one reads as the sum from `v` on. -/
theorem loop_reads (num : Nat → Num) {add : Nat} (operator : reqs[add]? = some (.getOperator 0))
    (is : List Nat) {lhs : Nat} {c : Client Num} {v : Num} (added : add < c.requests.length)
    (made : lhs < c.requests.length) (reads : Reads h lhs v)
    (sent : (is.foldl (addNext num add) (lhs, c)).2.requests <+: reqs) :
    Reads h (is.foldl (addNext num add) (lhs, c)).1 (sumOf A num v is) := by
  induction is generalizing lhs c v with
  | nil => exact reads
  | cons i is ih =>
    rw [List.foldl_cons] at sent ⊢
    have first := (loop_grows num add [i] added made).1
    have rest := loop_grows num add is (first.inside added) (send_inside c _)
    have request := sent_request (rest.1.kept.trans sent)
    exact ih (first.inside added) (send_inside c _) (next_reads session operator reads request) sent

theorem sums_read (num : Nat → Num) (c : Client Num) (n : Nat)
    (sent : (sums num c n).2.requests <+: reqs) :
    Reads h (sums num c n).1 (sumOf A num (num 0) (List.range n)) := by
  let first := (c.send (.getOperator 0)).2
  let second := (first.send (.evaluate (.literal (num 0)))).2
  have added : c.requests.length < second.requests.length := by
    simp [second, first, Client.send]
  have made : first.requests.length < second.requests.length := send_inside first _
  have loop := (loop_grows num c.requests.length (List.range n) added made).1
  have zero : second.requests <+: reqs := loop.kept.trans sent
  have operator : reqs[c.requests.length]? = some (.getOperator 0) :=
    sent_request ((List.prefix_append _ _).trans zero)
  apply loop_reads session num operator (List.range n) added made _ sent
  exact evaluate_reads session (sent_request zero) (fun _ => rfl)

end Sessions

def Prints (A : Arithmetic Num) (num : Nat → Num) (h : History Empty Num) (p : Nat × Nat) : Prop :=
  p.2 ∈ ids h → objectOf h p.2 = some (.number (sumOf A num (num 0) (List.range p.1)))

theorem round_prints {A : Arithmetic Num} {reqs : List (Request Num)} {h : History Empty Num}
    (session : Served A reqs h) (num : Nat → Num) (c : Client Num) (n : Nat)
    (sent : (round num c n).requests <+: reqs) :
    Prints A num h (n, (sums num c n).2.requests.length) := by
  intro served
  have request : reqs[(sums num c n).2.requests.length]? = some (.read (sums num c n).1) :=
    sent_request sent
  have object := served_object session served request
  have lhs := served_created session served request _ List.mem_cons_self
  rw [serve, sums_read session num c n ((List.prefix_append _ _).trans sent) lhs] at object
  exact object

theorem rounds_print {A : Arithmetic Num} {reqs : List (Request Num)} {h : History Empty Num}
    (session : Served A reqs h) (num : Nat → Num) (rounds : List Nat) (c : Client Num)
    (sent : (rounds.foldl (round num) c).requests <+: reqs)
    (before : ∀ p ∈ c.printed, Prints A num h p ∧ p.2 < reqs.length) :
    ∀ p ∈ (rounds.foldl (round num) c).printed, Prints A num h p ∧ p.2 < reqs.length := by
  induction rounds generalizing c with
  | nil => exact before
  | cons n rounds ih =>
    have here : (round num c n).requests <+: reqs := (rounds_grow num rounds _).kept.trans sent
    apply ih (round num c n) sent
    intro p printed
    rw [round_printed, List.mem_append, List.mem_singleton] at printed
    rcases printed with old | rfl
    · exact before p old
    · refine ⟨round_prints session num c n here, ?_⟩
      exact Nat.lt_of_lt_of_le (send_inside _ _) here.length_le

section Exact

variable {A : Arithmetic Num} {num : Nat → Num}
  (adds : ∀ a b, a + b < 2 ^ 53 → A.apply .add (num a) (num b) = num (a + b))
include adds

theorem sumOf_exact (is : List Nat) (start : Nat) (small : start + is.sum < 2 ^ 53) :
    sumOf A num (num start) is = num (start + is.sum) := by
  induction is generalizing start with
  | nil => rfl
  | cons i is ih =>
    rw [List.sum_cons] at small
    have first : A.apply .add (num start) (num i) = num (start + i) := adds start i (by omega)
    have rest := ih (start + i) (by omega)
    rw [sumOf, List.foldl_cons, first]
    rw [sumOf] at rest
    rw [rest, List.sum_cons, Nat.add_assoc]

theorem sumOf_range {n : Nat} (small : n * (n - 1) / 2 < 2 ^ 53) :
    sumOf A num (num 0) (List.range n) = num (n * (n - 1) / 2) := by
  have total : (List.range n).sum = n * (n - 1) / 2 := by
    rw [← Finset.sum_range_id, Finset.sum_eq_multiset_sum, Finset.range_val, Multiset.range,
      Multiset.map_coe, Multiset.sum_coe, List.map_id']
  rw [sumOf_exact adds _ 0 (by omega), Nat.zero_add, total]

/-- In every schedule every round prints the sum of the numbers below its number of
    calls, and a server that has nothing left to do has answered all of them. -/
theorem stress_test_prints_sums {rounds : List Nat} {s : Server Num}
    (reached : Reachable (Server.step A (stressTest num rounds).requests) Server.idle s) :
    (stressTest num rounds).printed.map Prod.fst = rounds ∧
      ∀ p ∈ (stressTest num rounds).printed,
        (p.1 * (p.1 - 1) / 2 < 2 ^ 53 → p.2 ∈ ids s.returned →
          objectOf s.returned p.2 = some (.number (num (p.1 * (p.1 - 1) / 2)))) ∧
        (Quiet A (stressTest num rounds).requests s → p.2 ∈ ids s.returned) := by
  have session := (reachable_sound reached).served
  have printed := rounds_print session num rounds ⟨[], []⟩ List.prefix_rfl (by simp)
  have ordered := (rounds_grow num rounds ⟨[], []⟩).ordered (by simp [Ordered])
  refine ⟨by rw [stressTest, rounds_printed, List.map_nil, List.nil_append], ?_⟩
  intro p member
  obtain ⟨prints, inside⟩ := printed p member
  refine ⟨?_, fun quiet => quiet_all_returned ordered quiet p.2 inside⟩
  intro small served
  rw [prints served, sumOf_range adds small]

end Exact

example : ∀ n ∈ testRounds, n * (n - 1) / 2 < 2 ^ 53 := by decide

def twoSumsSchedule : List Event :=
  [.start 1, .start 0, .advance 1, .advance 1, .start 2] ++ List.replicate 8 (.advance 2) ++
    [.start 3] ++ List.replicate 8 (.advance 3) ++ [.start 4, .advance 4, .advance 4]

theorem two_sums_printed : ∃ s,
    run (Server.step natural (stressTest id [2]).requests) Server.idle twoSumsSchedule = some s ∧
      objectOf s.returned 4 = some (.number 1) := by
  have order : (run (Server.step natural (stressTest id [2]).requests) Server.idle
      twoSumsSchedule).map (fun s => ids s.returned) = some [4, 3, 2, 1, 0] := by decide +kernel
  obtain ⟨s, reached, returned⟩ := Option.map_eq_some_iff.mp order
  have adds : ∀ a b, a + b < 2 ^ 53 → natural.apply .add (id a) (id b) = id (a + b) :=
    fun _ _ _ => rfl
  have prints := (stress_test_prints_sums adds ⟨twoSumsSchedule, reached⟩).2 (2, 4) (by decide)
  exact ⟨s, reached, prints.1 (by decide) (by rw [returned]; decide)⟩

/-- The messages of the test, in whatever language the client writes them: in every
    session the answer to the read of a round is the sum of the round from left to right. -/
theorem stress_messages_print_sums (F : ExpressionAccessors.Float64 Num) (A : Arithmetic Num)
    (l : ExpressionAccessors.Language) (num : Nat → Num) (rounds : List Nat)
    {w : CallDispatch.WireHistory Num}
    (session : Handled F A (clientMessages F l (stressTest num rounds).requests) w) :
    ∀ p ∈ (stressTest num rounds).printed, p.2 ∈ w.map Prod.fst →
      objectOf (plainHistory F w) p.2 =
        some (.number (sumOf A num (num 0) (List.range p.1))) := by
  intro p member answered
  have sendable := (rounds_grow num rounds ⟨[], []⟩).sendable (by simp)
  have served := handled_served (clientMessages_sends F A l sendable) session
  have printed := rounds_print served num rounds ⟨[], []⟩ List.prefix_rfl (by simp) p member
  apply printed.1
  rw [ids_plainHistory]
  exact answered

def oneSumMessages : List CallDispatch.CallMessage :=
  clientMessages words .ts (stressTest UInt64.ofNat [1]).requests

theorem one_sum_handled : Handled words wrapping oneSumMessages
    (answersTo oneSumMessages [1, 0, 2, 3]) := by
  have operator : oneSumMessages[0]? = some _ := rfl
  have zero : oneSumMessages[1]? = some _ := rfl
  have sum : oneSumMessages[2]? = some _ := rfl
  have read : oneSumMessages[3]? = some _ := rfl
  have first := (Handled.start (F := words) (A := wrapping)).handle zero (by decide) (by decide)
  have second := first.handle operator (by decide) (by decide)
  have third := second.handle sum (by decide) (by decide)
  exact third.handle read (by decide) (by decide)

theorem one_sum_printed :
    objectOf (plainHistory words (answersTo oneSumMessages [1, 0, 2, 3])) 3 = some (.number 0) :=
  stress_messages_print_sums words wrapping .ts UInt64.ofNat [1] one_sum_handled (1, 3)
    (by decide) (by decide)

end StressRounds
