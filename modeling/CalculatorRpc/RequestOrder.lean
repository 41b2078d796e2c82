import CalculatorRpc.ParameterSubstitution
import Mathlib.Algebra.Order.Ring.Nat
import Mathlib.Data.List.Nodup

/- The requests that one evaluation makes, in order. The nodes of an expression
   are listed from left to right with every node after its parameters, each with
   its path from the root; an evaluation is accounted for by what happened at the
   nodes of this list that it came to. -/
namespace RequestOrder
open CalculatorExpression CalculatorEvaluate FallibleRuns ParameterSubstitution

variable {σ F V Num : Type}

/-- A node by the way to it: at each call node, the number of a parameter. -/
abbrev Node (F V Num : Type) := List Nat × Expression F V Num

def Node.below (i : Nat) (n : Node F V Num) : Node F V Num := (i :: n.1, n.2)

mutual
def postOrder : Expression F V Num → List (Node F V Num)
  | .call f ps => postOrderFrom 0 ps ++ [([], .call f ps)]
  | e => [([], e)]

def postOrderFrom (i : Nat) : List (Expression F V Num) → List (Node F V Num)
  | [] => []
  | p :: ps => (postOrder p).map (Node.below i) ++ postOrderFrom (i + 1) ps
end

mutual
def NoNulls : Expression F V Num → Prop
  | .previousResult v => v ≠ none
  | .call f ps => f ≠ none ∧ AllNoNulls ps
  | _ => True

def AllNoNulls : List (Expression F V Num) → Prop
  | [] => True
  | p :: ps => NoNulls p ∧ AllNoNulls ps
end

structure Visit (σ F V Num : Type) where
  path : List Nat
  expression : Expression F V Num
  request : Option (Request F V Num)
  before : σ
  outcome : Except Error Num
  after : σ

def Visit.node (u : Visit σ F V Num) : Node F V Num := (u.path, u.expression)

def Visit.below (i : Nat) (u : Visit σ F V Num) : Visit σ F V Num := { u with path := i :: u.path }

def Visit.Succeeded (u : Visit σ F V Num) : Prop := ∃ v, u.outcome = .ok v

def argument (callParams : Option (List Num)) (pr : UInt32) : Except Error Num :=
  match callParams with
  | none => .error (.outsideFunction pr)
  | some l =>
    match l[pr.toNat]? with
    | some v => .ok v
    | none => .error (.missingParameter pr l.length)

/-- The node did what a node of its kind does. A call carries one argument for
    each parameter, the value that came out at that parameter's own visit. -/
def Behaves (w : World σ F V Num) (callParams : Option (List Num)) (visits : List (Visit σ F V Num))
    (u : Visit σ F V Num) : Prop :=
  match u.expression with
  | .literal v => u.request = none ∧ u.outcome = .ok v ∧ u.after = u.before
  | .previousResult none => False
  | .previousResult (some v) =>
    u.request = some (.read v) ∧ (u.outcome, u.after) = w.read v u.before
  | .parameter pr => u.request = none ∧ u.outcome = argument callParams pr ∧ u.after = u.before
  | .call none _ => False
  | .call (some f) ps => ∃ args, args.length = ps.length ∧
      (∀ i v, args[i]? = some v → ∃ p ∈ visits, p.path = u.path ++ [i] ∧ p.outcome = .ok v) ∧
      u.request = some (.call f args) ∧ (u.outcome, u.after) = w.call f args u.before
  | .unknown which =>
    u.request = none ∧ u.outcome = .error (.unknownExpression which) ∧ u.after = u.before

def Threaded : σ → List (Visit σ F V Num) → σ → Prop
  | s, [], s' => s' = s
  | s, u :: us, s' => u.before = s ∧ Threaded u.after us s'

/-- The visits go through the nodes in order and once each, up to the first that
    fails, and through all of them if none does. -/
structure Account (w : World σ F V Num) (callParams : Option (List Num)) (nodes : List (Node F V Num))
    (s : σ) (visits : List (Visit σ F V Num)) (s' : σ) : Prop where
  order : visits.map Visit.node <+: nodes
  cut : ∀ u ∈ visits.dropLast, u.Succeeded
  whole : (∀ u ∈ visits, u.Succeeded) → visits.map Visit.node = nodes
  threaded : Threaded s visits s'
  behaves : ∀ u ∈ visits, Behaves w callParams visits u

theorem allNoNulls_iff (ps : List (Expression F V Num)) : AllNoNulls ps ↔ ∀ p ∈ ps, NoNulls p := by
  induction ps with
  | nil => simp [AllNoNulls]
  | cons p ps ih => simp [AllNoNulls, ih]

theorem threaded_append {s s' s'' : σ} {us vs : List (Visit σ F V Num)} (first : Threaded s us s')
    (second : Threaded s' vs s'') : Threaded s (us ++ vs) s'' := by
  induction us generalizing s with
  | nil =>
    unfold Threaded at first
    subst s'
    exact second
  | cons u us ih => exact ⟨first.1, ih first.2⟩

theorem threaded_below (i : Nat) {s s' : σ} {us : List (Visit σ F V Num)} (h : Threaded s us s') :
    Threaded s (us.map (Visit.below i)) s' := by
  induction us generalizing s with
  | nil => exact h
  | cons u us ih => exact ⟨h.1, ih h.2⟩

theorem requests_below (i : Nat) (us : List (Visit σ F V Num)) :
    (us.map (Visit.below i)).filterMap Visit.request = us.filterMap Visit.request := by
  rw [List.filterMap_map]
  rfl

theorem postOrder_last (e : Expression F V Num) : (postOrder e).getLast? = some ([], e) := by
  cases e <;> simp [postOrder]

theorem postOrderFrom_path {i : Nat} {ps : List (Expression F V Num)} {path : List Nat}
    (member : path ∈ (postOrderFrom i ps).map Prod.fst) : ∃ j rest, path = j :: rest ∧ i ≤ j := by
  induction ps generalizing i with
  | nil => simp [postOrderFrom] at member
  | cons p ps ih =>
    rw [postOrderFrom, List.map_append, List.mem_append] at member
    rcases member with first | later
    · simp only [List.map_map, List.mem_map, Function.comp_apply, Node.below] at first
      obtain ⟨n, -, eq⟩ := first
      exact ⟨i, n.1, eq.symm, Nat.le_refl i⟩
    · obtain ⟨j, rest, eq, above⟩ := ih later
      exact ⟨j, rest, eq, by omega⟩

theorem postOrderFrom_nodup {ps : List (Expression F V Num)}
    (each : ∀ p ∈ ps, ((postOrder p).map Prod.fst).Nodup) (i : Nat) :
    ((postOrderFrom i ps).map Prod.fst).Nodup := by
  induction ps generalizing i with
  | nil => simp [postOrderFrom]
  | cons p ps ih =>
    have moved : ((postOrder p).map (Node.below i)).map Prod.fst =
        ((postOrder p).map Prod.fst).map (List.cons i) := by
      rw [List.map_map, List.map_map]
      rfl
    rw [postOrderFrom, List.map_append, moved, List.nodup_append]
    refine ⟨(each p List.mem_cons_self).map List.cons_injective,
      ih (fun q hq => each q (List.mem_cons_of_mem p hq)) (i + 1), ?_⟩
    -- The paths of a parameter begin with its number.
    intro path first path' later same
    obtain ⟨rest, -, eq⟩ := List.mem_map.mp first
    obtain ⟨j, rest', eq', above⟩ := postOrderFrom_path later
    have heads : i = j := (List.cons.inj (eq.trans (same.trans eq'))).1
    omega

theorem postOrder_nodup (e : Expression F V Num) : ((postOrder e).map Prod.fst).Nodup := by
  induction e with
  | call f ps ih =>
    rw [postOrder, List.map_append, List.nodup_append]
    refine ⟨postOrderFrom_nodup ih 0, by simp, ?_⟩
    intro path below root is_root same
    obtain ⟨j, rest, eq, -⟩ := postOrderFrom_path below
    simp [← same, eq] at is_root
  | _ => simp [postOrder]

section Accounts

variable {w : World σ F V Num} {callParams : Option (List Num)}

theorem behaves_more {us vs : List (Visit σ F V Num)} {u : Visit σ F V Num} (more : us ⊆ vs)
    (h : Behaves w callParams us u) : Behaves w callParams vs u := by
  obtain ⟨path, e, request, before, outcome, after⟩ := u
  rcases e with v | (_ | v) | pr | ⟨_ | f, ps⟩ | which
  case call.some =>
    obtain ⟨args, len, each, made⟩ := h
    refine ⟨args, len, fun i v found => ?_, made⟩
    obtain ⟨p, member, at_path, value⟩ := each i v found
    exact ⟨p, more member, at_path, value⟩
  all_goals exact h

theorem behaves_below (i : Nat) {us : List (Visit σ F V Num)} {u : Visit σ F V Num}
    (h : Behaves w callParams us u) :
    Behaves w callParams (us.map (Visit.below i)) (u.below i) := by
  obtain ⟨path, e, request, before, outcome, after⟩ := u
  rcases e with v | (_ | v) | pr | ⟨_ | f, ps⟩ | which
  case call.some =>
    obtain ⟨args, len, each, made⟩ := h
    refine ⟨args, len, fun j v found => ?_, made⟩
    obtain ⟨p, member, at_path, value⟩ := each j v found
    refine ⟨p.below i, List.mem_map_of_mem member, ?_, value⟩
    simp only [Visit.below, at_path, List.cons_append]
  all_goals exact h

theorem account_nil (s : σ) : Account w callParams ([] : List (Node F V Num)) s [] s :=
  { order := List.prefix_refl []
    cut := by simp
    whole := fun _ => rfl
    threaded := rfl
    behaves := by simp }

theorem Account.all_succeeded {nodes : List (Node F V Num)} {s s' : σ}
    {visits : List (Visit σ F V Num)} (a : Account w callParams nodes s visits s')
    {last : Visit σ F V Num} (is_last : visits.getLast? = some last) (succeeded : last.Succeeded) :
    ∀ u ∈ visits, u.Succeeded := by
  intro u member
  rw [← List.dropLast_append_getLast? last is_last] at member
  rcases List.mem_append.mp member with before | now
  · exact a.cut u before
  · rw [List.mem_singleton.mp now]
    exact succeeded

theorem not_all_succeeded {visits : List (Visit σ F V Num)} {last : Visit σ F V Num}
    (is_last : visits.getLast? = some last) {e : Error} (failed : last.outcome = .error e) :
    ¬ ∀ u ∈ visits, u.Succeeded := by
  intro all
  obtain ⟨v, succeeded⟩ := all last (List.mem_of_getLast? is_last)
  rw [failed] at succeeded
  cases succeeded

theorem Account.last_is_root {e : Expression F V Num} {s s' : σ} {visits : List (Visit σ F V Num)}
    (a : Account w callParams (postOrder e) s visits s') {last : Visit σ F V Num}
    (is_last : visits.getLast? = some last) (all : ∀ u ∈ visits, u.Succeeded) : last.path = [] := by
  have root := postOrder_last e
  rw [← a.whole all, List.getLast?_map, is_last, Option.map_some, Option.some.injEq] at root
  exact congrArg Prod.fst root

theorem Account.below {nodes : List (Node F V Num)} {s s' : σ} {visits : List (Visit σ F V Num)}
    (a : Account w callParams nodes s visits s') (i : Nat) :
    Account w callParams (nodes.map (Node.below i)) s (visits.map (Visit.below i)) s' := by
  have moved : (visits.map (Visit.below i)).map Visit.node =
      (visits.map Visit.node).map (Node.below i) := by
    rw [List.map_map, List.map_map]
    rfl
  refine
    { order := moved ▸ a.order.map _
      cut := ?_
      whole := ?_
      threaded := threaded_below i a.threaded
      behaves := ?_ }
  · intro u member
    rw [← List.map_dropLast] at member
    obtain ⟨u', member', eq⟩ := List.mem_map.mp member
    subst u
    exact a.cut u' member'
  · intro all
    rw [moved, a.whole (fun u member => all (u.below i) (List.mem_map_of_mem member))]
  · intro u member
    obtain ⟨u', member', eq⟩ := List.mem_map.mp member
    subst u
    exact behaves_below i (a.behaves u' member')

/-- Nothing failed, so the nodes that follow are visited as well. What they use may
    have come out at the earlier ones. -/
theorem Account.extend {nodes more : List (Node F V Num)} {s s' s'' : σ}
    {us vs : List (Visit σ F V Num)} (first : Account w callParams nodes s us s')
    (all : ∀ u ∈ us, u.Succeeded) (order : vs.map Visit.node <+: more)
    (cut : ∀ u ∈ vs.dropLast, u.Succeeded)
    (whole : (∀ u ∈ vs, u.Succeeded) → vs.map Visit.node = more) (threaded : Threaded s' vs s'')
    (behaves : ∀ u ∈ vs, Behaves w callParams (us ++ vs) u) :
    Account w callParams (nodes ++ more) s (us ++ vs) s'' := by
  have front := first.whole all
  refine
    { order := ?_
      cut := ?_
      whole := ?_
      threaded := threaded_append first.threaded threaded
      behaves := ?_ }
  · rw [List.map_append, front]
    exact (List.prefix_append_right_inj nodes).mpr order
  · intro u member
    by_cases empty : vs = []
    · subst vs
      rw [List.append_nil] at member
      exact all u (List.dropLast_subset us member)
    · rw [List.dropLast_append_of_ne_nil empty] at member
      rcases List.mem_append.mp member with before | later
      · exact all u before
      · exact cut u later
  · intro every
    rw [List.map_append, front, whole (fun u member => every u (List.mem_append_right us member))]
  · intro u member
    rcases List.mem_append.mp member with before | later
    · exact behaves_more (List.subset_append_left us vs) (first.behaves u before)
    · exact behaves u later

theorem Account.append {nodes more : List (Node F V Num)} {s s' s'' : σ}
    {us vs : List (Visit σ F V Num)} (first : Account w callParams nodes s us s')
    (all : ∀ u ∈ us, u.Succeeded) (second : Account w callParams more s' vs s'') :
    Account w callParams (nodes ++ more) s (us ++ vs) s'' := by
  apply first.extend all second.order second.cut second.whole second.threaded
  intro u member
  exact behaves_more (List.subset_append_right us vs) (second.behaves u member)

theorem Account.stop {nodes : List (Node F V Num)} {s s' : σ} {us : List (Visit σ F V Num)}
    (first : Account w callParams nodes s us s') (failed : ¬ ∀ u ∈ us, u.Succeeded)
    (more : List (Node F V Num)) : Account w callParams (nodes ++ more) s us s' :=
  { order := first.order.trans (List.prefix_append nodes more)
    cut := first.cut
    whole := fun all => absurd all failed
    threaded := first.threaded
    behaves := first.behaves }

theorem Account.visit {nodes : List (Node F V Num)} {s s' : σ} {us : List (Visit σ F V Num)}
    (first : Account w callParams nodes s us s') (all : ∀ u ∈ us, u.Succeeded)
    {last : Visit σ F V Num} (start : last.before = s')
    (behaves : Behaves w callParams (us ++ [last]) last) :
    Account w callParams (nodes ++ [last.node]) s (us ++ [last]) last.after := by
  have threaded : Threaded s' [last] last.after := ⟨start, rfl⟩
  have alone : ∀ u ∈ [last], Behaves w callParams (us ++ [last]) u := by
    intro u member
    rw [List.mem_singleton.mp member]
    exact behaves
  exact first.extend all (List.prefix_refl _) (by simp) (fun _ => rfl) threaded alone

end Accounts

section Evaluation

variable {w : World σ F V Num} {callParams : Option (List Num)} {zero : Num}

/-- What is to be shown of an evaluation: the log grows by the requests of the
    visits, and the outcome is that of the last node visited. -/
def AccountedFor (w : World σ F V Num) (callParams : Option (List Num)) (e : Expression F V Num)
    (run : σ × List (Request F V Num) → Except Error Num × (σ × List (Request F V Num))) : Prop :=
  ∀ s log, ∃ visits s' last, Account w callParams (postOrder e) s visits s' ∧
    visits.getLast? = some last ∧
    run (s, log) = (last.outcome, (s', log ++ visits.filterMap Visit.request))

theorem accounted_leaf {e : Expression F V Num} (leaf : postOrder e = [([], e)])
    {run : σ × List (Request F V Num) → Except Error Num × (σ × List (Request F V Num))}
    (request : Option (Request F V Num))
    (behaves : ∀ s log, Behaves w callParams []
      ⟨[], e, request, s, (run (s, log)).1, (run (s, log)).2.1⟩)
    (entry : ∀ s log, (run (s, log)).2.2 = log ++ request.toList) : AccountedFor w callParams e run := by
  intro s log
  let last : Visit σ F V Num := ⟨[], e, request, s, (run (s, log)).1, (run (s, log)).2.1⟩
  have alone : Account w callParams (postOrder e) s [last] last.after := by
    rw [leaf]
    exact (account_nil s).visit (by simp) rfl (behaves_more (List.nil_subset _) (behaves s log))
  have grown : (run (s, log)).2.2 = log ++ [last].filterMap Visit.request := by
    rw [entry s log]
    cases request <;> rfl
  exact ⟨[last], last.after, last, alone, rfl, by rw [← grown]⟩

theorem params_accounted {ps : List (Expression F V Num)}
    (each : ∀ p ∈ ps, AccountedFor w callParams p (evaluate int64 (logged zero w) callParams p))
    (i : Nat) (s : σ) (log : List (Request F V Num)) :
    ∃ visits s', Account w callParams (postOrderFrom i ps) s visits s' ∧
      ((∃ e last, visits.getLast? = some last ∧ last.outcome = .error e ∧
          runAll (evaluate int64 (logged zero w) callParams) ps (s, log) =
            (.error e, (s', log ++ visits.filterMap Visit.request))) ∨
        ∃ vs, (∀ u ∈ visits, u.Succeeded) ∧
          (∀ j v, vs[j]? = some v → ∃ p ∈ visits, p.path = [i + j] ∧ p.outcome = .ok v) ∧
          runAll (evaluate int64 (logged zero w) callParams) ps (s, log) =
            (.ok vs, (s', log ++ visits.filterMap Visit.request))) := by
  induction ps generalizing i s log with
  | nil => exact ⟨[], s, account_nil s, Or.inr ⟨[], by simp, by simp, by simp [runAll]⟩⟩
  | cons p ps ih =>
    obtain ⟨us, s', last, head, is_last, run⟩ := each p List.mem_cons_self s log
    have last_below : (us.map (Visit.below i)).getLast? = some (last.below i) := by
      rw [List.getLast?_map, is_last, Option.map_some]
    cases outcome : last.outcome with
    | error e =>
      rw [outcome] at run
      have failed := not_all_succeeded last_below outcome
      refine ⟨us.map (Visit.below i), s', (head.below i).stop failed _, Or.inl ?_⟩
      refine ⟨e, last.below i, last_below, outcome, ?_⟩
      rw [runAll_cons_error run, requests_below]
    | ok v =>
      rw [outcome] at run
      have all := head.all_succeeded is_last ⟨v, outcome⟩
      have all_below : ∀ u ∈ us.map (Visit.below i), u.Succeeded := by
        intro u member
        obtain ⟨u', member', eq⟩ := List.mem_map.mp member
        subst u
        exact all u' member'
      obtain ⟨vs, s'', tail, rest⟩ := ih (fun q hq => each q (List.mem_cons_of_mem p hq))
        (i + 1) s' (log ++ us.filterMap Visit.request)
      have grown : log ++ us.filterMap Visit.request ++ vs.filterMap Visit.request =
          log ++ (us.map (Visit.below i) ++ vs).filterMap Visit.request := by
        rw [List.filterMap_append, requests_below, List.append_assoc]
      refine ⟨us.map (Visit.below i) ++ vs, s'', (head.below i).append all_below tail, ?_⟩
      rw [runAll_cons_ok run]
      rcases rest with ⟨e, final, is_final, failed, rest⟩ | ⟨values, succeeded, found, rest⟩
      · refine Or.inl ⟨e, final, ?_, failed, ?_⟩
        · rw [List.getLast?_append, is_final]
          rfl
        · rw [rest, grown]
          rfl
      · refine Or.inr ⟨v :: values, ?_, ?_, ?_⟩
        · intro u member
          rcases List.mem_append.mp member with before | later
          · exact all_below u before
          · exact succeeded u later
        · intro j x value
          cases j with
          | zero =>
            rw [List.getElem?_cons_zero, Option.some.injEq] at value
            subst x
            refine ⟨last.below i, List.mem_append_left _ (List.mem_of_getLast? last_below), ?_, outcome⟩
            simp only [Visit.below, head.last_is_root is_last all, Nat.add_zero]
          | succ j =>
            obtain ⟨u, member, path, result⟩ := found j x value
            refine ⟨u, List.mem_append_right _ member, ?_, result⟩
            rw [path, Nat.add_assoc, Nat.add_comm 1 j]
        · rw [rest, grown]
          rfl

theorem evaluate_argument (pr : UInt32) (s : σ × List (Request F V Num)) :
    evaluate int64 (logged zero w) callParams (.parameter pr) s = (argument callParams pr, s) := by
  cases callParams with
  | none => rfl
  | some l =>
    rw [evaluate_parameter]
    rfl

theorem evaluate_logged_call (f : F) (ps : List (Expression F V Num)) :
    evaluate int64 (logged zero w) callParams (.call (some f) ps) =
      andThen (runAll (evaluate int64 (logged zero w) callParams) ps) ((logged zero w).call f) := by
  rw [evaluate_call_andThen]
  rfl

theorem evaluate_accounted (e : Expression F V Num) (noNulls : NoNulls e) :
    AccountedFor w callParams e (evaluate int64 (logged zero w) callParams e) := by
  induction e with
  | literal v =>
    exact accounted_leaf rfl none (fun _ _ => ⟨rfl, rfl, rfl⟩) (fun _ log => (List.append_nil log).symm)
  | previousResult v =>
    cases v with
    | none => exact absurd rfl noNulls
    | some v => exact accounted_leaf rfl (some (.read v)) (fun _ _ => ⟨rfl, rfl⟩) (fun _ _ => rfl)
  | parameter pr =>
    refine accounted_leaf rfl none (fun s log => ?_) (fun s log => ?_)
    · rw [evaluate_argument]
      exact ⟨rfl, rfl, rfl⟩
    · rw [evaluate_argument]
      exact (List.append_nil log).symm
  | call f ps ih =>
    cases f with
    | none => exact absurd rfl noNulls.1
    | some f =>
      have each := fun p hp => ih p hp ((allNoNulls_iff ps).mp noNulls.2 p hp)
      intro s log
      obtain ⟨us, s', params, rest⟩ := params_accounted each 0 s log
      rcases rest with ⟨e, last, is_last, failed, run⟩ | ⟨vs, all, found, run⟩
      · have stopped := not_all_succeeded is_last failed
        refine ⟨us, s', last, params.stop stopped _, is_last, ?_⟩
        rw [evaluate_logged_call, andThen, run, failed]
      · -- The callback is over without an error, so the list it filled is complete.
        have len : vs.length = ps.length := runAll_length (congrArg Prod.fst run)
        let last : Visit σ F V Num :=
          ⟨[], .call (some f) ps, some (.call f vs), s', (w.call f vs s').1, (w.call f vs s').2⟩
        have behaves : Behaves w callParams (us ++ [last]) last := by
          refine ⟨vs, len, fun i v value => ?_, rfl, rfl⟩
          obtain ⟨p, member, path, result⟩ := found i v value
          rw [Nat.zero_add] at path
          exact ⟨p, List.mem_append_left _ member, path, result⟩
        refine ⟨us ++ [last], last.after, last, params.visit all rfl behaves, List.getLast?_concat, ?_⟩
        rw [evaluate_logged_call, andThen, run, List.filterMap_append, ← List.append_assoc]
        rfl
  | unknown which =>
    exact accounted_leaf rfl none (fun _ _ => ⟨rfl, rfl, rfl⟩) (fun _ log => (List.append_nil log).symm)

end Evaluation

/-- The requests of an evaluation are those of the call and previousResult nodes in
    post-order, one each, up to the first node that fails; a call is made with the values of
    all its parameters; and the outcome is the root's value exactly when no node
    failed. -/
theorem requests_in_post_order (zero : Num) (w : World σ F V Num) (callParams : Option (List Num))
    (e : Expression F V Num) (noNulls : NoNulls e) (s : σ) (log : List (Request F V Num)) :
    ((postOrder e).map Prod.fst).Nodup ∧
    ∃ visits s', Account w callParams (postOrder e) s visits s' ∧
      (evaluate int64 (logged zero w) callParams e (s, log)).2 =
        (s', log ++ visits.filterMap Visit.request) ∧
      ∀ v, (evaluate int64 (logged zero w) callParams e (s, log)).1 = .ok v ↔
        (∀ u ∈ visits, u.Succeeded) ∧
        ∃ root, visits.getLast? = some root ∧ root.path = [] ∧ root.outcome = .ok v := by
  obtain ⟨visits, s', last, account, is_last, run⟩ := evaluate_accounted e noNulls s log
  rw [run]
  refine ⟨postOrder_nodup e, visits, s', account, rfl, fun v => ?_⟩
  constructor
  · intro outcome
    have all := account.all_succeeded is_last ⟨v, outcome⟩
    exact ⟨all, last, is_last, account.last_is_root is_last all, outcome⟩
  · rintro ⟨-, root, is_root, -, outcome⟩
    rw [is_last, Option.some.injEq] at is_root
    subst root
    exact outcome

def thirdFails : World Nat Nat Nat Nat where
  call := fun _ args n => (if n = 2 then .error (.remote "third") else .ok (args.sum + n), n + 1)
  read := fun v n => (if n = 2 then .error (.remote "third") else .ok (v + n), n + 1)

def nestedCalls : Expression Nat Nat Nat :=
  .call (some 0) [.call (some 1) [.literal 3, .parameter 0], .previousResult (some 5),
    .call (some 2) [.literal 1], .previousResult (some 6)]

theorem nested_calls_in_post_order :
    NoNulls nestedCalls ∧ ((postOrder nestedCalls).map Prod.fst).Nodup ∧
    ∃ visits s', Account thirdFails (some [4]) (postOrder nestedCalls) 0 visits s' ∧
      (evaluate int64 (logged 0 thirdFails) (some [4]) nestedCalls (0, [])).2 =
        (s', [] ++ visits.filterMap Visit.request) ∧
      ∀ v, (evaluate int64 (logged 0 thirdFails) (some [4]) nestedCalls (0, [])).1 = .ok v ↔
        (∀ u ∈ visits, u.Succeeded) ∧
        ∃ root, visits.getLast? = some root ∧ root.path = [] ∧ root.outcome = .ok v := by
  have noNulls : NoNulls nestedCalls := by simp [nestedCalls, NoNulls, AllNoNulls]
  exact ⟨noNulls, requests_in_post_order 0 thirdFails (some [4]) nestedCalls noNulls 0 []⟩

/-- The third request is made and fails; neither the fourth parameter nor the
    outer call is reached. -/
example : evaluate int64 (logged 0 thirdFails) (some [4]) nestedCalls (0, []) =
    (.error (.remote "third"), (3, [.call 1 [3, 4], .read 5, .call 2 [1]])) := by rfl

end RequestOrder
