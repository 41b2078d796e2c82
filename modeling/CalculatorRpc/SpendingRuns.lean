import CalculatorRpc.FallibleRuns
import Mathlib.Logic.Function.Basic
import Mathlib.Algebra.Order.Ring.Nat

/- Computations that draw on accounts which nobody refills. Such a computation is
   described by its outcome with unlimited accounts, and by what it takes from
   them when it succeeds. -/
namespace SpendingRuns
open FallibleRuns

variable {K E α β : Type}

abbrev Budget (K : Type) := K → Nat

/-- A computation with the outcome `unlimited`. It succeeds when nothing else
    stands in its way and the accounts cover its cost, and it takes exactly the
    cost then. In all other cases it fails, and no account has grown. -/
structure Spends (c : Budget K → Except E α × Budget K) (fits : Prop) (cost : Budget K)
    (unlimited : Except E α) : Prop where
  covered : ∀ s v, unlimited = .ok v → fits → (∀ k, cost k ≤ s k) →
    c s = (.ok v, fun k => s k - cost k)
  fails : ∀ s, ¬ ((∃ v, unlimited = .ok v) ∧ fits ∧ ∀ k, cost k ≤ s k) →
    ∃ e s', c s = (.error e, s') ∧ ∀ k, s' k ≤ s k

theorem Spends.congr {c : Budget K → Except E α × Budget K} {fits fits' : Prop}
    {cost cost' : Budget K} {unlimited : Except E α} (run : Spends c fits cost unlimited)
    (same_fits : fits ↔ fits') (same_cost : ∀ k, cost k = cost' k) :
    Spends c fits' cost' unlimited := by
  have eq : cost = cost' := funext same_cost
  rw [← eq, ← propext same_fits]
  exact run

theorem spends_ok (v : α) :
    Spends (fun s : Budget K => (Except.ok v, s)) True 0 (Except.ok v : Except E α) := by
  constructor
  · intro s w same _ _
    rw [Except.ok.injEq] at same
    subst w
    rfl
  · intro s short
    exact absurd ⟨⟨v, rfl⟩, trivial, fun k => Nat.zero_le (s k)⟩ short

theorem spends_error (e : E) (fits : Prop) (cost : Budget K) :
    Spends (fun s => (.error e, s)) fits cost (Except.error e : Except E α) := by
  constructor
  · intro s v impossible
    simp at impossible
  · intro s _
    exact ⟨e, s, rfl, fun k => Nat.le_refl (s k)⟩

theorem spends_outcome (r : Except E α) : Spends (fun s : Budget K => (r, s)) True 0 r := by
  cases r with
  | error e => exact spends_error e True 0
  | ok v => exact spends_ok v

theorem spends_andThen {c : Budget K → Except E α × Budget K} {d : α → Budget K → Except E β × Budget K}
    {fits fits' : Prop} {cost cost' : Budget K} {p : Except E α} {q : α → Except E β}
    (first : Spends c fits cost p) (second : ∀ a, p = .ok a → Spends (d a) fits' cost' (q a)) :
    Spends (andThen c d) (fits ∧ fits') (cost + cost') (p.bind q) := by
  constructor
  · intro s v result both enough
    cases hp : p with
    | error e => simp [hp, Except.bind] at result
    | ok a =>
      simp only [hp, Except.bind] at result
      have run := first.covered s a hp both.1 (fun k => by have := enough k; simp at this; omega)
      have rest := (second a hp).covered (fun k => s k - cost k) v result both.2
        (fun k => by have := enough k; simp at this; omega)
      unfold andThen
      rw [run]
      simp only [rest, Pi.add_apply, Prod.mk.injEq, true_and]
      funext k
      omega
  · intro s short
    unfold andThen
    by_cases starts : (∃ a, p = .ok a) ∧ fits ∧ ∀ k, cost k ≤ s k
    · obtain ⟨⟨a, hp⟩, ready, enough⟩ := starts
      rw [first.covered s a hp ready enough]
      obtain ⟨e, s', run, spent⟩ := (second a hp).fails (fun k => s k - cost k) (by
        rintro ⟨⟨v, result⟩, ready', enough'⟩
        refine short ⟨⟨v, by simp [hp, Except.bind, result]⟩, ⟨ready, ready'⟩, fun k => ?_⟩
        have := enough k
        have := enough' k
        simp only [Pi.add_apply]
        omega)
      refine ⟨e, s', run, fun k => ?_⟩
      have := spent k
      omega
    · obtain ⟨e, s', run, spent⟩ := first.fails s starts
      rw [run]
      exact ⟨e, s', rfl, spent⟩

theorem Spends.le {c : Budget K → Except E α × Budget K} {fits : Prop} {cost : Budget K}
    {unlimited : Except E α} (run : Spends c fits cost unlimited) (s : Budget K) (k : K) :
    (c s).2 k ≤ s k := by
  by_cases enough : (∃ v, unlimited = .ok v) ∧ fits ∧ ∀ k, cost k ≤ s k
  · obtain ⟨⟨v, result⟩, ready, enough⟩ := enough
    rw [run.covered s v result ready enough]
    exact Nat.sub_le _ _
  · obtain ⟨e, s', failed, spent⟩ := run.fails s enough
    rw [failed]
    exact spent k

def after (c : α → Budget K → Except E β × Budget K) (s : Budget K) (xs : List α) : Budget K :=
  xs.foldl (fun s x => (c x s).2) s

theorem after_le {c : α → Budget K → Except E β × Budget K} (shrinks : ∀ x s k, (c x s).2 k ≤ s k)
    (xs : List α) (s : Budget K) (k : K) : after c s xs k ≤ s k := by
  induction xs generalizing s with
  | nil => exact Nat.le_refl (s k)
  | cons x xs ih => exact Nat.le_trans (ih (c x s).2) (shrinks x s k)

/-- Computations that all have the same cost: either the accounts cover all of
    them, or they do not cover even one more at the end. -/
theorem after_series {c : α → Budget K → Except E β × Budget K} {counted : α → Bool}
    {cost : Budget K} {fits : Prop} {p : α → Except E β} (ready : fits)
    (alike : ∀ x, counted x → Spends (c x) fits cost (p x))
    (succeeds : ∀ x, counted x → ∃ v, p x = .ok v)
    (others : ∀ x, ¬ counted x → ∀ s, (c x s).2 = s) (xs : List α) (s : Budget K) :
    ((∀ k, xs.countP counted * cost k ≤ s k) ∧
      ∀ k, after c s xs k = s k - xs.countP counted * cost k) ∨
    ((∃ k, s k < xs.countP counted * cost k) ∧ ∃ k, after c s xs k < cost k) := by
  have shrinks : ∀ x s k, (c x s).2 k ≤ s k := by
    intro x s k
    by_cases same : counted x
    · exact (alike x same).le s k
    · exact Nat.le_of_eq (congrFun (others x same s) k)
  induction xs generalizing s with
  | nil => simp [after]
  | cons x xs ih =>
    by_cases same : counted x
    · rw [List.countP_cons_of_pos same]
      by_cases enough : ∀ k, cost k ≤ s k
      · obtain ⟨v, result⟩ := succeeds x same
        have run := (alike x same).covered s v result ready enough
        have start : after c s (x :: xs) = after c (fun k => s k - cost k) xs := by
          simp only [after, List.foldl_cons, run]
        rw [start]
        rcases ih (fun k => s k - cost k) with ⟨covered, rest⟩ | ⟨⟨k, short⟩, left⟩
        · left
          constructor
          · intro k
            have := covered k
            have := enough k
            rw [Nat.succ_mul]
            omega
          · intro k
            rw [rest k, Nat.succ_mul]
            omega
        · right
          refine ⟨⟨k, ?_⟩, left⟩
          rw [Nat.succ_mul]
          omega
      · right
        obtain ⟨k, short⟩ := not_forall.mp enough
        have spent := shrinks x s k
        have later : after c s (x :: xs) k ≤ (c x s).2 k := after_le shrinks xs (c x s).2 k
        refine ⟨⟨k, ?_⟩, ⟨k, by omega⟩⟩
        rw [Nat.succ_mul]
        omega
    · have start : after c s (x :: xs) = after c s xs := by
        simp only [after, List.foldl_cons, others x same]
      rw [List.countP_cons_of_neg same, start]
      exact ih s

section Accounts

variable [DecidableEq K]

def charge (account : K) (n : Nat) : Budget K := Function.update 0 account n

/-- Take `n` from one account; `refused` is what a refusal leaves of it. -/
def take (refused : Nat → Nat → Nat) (e : E) (account : K) (n : Nat) (s : Budget K) :
    Except E Unit × Budget K :=
  if n ≤ s account then (.ok (), Function.update s account (s account - n))
  else (.error e, Function.update s account (refused n (s account)))

theorem take_elsewhere {account k : K} (other : k ≠ account) (refused : Nat → Nat → Nat) (e : E)
    (n : Nat)
    (s : Budget K) : (take refused e account n s).2 k = s k := by
  unfold take
  split
  · exact Function.update_of_ne other _ _
  · exact Function.update_of_ne other _ _

theorem charge_le (account : K) (n : Nat) (s : Budget K) :
    (∀ k, charge account n k ≤ s k) ↔ n ≤ s account := by
  constructor
  · intro all
    have here := all account
    rwa [charge, Function.update_self] at here
  · intro here k
    by_cases same : k = account
    · subst k
      rwa [charge, Function.update_self]
    · unfold charge
      rw [Function.update_of_ne same]
      exact Nat.zero_le _

theorem spends_take {refused : Nat → Nat → Nat} (keeps : ∀ n left, refused n left ≤ left) (e : E)
    (account : K) (n : Nat) : Spends (take refused e account n) True (charge account n) (.ok ()) := by
  constructor
  · intro s v _ _ enough
    unfold take
    rw [if_pos ((charge_le account n s).mp enough), Prod.mk.injEq]
    refine ⟨rfl, ?_⟩
    funext k
    by_cases same : k = account
    · subst k
      unfold charge
      rw [Function.update_self, Function.update_self]
    · unfold charge
      rw [Function.update_of_ne same, Function.update_of_ne same]
      rfl
  · intro s short
    have refuses : ¬ n ≤ s account := by
      intro enough
      exact short ⟨⟨(), rfl⟩, trivial, (charge_le account n s).mpr enough⟩
    unfold take
    rw [if_neg refuses]
    refine ⟨e, _, rfl, fun k => ?_⟩
    by_cases same : k = account
    · subst k
      rw [Function.update_self]
      exact keeps n (s account)
    · exact Nat.le_of_eq (Function.update_of_ne same _ _)

theorem spends_fresh {c : Budget K → Except E α × Budget K} {fits : Prop} {cost : Budget K}
    {p : Except E α} (account : K) (limit : Nat) (run : Spends c fits cost p) :
    Spends (fun s => ((c (Function.update s account limit)).1,
        Function.update (c (Function.update s account limit)).2 account (s account)))
      (fits ∧ cost account ≤ limit) (Function.update cost account 0) p := by
  have covers : ∀ s : Budget K, (∀ k, cost k ≤ Function.update s account limit k) ↔
      cost account ≤ limit ∧ ∀ k, Function.update cost account 0 k ≤ s k := by
    intro s
    constructor
    · intro all
      constructor
      · simpa using all account
      · intro k
        by_cases same : k = account
        · subst k
          simp
        · simpa [same] using all k
    · rintro ⟨inside, outside⟩ k
      by_cases same : k = account
      · subst k
        simpa using inside
      · simpa [same] using outside k
  constructor
  · intro s v result ready enough
    rw [run.covered _ v result ready.1 ((covers s).mpr ⟨ready.2, enough⟩), Prod.mk.injEq]
    refine ⟨rfl, ?_⟩
    funext k
    by_cases same : k = account
    · subst k
      simp
    · simp [same]
  · intro s short
    obtain ⟨e, s', fails, spent⟩ := run.fails (Function.update s account limit) (by
      rintro ⟨result, ready, enough⟩
      obtain ⟨inside, outside⟩ := (covers s).mp enough
      exact short ⟨result, ⟨ready, inside⟩, outside⟩)
    rw [fails]
    refine ⟨e, _, rfl, fun k => ?_⟩
    by_cases same : k = account
    · subst k
      simp
    · simpa [same] using spent k

end Accounts

end SpendingRuns
