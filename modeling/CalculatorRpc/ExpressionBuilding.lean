import CalculatorRpc.ExpressionAccessors
import CalculatorRpc.EventRuns
import Mathlib.Data.List.Forall2

/- Filling in an expression through the setters. A write goes to one node of the
   tree, named by the indices of the parameters that lead to it. A node has to be
   made before it is written, and the order is free otherwise. -/
namespace ExpressionBuilding
open CalculatorExpression MessageStructs ExpressionAccessors EventRuns

variable {C K L Num : Type}

inductive Write (K Num : Type) where
  | setLiteral (value : Num)
  | setPreviousResult (value : K)
  | setParameter (value : UInt32)
  | initCall
  | setFunction (value : K)
  | initParams (length : Nat)

structure Step (K Num : Type) where
  path : List Nat
  write : Write K Num

def perform (F : Float64 Num) (b : Setters) : Write Pointer Num → Struct → Option Struct
  | .setLiteral value => b.setLiteral (F.bits value)
  | .setPreviousResult value => b.setPreviousResult value
  | .setParameter value => b.setParameter value
  | .initCall => b.initCall
  | .setFunction value => b.setFunction value
  | .initParams length => b.initParams length

def performAt (F : Float64 Num) (b : Setters) :
    List Nat → Write Pointer Num → Struct → Option Struct
  | [], write => perform F b write
  | i :: path, write => atElement 1 i (performAt F b path write)

def structStep (F : Float64 Num) (b : Setters) (s : Struct) (st : Step Pointer Num) : Option Struct :=
  performAt F b st.path st.write s

structure Draft (C : Type) where
  root : Struct
  caps : CapTable C

def place (l : Language) : Write (Option C) Num → CapTable C → Write Pointer Num × CapTable C
  | .setLiteral value, caps => (.setLiteral value, caps)
  | .setPreviousResult c, caps => (.setPreviousResult (addCap l c caps).1, (addCap l c caps).2)
  | .setParameter value, caps => (.setParameter value, caps)
  | .initCall, caps => (.initCall, caps)
  | .setFunction c, caps => (.setFunction (addCap l c caps).1, (addCap l c caps).2)
  | .initParams length, caps => (.initParams length, caps)

def draftStep (F : Float64 Num) (l : Language) (d : Draft C) (st : Step (Option C) Num) :
    Option (Draft C) :=
  (performAt F (setters l) st.path (place l st.write d.caps).1 d.root).map fun root =>
    ⟨root, (place l st.write d.caps).2⟩

def Step.own (st : Step K Num) : Option (Write K Num) :=
  match st.path with
  | [] => some st.write
  | _ :: _ => none

def Step.below (i : Nat) (st : Step K Num) : Option (Step K Num) :=
  match st.path with
  | [] => none
  | j :: path => if j = i then some ⟨path, st.write⟩ else none

mutual
/-- The steps write that expression: every node once, a call before its function and
    its parameter list, and the list before its parameters. -/
def Builds (denotes : K → Option C → Prop) : Expression C C Num → List (Step K Num) → Prop
  | .literal value, steps => steps = [⟨[], .setLiteral value⟩]
  | .previousResult c, steps => ∃ k, denotes k c ∧ steps = [⟨[], .setPreviousResult k⟩]
  | .parameter index, steps => steps = [⟨[], .setParameter index⟩]
  | .call f ps, steps => ∃ k later, denotes k f ∧
      (steps = ⟨[], .initCall⟩ :: ⟨[], .setFunction k⟩ :: ⟨[], .initParams ps.length⟩ :: later ∧
          later.filterMap Step.own = [] ∨
        steps = ⟨[], .initCall⟩ :: ⟨[], .initParams ps.length⟩ :: later ∧
          later.filterMap Step.own = [.setFunction k]) ∧
      (∀ st ∈ later, ∀ i ∈ st.path.head?, i < ps.length) ∧ BuildsAll denotes ps 0 later
  | .unknown _, _ => False

def BuildsAll (denotes : K → Option C → Prop) :
    List (Expression C C Num) → Nat → List (Step K Num) → Prop
  | [], _, _ => True
  | p :: ps, i, later =>
    Builds denotes p (later.filterMap (Step.below i)) ∧ BuildsAll denotes ps (i + 1) later
end

theorem buildsAll_getElem {denotes : K → Option C → Prop} {ps : List (Expression C C Num)}
    {later : List (Step K Num)} {i j : Nat} {p : Expression C C Num}
    (builds : BuildsAll denotes ps i later) (found : ps[j]? = some p) :
    Builds denotes p (later.filterMap (Step.below (i + j))) := by
  induction ps generalizing i j with
  | nil => simp at found
  | cons q ps ih =>
    obtain ⟨first, rest⟩ := builds
    cases j with
    | zero =>
      rw [List.getElem?_cons_zero, Option.some.injEq] at found
      rw [← found]
      exact first
    | succ j =>
      rw [show i + (j + 1) = (i + 1) + j by omega]
      exact ih rest found

theorem buildsAll_of_getElem {denotes : K → Option C → Prop} {ps : List (Expression C C Num)}
    {later : List (Step K Num)} {i : Nat}
    (each : ∀ j p, ps[j]? = some p → Builds denotes p (later.filterMap (Step.below (i + j)))) :
    BuildsAll denotes ps i later := by
  induction ps generalizing i with
  | nil => exact trivial
  | cons q ps ih =>
    refine ⟨each 0 q rfl, ih ?_⟩
    intro j p found
    have next := each (j + 1) p found
    rw [show i + (j + 1) = (i + 1) + j by omega] at next
    exact next

def functionAfter (p : Pointer) : List (Write Pointer Num) → Pointer
  | [] => p
  | .setFunction q :: writes => functionAfter q writes
  | _ :: writes => functionAfter p writes

/-- Once the parameter list is there, every parameter has a run of its own, whatever the
    order in which their steps and the function come. -/
theorem run_parameters {F : Float64 Num} {b : Setters} (lawful : b.Lawful) {n : Nat}
    (later : List (Step Pointer Num))
    (functions : ∀ w ∈ later.filterMap Step.own, ∃ k, w = .setFunction k)
    (inside : ∀ st ∈ later, ∀ i ∈ st.path.head?, i < n) (final : Nat → Struct) {s : Struct}
    {element : Nat → Struct} (sized : Sized 16 2 s) (list : s.ptr 1 = .list n element)
    (each : ∀ i < n, run (structStep F b) (element i) (later.filterMap (Step.below i)) =
      some (final i)) :
    ∃ s' element', run (structStep F b) s later = some s' ∧ Sized 16 2 s' ∧ which s' = which s ∧
      s'.ptr 0 = functionAfter (s.ptr 0) (later.filterMap Step.own) ∧
      s'.ptr 1 = .list n element' ∧ ∀ i < n, element' i = final i := by
  induction later generalizing s element with
  | nil =>
    refine ⟨s, element, rfl, sized, rfl, rfl, list, ?_⟩
    intro i small
    exact Option.some.inj (each i small)
  | cons st later ih =>
    obtain ⟨path, write⟩ := st
    have insideLater : ∀ st ∈ later, ∀ i ∈ st.path.head?, i < n :=
      fun st member => inside st (List.mem_cons_of_mem _ member)
    cases path with
    | nil =>
      obtain ⟨k, eq⟩ := functions write (by simp [Step.own])
      subst eq
      obtain ⟨s₁, set, sized₁, tag, function, params⟩ := lawful.setFunction sized k
      have functionsLater : ∀ w ∈ later.filterMap Step.own, ∃ k, w = Write.setFunction k :=
        fun w member => functions w (by simp [Step.own, member])
      obtain ⟨s', element', rest, sized', tag', function', params', same⟩ :=
        ih functionsLater insideLater sized₁ (params.trans list) each
      refine ⟨s', element', ?_, sized', tag'.trans tag, ?_, params', same⟩
      · have first : structStep F b s ⟨[], .setFunction k⟩ = some s₁ := set
        rw [run, first, Option.bind_some, rest]
      · rw [function', function]
        rfl
    | cons j path =>
      have small : j < n := inside _ List.mem_cons_self j rfl
      have here : (Step.mk (j :: path) write).below j = some ⟨path, write⟩ := if_pos rfl
      have mine := each j small
      rw [List.filterMap_cons_some here, run, Option.bind_eq_some_iff] at mine
      obtain ⟨t, written, mine⟩ := mine
      have functionsLater : ∀ w ∈ later.filterMap Step.own, ∃ k, w = Write.setFunction k := functions
      have eachLater : ∀ i < n, run (structStep F b) (replace element j t i)
          (later.filterMap (Step.below i)) = some (final i) := by
        intro i below
        by_cases same : i = j
        · subst i
          rw [replace_same]
          exact mine
        · have skipped : (Step.mk (j :: path) write).below i = none := if_neg (Ne.symm same)
          have other := each i below
          rw [List.filterMap_cons_none skipped] at other
          rw [replace_other same]
          exact other
      obtain ⟨s', element', rest, sized', tag', function', params', same⟩ :=
        ih functionsLater insideLater (sized.putPtr 1 (.list n (replace element j t)))
          (ptr_put_same sized (by decide) _) eachLater
      refine ⟨s', element', ?_, sized', tag', ?_, params', same⟩
      · have first : structStep F b s ⟨j :: path, write⟩ =
            some (putPtr 1 (.list n (replace element j t)) s) := atElement_list list small written
        rw [run, first, Option.bind_some, rest]
      · rw [function', ptr_put_other (by decide)]
        rfl

theorem run_call {F : Float64 Num} {b : Setters} (lawful : b.Lawful) {caps : CapTable C}
    {ps : List (Expression C C Num)} {later : List (Step Pointer Num)} {s : Struct}
    (sized : Sized 16 2 s) (tag : which s = 3)
    (functions : ∀ w ∈ later.filterMap Step.own, ∃ k, w = .setFunction k)
    (inside : ∀ st ∈ later, ∀ i ∈ st.path.head?, i < ps.length)
    (each : ∀ i p, ps[i]? = some p → ∃ t, run (structStep F b) newExpression
      (later.filterMap (Step.below i)) = some t ∧ view F caps t = p) :
    ∃ s', run (structStep F b) s (⟨[], .initParams ps.length⟩ :: later) = some s' ∧ Sized 16 2 s' ∧
      view F caps s' =
        .call (client caps (functionAfter (s.ptr 0) (later.filterMap Step.own))) ps := by
  obtain ⟨s₁, made, sized₁, tag₁, function₁, params₁⟩ := lawful.initParams sized ps.length
  let final := fun i =>
    (run (structStep F b) newExpression (later.filterMap (Step.below i))).getD newExpression
  have runs : ∀ i < ps.length, run (structStep F b) newExpression
      (later.filterMap (Step.below i)) = some (final i) := by
    intro i small
    obtain ⟨t, ran, -⟩ := each i ps[i] (List.getElem?_eq_getElem small)
    simp only [final, ran, Option.getD_some]
  obtain ⟨s', element, rest, sized', tag', function', params', same⟩ :=
    run_parameters lawful later functions inside final sized₁ params₁ runs
  refine ⟨s', ?_, sized', ?_⟩
  · have first : structStep F b s ⟨[], .initParams ps.length⟩ = some s₁ := made
    rw [run, first, Option.bind_some, rest]
  · have elements : ((callParams s').elements.map (view F caps)) = ps := by
      rw [callParams, params', Pointer.elements, List.map_map]
      apply List.ext_getElem?
      intro i
      by_cases small : i < ps.length
      · obtain ⟨t, ran, seen⟩ := each i ps[i] (List.getElem?_eq_getElem small)
        have child : element i = t := by rw [same i small]; simp only [final, ran, Option.getD_some]
        rw [List.getElem?_map, List.getElem?_range small, Option.map_some, Function.comp, child,
          seen, List.getElem?_eq_getElem small]
      · rw [List.getElem?_eq_none (by simp; omega), List.getElem?_eq_none (by omega)]
    rw [view_call F caps (tag'.trans (tag₁.trans tag)), elements, callFunction, function', function₁]

theorem run_builds {F : Float64 Num} {b : Setters} (lawful : b.Lawful) {caps : CapTable C}
    (e : Expression C C Num) : ∀ {steps : List (Step Pointer Num)} {s : Struct},
    Builds (fun p c => client caps p = c) e steps → Sized 16 2 s →
    ∃ s', run (structStep F b) s steps = some s' ∧ Sized 16 2 s' ∧ view F caps s' = e := by
  induction e using Expression.induction with
  | literal v =>
    rintro steps s rfl sized
    obtain ⟨s', set, sized', tag, value⟩ := lawful.setLiteral sized (F.bits v)
    refine ⟨s', by simp only [run, structStep, performAt, perform, set, Option.bind_some], sized', ?_⟩
    rw [view_literal F caps tag, value, F.frombits_bits]
  | previousResult c =>
    rintro steps s ⟨k, denotes, rfl⟩ sized
    obtain ⟨s', set, sized', tag, value⟩ := lawful.setPreviousResult sized k
    refine ⟨s', by simp only [run, structStep, performAt, perform, set, Option.bind_some], sized', ?_⟩
    rw [view_previousResult F caps tag, value, denotes]
  | parameter i =>
    rintro steps s rfl sized
    obtain ⟨s', set, sized', tag, value⟩ := lawful.setParameter sized i
    refine ⟨s', by simp only [run, structStep, performAt, perform, set, Option.bind_some], sized', ?_⟩
    rw [view_parameter F caps tag, value]
  | call f ps ih =>
    rintro steps s ⟨k, later, denotes, order, inside, all⟩ sized
    obtain ⟨s₁, set, sized₁, tag₁⟩ := lawful.initCall sized
    have first : structStep F b s ⟨[], .initCall⟩ = some s₁ := set
    have each : ∀ i p, ps[i]? = some p → ∃ t, run (structStep F b) newExpression
        (later.filterMap (Step.below i)) = some t ∧ view F caps t = p := by
      intro i p found
      have builds := buildsAll_getElem all found
      rw [Nat.zero_add] at builds
      obtain ⟨t, ran, -, seen⟩ := ih p (List.mem_of_getElem? found) builds (newStruct_sized 16 2)
      exact ⟨t, ran, seen⟩
    rcases order with ⟨rfl, own⟩ | ⟨rfl, own⟩
    · obtain ⟨s₂, set₂, sized₂, tag₂, function₂, -⟩ := lawful.setFunction sized₁ k
      have second : structStep F b s₁ ⟨[], .setFunction k⟩ = some s₂ := set₂
      obtain ⟨s', ran, sized', seen⟩ :=
        run_call lawful sized₂ (tag₂.trans tag₁) (by simp [own]) inside each
      refine ⟨s', ?_, sized', ?_⟩
      · rw [run, first, Option.bind_some, run, second, Option.bind_some, ran]
      · rw [seen, own, functionAfter, function₂, denotes]
    · obtain ⟨s', ran, sized', seen⟩ :=
        run_call lawful sized₁ tag₁ (by simp [own]) inside each
      refine ⟨s', ?_, sized', ?_⟩
      · rw [run, first, Option.bind_some, ran]
      · rw [seen, own, functionAfter, functionAfter, denotes]
  | unknown w => rintro steps s ⟨⟩

inductive Write.Relates (r : K → L → Prop) : Write K Num → Write L Num → Prop where
  | setLiteral (value : Num) : Relates r (.setLiteral value) (.setLiteral value)
  | setPreviousResult {k : K} {l : L} (same : r k l) :
      Relates r (.setPreviousResult k) (.setPreviousResult l)
  | setParameter (value : UInt32) : Relates r (.setParameter value) (.setParameter value)
  | initCall : Relates r .initCall .initCall
  | setFunction {k : K} {l : L} (same : r k l) : Relates r (.setFunction k) (.setFunction l)
  | initParams (length : Nat) : Relates r (.initParams length) (.initParams length)

def Step.Relates (r : K → L → Prop) (st : Step K Num) (st' : Step L Num) : Prop :=
  st.path = st'.path ∧ st.write.Relates r st'.write

section Relating

variable {r : K → L → Prop} {steps : List (Step K Num)} {steps' : List (Step L Num)}

theorem relates_own (related : List.Forall₂ (Step.Relates r) steps steps') :
    List.Forall₂ (Write.Relates r) (steps.filterMap Step.own) (steps'.filterMap Step.own) := by
  apply List.rel_filterMap (R := Step.Relates r) _ related
  rintro ⟨path, write⟩ ⟨path', write'⟩ ⟨same, writes⟩
  obtain rfl : path = path' := same
  cases path with
  | nil => exact .some writes
  | cons j path => exact .none

theorem relates_below (related : List.Forall₂ (Step.Relates r) steps steps') (i : Nat) :
    List.Forall₂ (Step.Relates r) (steps.filterMap (Step.below i))
      (steps'.filterMap (Step.below i)) := by
  apply List.rel_filterMap (R := Step.Relates r) _ related
  rintro ⟨path, write⟩ ⟨path', write'⟩ ⟨same, writes⟩
  obtain rfl : path = path' := same
  cases path with
  | nil => exact .none
  | cons j path =>
    by_cases here : j = i
    · simp only [Step.below, if_pos here]
      exact .some ⟨rfl, writes⟩
    · simp only [Step.below, if_neg here]
      exact .none

theorem relates_inside (related : List.Forall₂ (Step.Relates r) steps steps') {n : Nat}
    (inside : ∀ st ∈ steps, ∀ i ∈ st.path.head?, i < n) :
    ∀ st ∈ steps', ∀ i ∈ st.path.head?, i < n := by
  induction related with
  | nil => simp
  | @cons st st' steps steps' here _ ih =>
    intro t member
    rcases List.mem_cons.mp member with first | later
    · subst t
      rw [← here.1]
      exact inside st List.mem_cons_self
    · exact ih (fun t m => inside t (List.mem_cons_of_mem _ m)) t later

theorem relates_head {w : Write K Num}
    (related : List.Forall₂ (Step.Relates r) (⟨[], w⟩ :: steps) steps') :
    ∃ w' rest, steps' = ⟨[], w'⟩ :: rest ∧ w.Relates r w' ∧
      List.Forall₂ (Step.Relates r) steps rest := by
  cases related with
  | @cons _ st' _ rest here tail =>
    obtain ⟨path, w'⟩ := st'
    obtain ⟨same, writes⟩ := here
    obtain rfl : [] = path := same
    exact ⟨w', rest, rfl, writes, tail⟩

theorem builds_relates {d : K → Option C → Prop} {d' : L → Option C → Prop}
    (denotes : ∀ k l c, r k l → d k c → d' l c) (e : Expression C C Num) :
    ∀ {steps : List (Step K Num)} {steps' : List (Step L Num)}, Builds d e steps →
      List.Forall₂ (Step.Relates r) steps steps' → Builds d' e steps' := by
  induction e using Expression.induction with
  | literal v =>
    rintro steps steps' rfl related
    obtain ⟨_, rest, rfl, ⟨⟩, tail⟩ := relates_head related
    rw [List.forall₂_nil_left_iff.mp tail]
    rfl
  | previousResult c =>
    rintro steps steps' ⟨k, here, rfl⟩ related
    obtain ⟨_, rest, rfl, writes, tail⟩ := relates_head related
    rw [List.forall₂_nil_left_iff.mp tail]
    cases writes with
    | @setPreviousResult _ l same => exact ⟨l, denotes k l c same here, rfl⟩
  | parameter i =>
    rintro steps steps' rfl related
    obtain ⟨_, rest, rfl, ⟨⟩, tail⟩ := relates_head related
    rw [List.forall₂_nil_left_iff.mp tail]
    rfl
  | call f ps ih =>
    rintro steps steps' ⟨k, later, here, order, inside, all⟩ related
    have params : ∀ {later'}, List.Forall₂ (Step.Relates r) later later' → BuildsAll d' ps 0 later' := by
      intro later' tail
      apply buildsAll_of_getElem
      intro j p found
      exact ih p (List.mem_of_getElem? found) (buildsAll_getElem all found) (relates_below tail _)
    rcases order with ⟨rfl, own⟩ | ⟨rfl, own⟩
    · obtain ⟨_, _, rfl, ⟨⟩, second⟩ := relates_head related
      obtain ⟨_, _, rfl, function, third⟩ := relates_head second
      obtain ⟨_, later', rfl, ⟨⟩, tail⟩ := relates_head third
      cases function with
      | @setFunction _ l same =>
        have own' := relates_own tail
        rw [own, List.forall₂_nil_left_iff] at own'
        exact ⟨l, later', denotes k l f same here, Or.inl ⟨rfl, own'⟩, relates_inside tail inside,
          params tail⟩
    · obtain ⟨_, _, rfl, ⟨⟩, second⟩ := relates_head related
      obtain ⟨_, later', rfl, ⟨⟩, tail⟩ := relates_head second
      have own' := relates_own tail
      rw [own, List.forall₂_cons_left_iff] at own'
      obtain ⟨_, rest, function, none, own'⟩ := own'
      rw [List.forall₂_nil_left_iff.mp none] at own'
      cases function with
      | @setFunction _ l same =>
        exact ⟨l, later', denotes k l f same here, Or.inr ⟨rfl, own'⟩, relates_inside tail inside,
          params tail⟩
  | unknown w => rintro steps steps' ⟨⟩

end Relating

def placed (l : Language) :
    List (Step (Option C) Num) → CapTable C → List (Step Pointer Num) × CapTable C
  | [], caps => ([], caps)
  | st :: steps, caps =>
    (⟨st.path, (place l st.write caps).1⟩ :: (placed l steps (place l st.write caps).2).1,
      (placed l steps (place l st.write caps).2).2)

theorem run_draft (F : Float64 Num) (l : Language) (steps : List (Step (Option C) Num))
    (d : Draft C) :
    run (draftStep F l) d steps =
      (run (structStep F (setters l)) d.root (placed l steps d.caps).1).map fun root =>
        ⟨root, (placed l steps d.caps).2⟩ := by
  induction steps generalizing d with
  | nil => rfl
  | cons st steps ih =>
    simp only [run, placed, draftStep, structStep]
    cases performAt F (setters l) st.path (place l st.write d.caps).1 d.root with
    | none => rfl
    | some root => exact ih ⟨root, (place l st.write d.caps).2⟩

theorem place_grows (l : Language) (w : Write (Option C) Num) (caps : CapTable C) :
    ∃ new, (place l w caps).2 = caps ++ new := by
  cases w with
  | setPreviousResult c => exact addCap_grows l c caps
  | setFunction c => exact addCap_grows l c caps
  | _ => exact ⟨[], (List.append_nil caps).symm⟩

theorem placed_grows (l : Language) (steps : List (Step (Option C) Num)) (caps : CapTable C) :
    ∃ new, (placed l steps caps).2 = caps ++ new := by
  induction steps generalizing caps with
  | nil => exact ⟨[], (List.append_nil caps).symm⟩
  | cons st steps ih =>
    obtain ⟨first, grown⟩ := place_grows l st.write caps
    obtain ⟨rest, grown'⟩ := ih (place l st.write caps).2
    exact ⟨first ++ rest, by rw [placed, grown', grown, List.append_assoc]⟩

theorem place_relates (l : Language) (w : Write (Option C) Num) (caps later : CapTable C) :
    w.Relates (fun c p => client ((place l w caps).2 ++ later) p = c) (place l w caps).1 := by
  cases w with
  | setLiteral value => exact .setLiteral value
  | setPreviousResult c => exact .setPreviousResult (client_addCap l c caps later)
  | setParameter value => exact .setParameter value
  | initCall => exact .initCall
  | setFunction c => exact .setFunction (client_addCap l c caps later)
  | initParams length => exact .initParams length

/-- Read through the final table, every pointer leads to the client that was given. -/
theorem placed_relates (l : Language) (steps : List (Step (Option C) Num)) (caps : CapTable C) :
    List.Forall₂ (Step.Relates fun c p => client (placed l steps caps).2 p = c) steps
      (placed l steps caps).1 := by
  induction steps generalizing caps with
  | nil => exact .nil
  | cons st steps ih =>
    obtain ⟨new, grown⟩ := placed_grows l steps (place l st.write caps).2
    have here := place_relates l st.write caps new
    rw [← grown] at here
    exact .cons ⟨rfl, here⟩ (ih (place l st.write caps).2)

def Write.cap : Write (Option C) Num → Option C
  | .setPreviousResult c => c
  | .setFunction c => c
  | _ => none

theorem addCap_caps {l : Language} {given : Option C} {caps : CapTable C} {c : C}
    (entry : some c ∈ (addCap l given caps).2) : some c ∈ caps ∨ given = some c := by
  have appended : some c ∈ caps ++ [given] → some c ∈ caps ∨ given = some c := by
    intro member
    rw [List.mem_append, List.mem_singleton] at member
    exact member.imp_right Eq.symm
  cases l with
  | ts => exact appended entry
  | rust => exact appended entry
  | go =>
    cases given with
    | none => exact Or.inl entry
    | some given => exact appended entry

theorem place_caps {l : Language} {w : Write (Option C) Num} {caps : CapTable C} {c : C}
    (entry : some c ∈ (place l w caps).2) : some c ∈ caps ∨ w.cap = some c := by
  cases w with
  | setPreviousResult given => exact addCap_caps entry
  | setFunction given => exact addCap_caps entry
  | _ => exact Or.inl entry

theorem placed_caps {l : Language} {steps : List (Step (Option C) Num)} {caps : CapTable C} {c : C}
    (entry : some c ∈ (placed l steps caps).2) :
    some c ∈ caps ∨ ∃ st ∈ steps, st.write.cap = some c := by
  induction steps generalizing caps with
  | nil => exact Or.inl entry
  | cons st steps ih =>
    rcases ih entry with before | ⟨st', member, given⟩
    · rcases place_caps before with old | given
      · exact Or.inl old
      · exact Or.inr ⟨st, List.mem_cons_self, given⟩
    · exact Or.inr ⟨st', List.mem_cons_of_mem _ member, given⟩

theorem builds_caps (e : Expression C C Num) : ∀ {steps : List (Step (Option C) Num)},
    Builds Eq e steps → ∀ st ∈ steps, ∀ c, st.write.cap = some c →
      c ∈ e.functions ∨ c ∈ e.values := by
  induction e using Expression.induction with
  | literal v =>
    rintro steps rfl st member c given
    rw [List.mem_singleton.mp member] at given
    simp [Write.cap] at given
  | previousResult v =>
    rintro steps ⟨k, rfl, rfl⟩ st member c given
    rw [List.mem_singleton.mp member] at given
    exact Or.inr (by simpa [Expression.values, Write.cap] using given)
  | parameter i =>
    rintro steps rfl st member c given
    rw [List.mem_singleton.mp member] at given
    simp [Write.cap] at given
  | call f ps ih =>
    rintro steps ⟨k, later, rfl, order, inside, all⟩ st member c given
    have function : st.write = .setFunction k → c ∈ (Expression.call k ps).functions := by
      intro write
      rw [write, Write.cap] at given
      exact functions_call.mpr (Or.inl given)
    have parameter : ∀ {j path}, st ∈ later → st.path = j :: path →
        c ∈ (Expression.call k ps).functions ∨ c ∈ (Expression.call k ps).values := by
      intro j path belongs eq
      have small : j < ps.length := inside st belongs j (by rw [eq]; rfl)
      have found : ps[j]? = some ps[j] := List.getElem?_eq_getElem small
      have builds := buildsAll_getElem all found
      rw [Nat.zero_add] at builds
      have seen : (⟨path, st.write⟩ : Step (Option C) Num) ∈ later.filterMap (Step.below j) :=
        List.mem_filterMap.mpr ⟨st, belongs, by simp only [Step.below, eq, if_pos]⟩
      have mem : ps[j] ∈ ps := List.getElem_mem small
      rcases ih ps[j] mem builds _ seen c given with inFunctions | inValues
      · exact Or.inl (functions_call.mpr (Or.inr ⟨ps[j], mem, inFunctions⟩))
      · exact Or.inr (values_call.mpr ⟨ps[j], mem, inValues⟩)
    have rest : st ∈ later → (∀ w ∈ later.filterMap Step.own, w = .setFunction k) →
        c ∈ (Expression.call k ps).functions ∨ c ∈ (Expression.call k ps).values := by
      intro belongs functions
      cases path : st.path with
      | nil =>
        have own : st.write ∈ later.filterMap Step.own :=
          List.mem_filterMap.mpr ⟨st, belongs, by simp only [Step.own, path]⟩
        exact Or.inl (function (functions _ own))
      | cons j path' => exact parameter belongs path
    rcases order with ⟨rfl, own⟩ | ⟨rfl, own⟩
    · rcases List.mem_cons.mp member with rfl | member
      · simp [Write.cap] at given
      rcases List.mem_cons.mp member with rfl | member
      · exact Or.inl (function rfl)
      rcases List.mem_cons.mp member with rfl | member
      · simp [Write.cap] at given
      exact rest member (by simp [own])
    · rcases List.mem_cons.mp member with rfl | member
      · simp [Write.cap] at given
      rcases List.mem_cons.mp member with rfl | member
      · simp [Write.cap] at given
      exact rest member (by simp [own])
  | unknown w => rintro steps ⟨⟩

/-- In every language and in every order of the steps that the setters allow, and
    whatever the struct held before, a reader finds the expression that was written, and
    the table gets no other capability than those in it. -/
theorem draft_builds (F : Float64 Num) (l : Language) {e : Expression C C Num}
    {steps : List (Step (Option C) Num)} (builds : Builds Eq e steps) {d : Draft C}
    (sized : Sized 16 2 d.root) :
    ∃ d', run (draftStep F l) d steps = some d' ∧ view F d'.caps d'.root = e ∧
      ∀ c, some c ∈ d'.caps → some c ∈ d.caps ∨ c ∈ e.functions ∨ c ∈ e.values := by
  have placedBuilds : Builds (fun p c => client (placed l steps d.caps).2 p = c) e
      (placed l steps d.caps).1 :=
    builds_relates (fun k p c same eq => same.trans eq) e builds (placed_relates l steps d.caps)
  obtain ⟨root, ran, -, seen⟩ := run_builds (F := F) (setters_lawful l) e placedBuilds sized
  refine ⟨⟨root, (placed l steps d.caps).2⟩, ?_, seen, ?_⟩
  · rw [run_draft, ran, Option.map_some]
  · intro c entry
    rcases placed_caps entry with old | ⟨st, member, given⟩
    · exact Or.inl old
    · exact Or.inr (builds_caps e builds st member c given)

inductive Known : Expression C C Num → Prop where
  | literal (v : Num) : Known (.literal v)
  | previousResult (c : Option C) : Known (.previousResult c)
  | parameter (i : UInt32) : Known (.parameter i)
  | call (f : Option C) {ps : List (Expression C C Num)} (params : ∀ p ∈ ps, Known p) :
      Known (.call f ps)

def Step.under (i : Nat) (st : Step K Num) : Step K Num := ⟨i :: st.path, st.write⟩

mutual
/-- The steps in the order in which the TypeScript client mostly takes them. -/
def leftToRight : Expression C C Num → List (Step (Option C) Num)
  | .literal v => [⟨[], .setLiteral v⟩]
  | .previousResult c => [⟨[], .setPreviousResult c⟩]
  | .parameter i => [⟨[], .setParameter i⟩]
  | .call f ps =>
    ⟨[], .initCall⟩ :: ⟨[], .setFunction f⟩ :: ⟨[], .initParams ps.length⟩ :: leftToRightAll ps 0
  | .unknown _ => []

def leftToRightAll : List (Expression C C Num) → Nat → List (Step (Option C) Num)
  | [], _ => []
  | p :: ps, i => (leftToRight p).map (Step.under i) ++ leftToRightAll ps (i + 1)
end

theorem own_under (i : Nat) (steps : List (Step K Num)) :
    (steps.map (Step.under i)).filterMap Step.own = [] := by
  simp [Step.under, Step.own, List.filterMap_map, Function.comp_def]

theorem below_under (i : Nat) (steps : List (Step K Num)) :
    (steps.map (Step.under i)).filterMap (Step.below i) = steps := by
  simp [Step.under, Step.below, List.filterMap_map, Function.comp_def]

theorem below_under_other {i j : Nat} (other : i ≠ j) (steps : List (Step K Num)) :
    (steps.map (Step.under i)).filterMap (Step.below j) = [] := by
  simp [Step.under, Step.below, List.filterMap_map, Function.comp_def, other]

theorem own_all (ps : List (Expression C C Num)) (i : Nat) :
    (leftToRightAll ps i).filterMap Step.own = [] := by
  induction ps generalizing i with
  | nil => rfl
  | cons p ps ih => rw [leftToRightAll, List.filterMap_append, own_under, ih, List.append_nil]

theorem inside_all (ps : List (Expression C C Num)) (i : Nat) :
    ∀ st ∈ leftToRightAll ps i, ∀ k ∈ st.path.head?, k < i + ps.length := by
  induction ps generalizing i with
  | nil => simp [leftToRightAll]
  | cons p ps ih =>
    intro st member k head
    rw [List.length_cons]
    rcases List.mem_append.mp member with here | later
    · obtain ⟨st', -, rfl⟩ := List.mem_map.mp here
      rw [Step.under, List.head?_cons, Option.mem_some_iff] at head
      omega
    · have := ih (i + 1) st later k head
      omega

theorem below_before (ps : List (Expression C C Num)) {i j : Nat} (before : j < i) :
    (leftToRightAll ps i).filterMap (Step.below j) = [] := by
  induction ps generalizing i with
  | nil => rfl
  | cons p ps ih =>
    rw [leftToRightAll, List.filterMap_append, below_under_other (by omega), ih (by omega),
      List.append_nil]

theorem below_all {ps : List (Expression C C Num)} {i j : Nat} {p : Expression C C Num}
    (found : ps[j]? = some p) :
    (leftToRightAll ps i).filterMap (Step.below (i + j)) = leftToRight p := by
  induction ps generalizing i j with
  | nil => simp at found
  | cons q ps ih =>
    rw [leftToRightAll, List.filterMap_append]
    cases j with
    | zero =>
      rw [List.getElem?_cons_zero, Option.some.injEq] at found
      rw [Nat.add_zero, below_under, below_before ps (by omega), List.append_nil, found]
    | succ j =>
      rw [below_under_other (by omega), List.nil_append, show i + (j + 1) = (i + 1) + j by omega]
      exact ih found

theorem leftToRight_builds {e : Expression C C Num} (known : Known e) :
    Builds Eq e (leftToRight e) := by
  induction known with
  | literal v => rfl
  | previousResult c => exact ⟨c, rfl, rfl⟩
  | parameter i => rfl
  | @call f ps params ih =>
    refine ⟨f, leftToRightAll ps 0, rfl, Or.inl ⟨rfl, own_all ps 0⟩, ?_, ?_⟩
    · intro st member i head
      have inside := inside_all ps 0 st member i head
      omega
    · apply buildsAll_of_getElem
      intro j p found
      rw [below_all found]
      exact ih p (List.mem_of_getElem? found)

end ExpressionBuilding
