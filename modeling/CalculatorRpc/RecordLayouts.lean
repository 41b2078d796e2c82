import CalculatorRpc.MessageStructs
import CalculatorRpc.EventRuns
import Mathlib.Logic.Function.Basic
import Mathlib.Data.Option.Basic

/- Records kept in structs. The numbers of a record lie in the data section as its
   layout says, and its parts are behind the pointers. A write to the struct is
   compared with an update of the record, through any number of pointers. -/
namespace RecordLayouts
open LittleEndianWords SectionFields MessageStructs EventRuns

variable {F V W : Type}

/-- Where the fields of a struct lie; no two of them share a byte. -/
structure Layout (width : F → Nat) where
  size : Nat
  offset : F → Nat
  inside : ∀ f, offset f + width f ≤ size
  apart : ∀ f g, f ≠ g → Apart (offset f) (width f) (offset g) (width g)

section Fields

variable {width : F → Nat} (L : Layout width)

def Layout.get (f : F) (s : Struct) : Nat := s.number (L.offset f) (width f)

def Layout.set (f : F) (n : Nat) : Struct → Option Struct := setNumber (L.offset f) (width f) n

structure Holds (pointers : Nat) (s : Struct) (number : F → Nat) : Prop where
  sized : Sized L.size pointers s
  get : ∀ f, L.get f s = number f

variable {L} {pointers : Nat} {s : Struct} {number : F → Nat}

theorem numberOf_zeros (n : Nat) : numberOf (List.replicate n 0) = 0 := by
  induction n with
  | zero => rfl
  | succ n ih => rw [List.replicate_succ, numberOf, ih]; rfl

theorem number_new (d p offset width : Nat) : (newStruct d p).number offset width = 0 := by
  unfold Struct.number getField
  split
  · rw [newStruct, Struct.data, List.drop_replicate, List.take_replicate, numberOf_zeros]
  · rfl

theorem holds_new (L : Layout width) (pointers : Nat) :
    Holds L pointers (newStruct L.size pointers) fun _ => 0 :=
  ⟨newStruct_sized L.size pointers, fun _ => number_new _ _ _ _⟩

theorem Holds.set [DecidableEq F] (holds : Holds L pointers s number) (f : F) (n : Nat) :
    ∃ s', L.set f n s = some s' ∧ (∀ k, s'.ptr k = s.ptr k) ∧
      Holds L pointers s' (Function.update number f (n % 256 ^ width f)) := by
  have inside := L.inside f
  refine ⟨_, holds.sized.setNumber inside n, fun k => rfl, holds.sized.putNumber inside n, ?_⟩
  intro g
  by_cases same : g = f
  · subst g
    rw [Function.update_self]
    exact number_put_same holds.sized inside n
  · rw [Function.update_of_ne same, ← holds.get g]
    exact number_put_apart holds.sized inside n (L.apart f g (Ne.symm same))

theorem Holds.putPtr (holds : Holds L pointers s number) (k : Nat) (p : Pointer) :
    Holds L pointers (putPtr k p s) number :=
  ⟨holds.sized.putPtr k p, holds.get⟩

end Fields

inductive PointsTo (shows : Struct → V → Prop) : Pointer → Option V → Prop where
  | null : PointsTo shows .null none
  | struct {t : Struct} {v : V} (here : shows t v) : PointsTo shows (.struct t) (some v)

inductive Lists (shows : Struct → V → Prop) : Pointer → Option (List V) → Prop where
  | null : Lists shows .null none
  | list {element : Nat → Struct} {vs : List V}
      (here : ∀ (i : Nat) v, vs[i]? = some v → shows (element i) v) :
      Lists shows (.list vs.length element) (some vs)

/-- A write and an update that fail together and lead to related results. -/
def Simulates (shows : Struct → V → Prop) (write : Struct → Option Struct) (update : V → Option V) :
    Prop :=
  ∀ s v, shows s v → Option.Rel shows (write s) (update v)

theorem rel_cases {A B : Type} {r : A → B → Prop} {a : Option A} {b : Option B}
    (related : Option.Rel r a b) :
    a = none ∧ b = none ∨ ∃ x y, a = some x ∧ b = some y ∧ r x y := by
  cases related with
  | none => exact Or.inl ⟨rfl, rfl⟩
  | @some x y here => exact Or.inr ⟨x, y, rfl, rfl, here⟩

def updatePart (update : V → Option V) (part : Option V) : Option (Option V) :=
  part.bind fun v => (update v).map some

def updateAt (i : Nat) (update : V → Option V) (vs : List V) : Option (List V) :=
  vs[i]?.bind fun v => (update v).map (vs.set i)

theorem set_simulates [DecidableEq F] {width : F → Nat} (L : Layout width) (pointers : Nat) (f : F)
    (n : Nat) :
    Simulates (Holds L pointers) (L.set f n)
      (fun number => some (Function.update number f (n % 256 ^ width f))) := by
  intro s number holds
  obtain ⟨s', set, -, holds'⟩ := holds.set f n
  rw [set]
  exact .some holds'

section Parts

variable {shows : Struct → V → Prop} {write : Struct → Option Struct} {update : V → Option V}
  {s : Struct} {k : Nat}

theorem atTarget_simulates (simulates : Simulates shows write update) {x : Option V}
    (points : PointsTo shows (s.ptr k) x) :
    Option.Rel (fun s' x' => ∃ p, s' = putPtr k p s ∧ PointsTo shows p x')
      (atTarget k write s) (updatePart update x) := by
  unfold atTarget
  generalize s.ptr k = p at points
  cases points with
  | null => exact .none
  | @struct t v here =>
    rw [updatePart, Option.bind_some]
    rcases rel_cases (simulates t v here) with ⟨failed, failed'⟩ | ⟨t', v', written, updated, after⟩
    · simp only [failed, failed', Option.map_none]
      exact .none
    · simp only [written, updated, Option.map_some]
      exact .some ⟨_, rfl, .struct after⟩

/-- A part that is not there is made first, with the value `v₀`. -/
theorem atTargetOrNew_simulates (simulates : Simulates shows write update) {d p : Nat} {new : Struct}
    {v₀ : V} {x : Option V} (sized : Sized d p s) (inside : k < p) (fresh : shows new v₀)
    (points : PointsTo shows (s.ptr k) x) :
    Option.Rel (fun s' x' => ∃ p, s' = putPtr k p s ∧ PointsTo shows p x')
      (atTargetOrNew k new write s) (updatePart update (some (x.getD v₀))) := by
  have there := atTarget_simulates simulates points
  unfold atTargetOrNew
  generalize s.ptr k = q at points
  cases points with
  | struct here => exact there
  | null =>
    have made : PointsTo shows ((putPtr k (.struct new) s).ptr k) (some v₀) := by
      rw [ptr_put_same sized inside]
      exact .struct fresh
    simp only [sized.setPtr inside, Option.bind_some, Option.getD_none]
    rcases rel_cases (atTarget_simulates simulates made) with ⟨failed, failed'⟩ |
      ⟨_, x', written, updated, p', rfl, after⟩
    · rw [failed, failed']
      exact .none
    · rw [written, updated]
      exact .some ⟨p', putPtr_putPtr s k _ p', after⟩

theorem atElement_simulates (simulates : Simulates shows write update) {x : Option (List V)} {i : Nat}
    (lists : Lists shows (s.ptr k) x) :
    Option.Rel (fun s' x' => ∃ p, s' = putPtr k p s ∧ Lists shows p x')
      (atElement k i write s) (updatePart (updateAt i update) x) := by
  unfold atElement
  generalize s.ptr k = p at lists
  cases lists with
  | null => exact .none
  | @list element vs here =>
    rw [updatePart, Option.bind_some, updateAt]
    by_cases inside : i < vs.length
    · have found : vs[i]? = some vs[i] := List.getElem?_eq_getElem inside
      simp only [if_pos inside, found, Option.bind_some]
      rcases rel_cases (simulates (element i) vs[i] (here i _ found)) with ⟨failed, failed'⟩ |
        ⟨t, v, written, updated, after⟩
      · simp only [failed, failed', Option.map_none]
        exact .none
      · simp only [written, updated, Option.map_some]
        have lists :
            Lists shows (.list (vs.set i v).length (replace element i t)) (some (vs.set i v)) := by
          apply Lists.list
          intro j u at_j
          by_cases same : j = i
          · subst j
            rw [List.getElem?_set_self inside, Option.some.injEq] at at_j
            rw [replace_same, ← at_j]
            exact after
          · rw [List.getElem?_set_ne (Ne.symm same)] at at_j
            rw [replace_other same]
            exact here j u at_j
        rw [List.length_set] at lists
        exact .some ⟨_, rfl, lists⟩
    · have missing : vs[i]? = none := List.getElem?_eq_none (by omega)
      simp only [if_neg inside, missing, Option.bind_none, Option.map_none]
      exact .none

theorem lists_new {v : V} (here : shows s v)
    (n : Nat) : Lists shows (.list n (fun _ => s)) (some (List.replicate n v)) := by
  have all : Lists shows (.list (List.replicate n v).length (fun _ => s))
      (some (List.replicate n v)) := by
    apply Lists.list
    intro i u found
    rw [List.eq_of_mem_replicate (List.mem_of_getElem? found)]
    exact here
  rw [List.length_replicate] at all
  exact all

end Parts

section Reading

variable {shows : Struct → V → Prop} {read : Struct → V}

def readPart (read : Struct → V) : Pointer → Option V
  | .struct target => some (read target)
  | _ => none

def readParts (read : Struct → V) : Pointer → Option (List V)
  | .list length element => some ((List.range length).map fun i => read (element i))
  | _ => none

theorem PointsTo.readPart (each : ∀ t v, shows t v → read t = v) {p : Pointer} {x : Option V}
    (points : PointsTo shows p x) : RecordLayouts.readPart read p = x := by
  cases points with
  | null => rfl
  | struct here => exact congrArg some (each _ _ here)

theorem Lists.readParts (each : ∀ t v, shows t v → read t = v) {p : Pointer} {x : Option (List V)}
    (lists : Lists shows p x) : RecordLayouts.readParts read p = x := by
  cases lists with
  | null => rfl
  | @list element vs here =>
    have all : (List.range vs.length).map (fun i => read (element i)) = vs := by
      apply List.ext_getElem?
      intro i
      by_cases inside : i < vs.length
      · have found : vs[i]? = some vs[i] := List.getElem?_eq_getElem inside
        rw [List.getElem?_map, List.getElem?_range inside, Option.map_some, found,
          each _ _ (here i _ found)]
      · rw [List.getElem?_eq_none (by simp; omega), List.getElem?_eq_none (by omega)]
    rw [RecordLayouts.readParts, all]

end Reading

theorem run_simulates {shows : Struct → V → Prop} {write : W → Struct → Option Struct}
    {update : W → V → Option V} (simulates : ∀ w, Simulates shows (write w) (update w))
    (ws : List W) {s : Struct} {v : V} (here : shows s v) :
    Option.Rel shows (run (fun s w => write w s) s ws) (run (fun v w => update w v) v ws) := by
  induction ws generalizing s v with
  | nil => exact .some here
  | cons w ws ih =>
    rw [run, run]
    rcases rel_cases (simulates w s v here) with ⟨failed, failed'⟩ | ⟨s', v', written, updated, after⟩
    · rw [failed, failed']
      exact .none
    · rw [written, updated]
      exact ih after

end RecordLayouts
