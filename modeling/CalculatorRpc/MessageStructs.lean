import CalculatorRpc.SectionFields

/- Structs of a message: a data section and a section of pointers. Readers see
   zero and null where a section is too short; writers can only write inside the
   sections. A list of numbers or of bytes is a list of structs with that one
   field, which is how the encoding lets a reader see it. -/
namespace MessageStructs
open SectionFields

mutual
inductive Struct where
  | mk (data : Section) (pointerCount : Nat) (pointer : Nat → Pointer)

inductive Pointer where
  | null
  -- An index into the capability table of the message.
  | capability (index : Nat)
  | struct (target : Struct)
  | list (length : Nat) (element : Nat → Struct)
end

def Struct.data : Struct → Section
  | .mk data _ _ => data

def Struct.pointerCount : Struct → Nat
  | .mk _ pointerCount _ => pointerCount

def Struct.pointer : Struct → Nat → Pointer
  | .mk _ _ pointer => pointer

def newStruct (dataSize pointerCount : Nat) : Struct :=
  .mk (List.replicate dataSize 0) pointerCount (fun _ => .null)

def Struct.ptr (i : Nat) (s : Struct) : Pointer :=
  if i < s.pointerCount then s.pointer i else .null

def Struct.number (offset width : Nat) (s : Struct) : Nat := getField s.data offset width

def Struct.uint16 (offset : Nat) (s : Struct) : UInt16 := UInt16.ofNat (s.number offset 2)

def Struct.uint32 (offset : Nat) (s : Struct) : UInt32 := UInt32.ofNat (s.number offset 4)

def Struct.uint64 (offset : Nat) (s : Struct) : UInt64 := UInt64.ofNat (s.number offset 8)

def putNumber (offset width n : Nat) (s : Struct) : Struct :=
  .mk (putField s.data offset width n) s.pointerCount s.pointer

def setNumber (offset width n : Nat) (s : Struct) : Option Struct :=
  if offset + width ≤ s.data.length then some (putNumber offset width n s) else none

def setUint16 (offset : Nat) (v : UInt16) : Struct → Option Struct := setNumber offset 2 v.toNat

def setUint32 (offset : Nat) (v : UInt32) : Struct → Option Struct := setNumber offset 4 v.toNat

def setUint64 (offset : Nat) (v : UInt64) : Struct → Option Struct := setNumber offset 8 v.toNat

def putPtr (i : Nat) (p : Pointer) (s : Struct) : Struct :=
  .mk s.data s.pointerCount (fun k => if k = i then p else s.pointer k)

def setPtr (i : Nat) (p : Pointer) (s : Struct) : Option Struct :=
  if i < s.pointerCount then some (putPtr i p s) else none

/-- The struct that a pointer leads to, without any field if it leads to none. -/
def Pointer.target : Pointer → Struct
  | .struct target => target
  | _ => newStruct 0 0

def Pointer.elements : Pointer → List Struct
  | .list length element => (List.range length).map element
  | _ => []

def replace (element : Nat → Struct) (i : Nat) (t : Struct) : Nat → Struct :=
  fun j => if j = i then t else element j

def atTarget (k : Nat) (write : Struct → Option Struct) (s : Struct) : Option Struct :=
  match s.ptr k with
  | .struct target => (write target).map fun t => putPtr k (.struct t) s
  | _ => none

/-- The same, where a null pointer is first made to lead to a new struct. -/
def atTargetOrNew (k : Nat) (new : Struct) (write : Struct → Option Struct) (s : Struct) :
    Option Struct :=
  match s.ptr k with
  | .null => (setPtr k (.struct new) s).bind (atTarget k write)
  | _ => atTarget k write s

def atElement (k i : Nat) (write : Struct → Option Struct) (s : Struct) : Option Struct :=
  match s.ptr k with
  | .list length element =>
    if i < length then
      (write (element i)).map fun t => putPtr k (.list length (replace element i t)) s
    else none
  | _ => none

structure Sized (dataSize pointers : Nat) (s : Struct) : Prop where
  data : dataSize ≤ s.data.length
  pointers : pointers ≤ s.pointerCount

theorem Struct.ind {P : Struct → Prop}
    (step : ∀ s : Struct, (∀ k target, s.pointer k = .struct target → P target) →
      (∀ k length element, s.pointer k = .list length element → ∀ i, P (element i)) → P s) :
    ∀ s, P s := by
  intro s
  refine @Struct.rec P (fun p => (∀ target, p = .struct target → P target) ∧
    ∀ length element, p = .list length element → ∀ i, P (element i)) ?_ ?_ ?_ ?_ ?_ s
  · intro data pointerCount pointer below
    apply step
    · intro k target eq
      exact (below k).1 target eq
    · intro k length element eq
      exact (below k).2 length element eq
  · simp
  · simp
  · intro target here
    refine ⟨?_, by simp⟩
    intro t eq
    rw [← Pointer.struct.inj eq]
    exact here
  · intro length element here
    refine ⟨by simp, ?_⟩
    intro n e eq i
    rw [← (Pointer.list.inj eq).2]
    exact here i

section Sizes

variable {d p : Nat} {s : Struct}

theorem newStruct_sized (d p : Nat) : Sized d p (newStruct d p) :=
  ⟨by simp [newStruct, Struct.data], Nat.le_refl p⟩

theorem Sized.setNumber (sized : Sized d p s) {offset width : Nat} (inside : offset + width ≤ d)
    (n : Nat) : setNumber offset width n s = some (putNumber offset width n s) :=
  if_pos (inside.trans sized.data)

theorem Sized.putNumber (sized : Sized d p s) {offset width : Nat} (inside : offset + width ≤ d)
    (n : Nat) : Sized d p (putNumber offset width n s) := by
  refine ⟨?_, sized.pointers⟩
  rw [MessageStructs.putNumber, Struct.data, putField_length (inside.trans sized.data)]
  exact sized.data

theorem Sized.setPtr (sized : Sized d p s) {i : Nat} (inside : i < p) (q : Pointer) :
    setPtr i q s = some (putPtr i q s) :=
  if_pos (Nat.lt_of_lt_of_le inside sized.pointers)

theorem Sized.putPtr (sized : Sized d p s) (i : Nat) (q : Pointer) : Sized d p (putPtr i q s) :=
  ⟨sized.data, sized.pointers⟩

end Sizes

section Fields

variable {d p : Nat} {s : Struct} {offset width offset' width' : Nat}

theorem number_put_same (sized : Sized d p s) (inside : offset + width ≤ d) (n : Nat) :
    (putNumber offset width n s).number offset width = n % 256 ^ width :=
  getField_put_same (inside.trans sized.data) n

theorem number_put_apart (sized : Sized d p s) (inside : offset + width ≤ d) (n : Nat)
    (apart : Apart offset width offset' width') :
    (putNumber offset width n s).number offset' width' = s.number offset' width' :=
  getField_put_apart (inside.trans sized.data) n apart

theorem uint16_put_same (sized : Sized d p s) (inside : offset + 2 ≤ d) (v : UInt16) :
    (putNumber offset 2 v.toNat s).uint16 offset = v := by
  have fits : v.toNat < 256 ^ 2 := v.toNat_lt
  rw [Struct.uint16, number_put_same sized inside, Nat.mod_eq_of_lt fits, UInt16.ofNat_toNat]

theorem uint32_put_same (sized : Sized d p s) (inside : offset + 4 ≤ d) (v : UInt32) :
    (putNumber offset 4 v.toNat s).uint32 offset = v := by
  have fits : v.toNat < 256 ^ 4 := v.toNat_lt
  rw [Struct.uint32, number_put_same sized inside, Nat.mod_eq_of_lt fits, UInt32.ofNat_toNat]

theorem uint64_put_same (sized : Sized d p s) (inside : offset + 8 ≤ d) (v : UInt64) :
    (putNumber offset 8 v.toNat s).uint64 offset = v := by
  have fits : v.toNat < 256 ^ 8 := v.toNat_lt
  rw [Struct.uint64, number_put_same sized inside, Nat.mod_eq_of_lt fits, UInt64.ofNat_toNat]

theorem ptr_put_same (sized : Sized d p s) {i : Nat} (inside : i < p) (q : Pointer) :
    (putPtr i q s).ptr i = q := by
  have here : i < (putPtr i q s).pointerCount := Nat.lt_of_lt_of_le inside sized.pointers
  rw [Struct.ptr, if_pos here]
  exact if_pos rfl

theorem ptr_put_other {i k : Nat} (other : k ≠ i) (q : Pointer) : (putPtr i q s).ptr k = s.ptr k := by
  have same : (putPtr i q s).pointer k = s.pointer k := if_neg other
  rw [Struct.ptr, Struct.ptr, same]
  rfl

end Fields

theorem ptr_pointer {s : Struct} {k : Nat} {p : Pointer} (eq : s.ptr k = p) (valid : p ≠ .null) :
    k < s.pointerCount ∧ s.pointer k = p := by
  unfold Struct.ptr at eq
  split at eq
  · rename_i inside
    exact ⟨inside, eq⟩
  · exact absurd eq.symm valid

theorem putPtr_self {s : Struct} {k : Nat} {p : Pointer} (here : s.pointer k = p) :
    putPtr k p s = s := by
  obtain ⟨data, count, pointer⟩ := s
  have same : (fun j => if j = k then p else pointer j) = pointer := by
    funext j
    by_cases eq : j = k
    · rw [if_pos eq, eq, ← here]
      rfl
    · rw [if_neg eq]
  exact congrArg (Struct.mk data count) same

theorem putPtr_putPtr (s : Struct) (k : Nat) (p q : Pointer) :
    putPtr k q (putPtr k p s) = putPtr k q s := by
  have same : (fun j => if j = k then q else (putPtr k p s).pointer j) =
      (fun j => if j = k then q else s.pointer j) := by
    funext j
    by_cases eq : j = k
    · rw [if_pos eq, if_pos eq]
    · rw [if_neg eq, if_neg eq, putPtr, Struct.pointer, if_neg eq]
  exact congrArg (Struct.mk s.data s.pointerCount) same

theorem replace_same (element : Nat → Struct) (i : Nat) (t : Struct) : replace element i t i = t :=
  if_pos rfl

theorem replace_other {i j : Nat} (other : j ≠ i) (element : Nat → Struct) (t : Struct) :
    replace element i t j = element j := if_neg other

theorem atElement_list {s t : Struct} {k length i : Nat} {element : Nat → Struct}
    {write : Struct → Option Struct} (list : s.ptr k = .list length element) (inside : i < length)
    (written : write (element i) = some t) :
    atElement k i write s = some (putPtr k (.list length (replace element i t)) s) := by
  simp only [atElement, list, if_pos inside, written, Option.map_some]

theorem atTarget_struct {s t u : Struct} {k : Nat} {write : Struct → Option Struct}
    (struct : s.ptr k = .struct t) (written : write t = some u) :
    atTarget k write s = some (putPtr k (.struct u) s) := by
  simp only [atTarget, struct, written, Option.map_some]

end MessageStructs
