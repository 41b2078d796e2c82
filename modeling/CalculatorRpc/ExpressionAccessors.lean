import CalculatorRpc.MessageStructs
import CalculatorRpc.Expression

/- The generated accessors of `Calculator.Expression` in the three languages. The
   union tag lies at byte 8 of the data section, the literal and the parameter
   share its first bytes, a previous result and the function of a call share
   pointer 0, and the parameters of a call are behind pointer 1. -/
namespace ExpressionAccessors
open CalculatorExpression MessageStructs SectionFields

variable {C Num : Type}

/-- The bits of a number, as `math.Float64bits` and `math.Float64frombits` give them. -/
structure Float64 (Num : Type) where
  bits : Num → UInt64
  frombits : UInt64 → Num
  frombits_bits : ∀ v, frombits (bits v) = v

abbrev CapTable (C : Type) := List (Option C)

def client (caps : CapTable C) : Pointer → Option C
  | .capability index => caps[index]?.join
  | _ => none

structure Setters where
  setLiteral : UInt64 → Struct → Option Struct
  setPreviousResult : Pointer → Struct → Option Struct
  setParameter : UInt32 → Struct → Option Struct
  initCall : Struct → Option Struct
  setFunction : Pointer → Struct → Option Struct
  initParams : Nat → Struct → Option Struct

def setMember (setTag setValue : Struct → Option Struct) (s : Struct) : Option Struct :=
  (setTag s).bind setValue

def newExpression : Struct := newStruct 16 2

def newExpressionList (n : Nat) : Pointer := .list n (fun _ => newExpression)

def tsSetters : Setters where
  setLiteral := fun bits => setMember (setUint16 8 0) (setUint64 0 bits)
  setPreviousResult := fun p => setMember (setUint16 8 1) (setPtr 0 p)
  setParameter := fun v => setMember (setUint16 8 2) (setUint32 0 v)
  initCall := setUint16 8 3
  setFunction := setPtr 0
  initParams := fun n => setPtr 1 (newExpressionList n)

/-- `SetCall` and `NewParams` have the names of the other languages here. -/
def goSetters : Setters where
  setLiteral := fun bits => setMember (setUint16 8 0) (setUint64 0 bits)
  setPreviousResult := fun p => setMember (setUint16 8 1) (setPtr 0 p)
  setParameter := fun v => setMember (setUint16 8 2) (setUint32 0 v)
  initCall := setUint16 8 3
  setFunction := setPtr 0
  initParams := fun n => setPtr 1 (newExpressionList n)

def setDataField16 (i : Nat) : UInt16 → Struct → Option Struct := setUint16 (i * 2)

def setDataField32 (i : Nat) : UInt32 → Struct → Option Struct := setUint32 (i * 4)

def setDataField64 (i : Nat) : UInt64 → Struct → Option Struct := setUint64 (i * 8)

def rustSetters : Setters where
  setLiteral := fun bits => setMember (setDataField16 4 0) (setDataField64 0 bits)
  setPreviousResult := fun p => setMember (setDataField16 4 1) (setPtr 0 p)
  setParameter := fun v => setMember (setDataField16 4 2) (setDataField32 0 v)
  -- Unlike the other two, `init_call` clears the pointers of the group.
  initCall := fun s => ((setDataField16 4 3 s).bind (setPtr 0 .null)).bind (setPtr 1 .null)
  setFunction := setPtr 0
  initParams := fun n => setPtr 1 (newExpressionList n)

inductive Language where
  | ts
  | go
  | rust
  deriving DecidableEq

def setters : Language → Setters
  | .ts => tsSetters
  | .go => goSetters
  | .rust => rustSetters

/-- The pointer that a setter stores for a client, and the table after it. A nil
    client is a null pointer in Go and has an entry of its own elsewhere. -/
def addCap : Language → Option C → CapTable C → Pointer × CapTable C
  | .go, none, caps => (.null, caps)
  | _, c, caps => (.capability caps.length, caps ++ [c])

def which (s : Struct) : UInt16 := s.uint16 8

def getMember {α : Type} (tag : UInt16) (name : String) (value : α) (s : Struct) : Except String α :=
  if which s ≠ tag then .error ("Which() != " ++ name) else .ok value

def literal (F : Float64 Num) (s : Struct) : Except String Num :=
  getMember 0 "literal" (F.frombits (s.uint64 0)) s

def previousResult (caps : CapTable C) (s : Struct) : Except String (Option C) :=
  getMember 1 "previousResult" (client caps (s.ptr 0)) s

def parameter (s : Struct) : Except String UInt32 := getMember 2 "parameter" (s.uint32 0) s

def callFunction (caps : CapTable C) (s : Struct) : Option C := client caps (s.ptr 0)

def callParams (s : Struct) : Pointer := s.ptr 1

def switch {α : Type} (s : Struct) (literal previousResult parameter call : α)
    (unknown : UnknownWhich → α) : α :=
  match tag : (which s).toNat with
  | 0 => literal
  | 1 => previousResult
  | 2 => parameter
  | 3 => call
  | n + 4 => unknown ⟨which s, by omega⟩

def member (F : Float64 Num) (caps : CapTable C) (s : Struct) (params : List (Expression C C Num)) :
    Expression C C Num :=
  switch s (.literal (F.frombits (s.uint64 0))) (.previousResult (client caps (s.ptr 0)))
    (.parameter (s.uint32 0)) (.call (callFunction caps s) params) .unknown

mutual
def view (F : Float64 Num) (caps : CapTable C) : Struct → Expression C C Num
  | .mk data count pointer =>
    member F caps (.mk data count pointer) (if 1 < count then viewList F caps (pointer 1) else [])

def viewList (F : Float64 Num) (caps : CapTable C) : Pointer → List (Expression C C Num)
  | .list length element => (List.range length).map fun i => view F caps (element i)
  | _ => []
end

theorem viewList_elements (F : Float64 Num) (caps : CapTable C) (p : Pointer) :
    viewList F caps p = p.elements.map (view F caps) := by
  cases p with
  | list length element => simp only [viewList, Pointer.elements, List.map_map, Function.comp_def]
  | _ => rfl

section Switches

variable {α : Type} {s : Struct} {literal previousResult parameter call : α}
  {unknown : UnknownWhich → α}

theorem switch_literal (tag : which s = 0) :
    switch s literal previousResult parameter call unknown = literal := by
  have number : (which s).toNat = 0 := congrArg UInt16.toNat tag
  unfold switch
  split <;> first | rfl | omega

theorem switch_previousResult (tag : which s = 1) :
    switch s literal previousResult parameter call unknown = previousResult := by
  have number : (which s).toNat = 1 := congrArg UInt16.toNat tag
  unfold switch
  split <;> first | rfl | omega

theorem switch_parameter (tag : which s = 2) :
    switch s literal previousResult parameter call unknown = parameter := by
  have number : (which s).toNat = 2 := congrArg UInt16.toNat tag
  unfold switch
  split <;> first | rfl | omega

theorem switch_call (tag : which s = 3) :
    switch s literal previousResult parameter call unknown = call := by
  have number : (which s).toNat = 3 := congrArg UInt16.toNat tag
  unfold switch
  split <;> first | rfl | omega

theorem switch_unknown (tag : 4 ≤ (which s).toNat) :
    switch s literal previousResult parameter call unknown = unknown ⟨which s, tag⟩ := by
  unfold switch
  split <;> first | rfl | omega

theorem tag_cases (s : Struct) :
    which s = 0 ∨ which s = 1 ∨ which s = 2 ∨ which s = 3 ∨ 4 ≤ (which s).toNat := by
  simp only [← UInt16.toNat_inj, UInt16.toNat_ofNat]
  omega

end Switches

section Views

variable (F : Float64 Num) (caps : CapTable C) {s : Struct}

theorem view_member (s : Struct) :
    view F caps s = member F caps s ((callParams s).elements.map (view F caps)) := by
  obtain ⟨data, count, pointer⟩ := s
  rw [view, callParams, Struct.ptr, Struct.pointerCount, Struct.pointer]
  split
  · rw [viewList_elements]
  · rfl

theorem view_literal (tag : which s = 0) : view F caps s = .literal (F.frombits (s.uint64 0)) := by
  rw [view_member, member, switch_literal tag]

theorem view_previousResult (tag : which s = 1) :
    view F caps s = .previousResult (client caps (s.ptr 0)) := by
  rw [view_member, member, switch_previousResult tag]

theorem view_parameter (tag : which s = 2) : view F caps s = .parameter (s.uint32 0) := by
  rw [view_member, member, switch_parameter tag]

theorem view_call (tag : which s = 3) :
    view F caps s = .call (callFunction caps s) ((callParams s).elements.map (view F caps)) := by
  rw [view_member, member, switch_call tag]

theorem view_unknown (tag : 4 ≤ (which s).toNat) : view F caps s = .unknown ⟨which s, tag⟩ := by
  rw [view_member, member, switch_unknown tag]

end Views

/-- What the setters leave in a struct of the size of an expression or larger. -/
structure Setters.Lawful (b : Setters) : Prop where
  setLiteral : ∀ {s}, Sized 16 2 s → ∀ bits, ∃ s', b.setLiteral bits s = some s' ∧ Sized 16 2 s' ∧
    which s' = 0 ∧ s'.uint64 0 = bits
  setPreviousResult : ∀ {s}, Sized 16 2 s → ∀ p, ∃ s', b.setPreviousResult p s = some s' ∧
    Sized 16 2 s' ∧ which s' = 1 ∧ s'.ptr 0 = p
  setParameter : ∀ {s}, Sized 16 2 s → ∀ v, ∃ s', b.setParameter v s = some s' ∧ Sized 16 2 s' ∧
    which s' = 2 ∧ s'.uint32 0 = v
  initCall : ∀ {s}, Sized 16 2 s → ∃ s', b.initCall s = some s' ∧ Sized 16 2 s' ∧ which s' = 3
  setFunction : ∀ {s}, Sized 16 2 s → ∀ p, ∃ s', b.setFunction p s = some s' ∧ Sized 16 2 s' ∧
    which s' = which s ∧ s'.ptr 0 = p ∧ s'.ptr 1 = s.ptr 1
  initParams : ∀ {s}, Sized 16 2 s → ∀ n, ∃ s', b.initParams n s = some s' ∧ Sized 16 2 s' ∧
    which s' = which s ∧ s'.ptr 0 = s.ptr 0 ∧ s'.ptr 1 = newExpressionList n

section Setting

variable {s : Struct} (sized : Sized 16 2 s)
include sized

theorem setTag_sized (tag : UInt16) : setUint16 8 tag s = some (putNumber 8 2 tag.toNat s) :=
  sized.setNumber (by decide) tag.toNat

theorem which_setTag (tag : UInt16) : which (putNumber 8 2 tag.toNat s) = tag :=
  uint16_put_same sized (by decide) tag

theorem setMember_number (tag : UInt16) {width : Nat} (small : width ≤ 8) (n : Nat) :
    setMember (setUint16 8 tag) (setNumber 0 width n) s =
      some (putNumber 0 width n (putNumber 8 2 tag.toNat s)) := by
  have tagged : Sized 16 2 (putNumber 8 2 tag.toNat s) := sized.putNumber (by decide) tag.toNat
  rw [setMember, setTag_sized sized, Option.bind_some, tagged.setNumber (by omega)]

theorem which_setMember_number (tag : UInt16) {width : Nat} (small : width ≤ 8) (n : Nat) :
    which (putNumber 0 width n (putNumber 8 2 tag.toNat s)) = tag := by
  have tagged : Sized 16 2 (putNumber 8 2 tag.toNat s) := sized.putNumber (by decide) tag.toNat
  have apart : Apart 0 width 8 2 := Or.inl (by omega)
  rw [which, Struct.uint16, number_put_apart tagged (by omega) n apart]
  exact which_setTag sized tag

theorem setMember_pointer (tag : UInt16) (p : Pointer) :
    setMember (setUint16 8 tag) (setPtr 0 p) s = some (putPtr 0 p (putNumber 8 2 tag.toNat s)) := by
  have tagged : Sized 16 2 (putNumber 8 2 tag.toNat s) := sized.putNumber (by decide) tag.toNat
  rw [setMember, setTag_sized sized, Option.bind_some, tagged.setPtr (by decide)]

end Setting

theorem tsSetters_lawful : tsSetters.Lawful where
  setLiteral := fun sized bits =>
    ⟨_, setMember_number sized 0 (by decide) bits.toNat,
      (sized.putNumber (by decide) _).putNumber (by decide) _,
      which_setMember_number sized 0 (by decide) bits.toNat,
      uint64_put_same (sized.putNumber (by decide) _) (by decide) bits⟩
  setPreviousResult := fun sized p =>
    ⟨_, setMember_pointer sized 1 p, (sized.putNumber (by decide) _).putPtr 0 p,
      which_setTag sized 1, ptr_put_same (sized.putNumber (by decide) _) (by decide) p⟩
  setParameter := fun sized v =>
    ⟨_, setMember_number sized 2 (by decide) v.toNat,
      (sized.putNumber (by decide) _).putNumber (by decide) _,
      which_setMember_number sized 2 (by decide) v.toNat,
      uint32_put_same (sized.putNumber (by decide) _) (by decide) v⟩
  initCall := fun sized =>
    ⟨_, setTag_sized sized 3, sized.putNumber (by decide) _, which_setTag sized 3⟩
  setFunction := fun sized p =>
    ⟨_, sized.setPtr (by decide) p, sized.putPtr 0 p, rfl, ptr_put_same sized (by decide) p,
      ptr_put_other (by decide) p⟩
  initParams := fun sized n =>
    ⟨_, sized.setPtr (by decide) _, sized.putPtr 1 _, rfl, ptr_put_other (by decide) _,
      ptr_put_same sized (by decide) _⟩

theorem goSetters_lawful : goSetters.Lawful := tsSetters_lawful

theorem rustSetters_lawful : rustSetters.Lawful where
  setLiteral := tsSetters_lawful.setLiteral
  setPreviousResult := tsSetters_lawful.setPreviousResult
  setParameter := tsSetters_lawful.setParameter
  initCall := by
    intro s sized
    obtain ⟨s', tag, sized', which'⟩ := tsSetters_lawful.initCall sized
    have cleared : rustSetters.initCall s = some (putPtr 1 .null (putPtr 0 .null s')) := by
      have tagged : setDataField16 4 3 s = some s' := tag
      have second := (sized'.putPtr 0 .null).setPtr (show 1 < 2 by decide) .null
      simp only [rustSetters, tagged, Option.bind_some, sized'.setPtr (show 0 < 2 by decide), second]
    exact ⟨_, cleared, (sized'.putPtr 0 .null).putPtr 1 .null, which'⟩
  setFunction := tsSetters_lawful.setFunction
  initParams := tsSetters_lawful.initParams

theorem setters_lawful (l : Language) : (setters l).Lawful := by
  cases l with
  | ts => exact tsSetters_lawful
  | go => exact goSetters_lawful
  | rust => exact rustSetters_lawful

theorem client_addCap (l : Language) (c : Option C) (caps later : CapTable C) :
    client ((addCap l c caps).2 ++ later) (addCap l c caps).1 = c := by
  have entry : client ((caps ++ [c]) ++ later) (.capability caps.length) = c := by
    rw [client, List.append_assoc, List.getElem?_append_right (Nat.le_refl _), Nat.sub_self]
    rfl
  cases l with
  | ts => exact entry
  | rust => exact entry
  | go =>
    cases c with
    | none => rfl
    | some c => exact entry

theorem client_mem {caps : CapTable C} {p : Pointer} {c : C} (found : client caps p = some c) :
    some c ∈ caps := by
  cases p with
  | capability index => exact List.mem_of_getElem? (Option.join_eq_some_iff.mp found)
  | null => simp [client] at found
  | struct target => simp [client] at found
  | list length element => simp [client] at found

theorem view_caps (F : Float64 Num) (caps : CapTable C) (s : Struct) :
    ∀ c, c ∈ (view F caps s).functions ∨ c ∈ (view F caps s).values → some c ∈ caps := by
  induction s using Struct.ind with
  | step s _ lists =>
  intro c occurs
  rcases tag_cases s with tag | tag | tag | tag | tag
  · simp [view_literal F caps tag, Expression.functions, Expression.values] at occurs
  · simp only [view_previousResult F caps tag, Expression.functions, Expression.values,
      List.not_mem_nil, false_or, Option.mem_toList] at occurs
    exact client_mem occurs
  · simp [view_parameter F caps tag, Expression.functions, Expression.values] at occurs
  · have below : ∀ e ∈ (callParams s).elements.map (view F caps),
        c ∈ e.functions ∨ c ∈ e.values → some c ∈ caps := by
      intro e member here
      obtain ⟨t, element, rfl⟩ := List.mem_map.mp member
      cases params : callParams s with
      | list length elements =>
        rw [params, Pointer.elements] at element
        obtain ⟨i, -, rfl⟩ := List.mem_map.mp element
        exact lists 1 length elements (ptr_pointer params (by simp)).2 i c here
      | _ => simp [params, Pointer.elements] at element
    rw [view_call F caps tag, functions_call, values_call] at occurs
    rcases occurs with (function | ⟨e, member, here⟩) | ⟨e, member, here⟩
    · exact client_mem function
    · exact below e member (Or.inl here)
    · exact below e member (Or.inr here)
  · simp [view_unknown F caps tag, Expression.functions, Expression.values] at occurs

theorem addCap_grows (l : Language) (c : Option C) (caps : CapTable C) :
    ∃ new, (addCap l c caps).2 = caps ++ new := by
  cases l with
  | ts => exact ⟨[c], rfl⟩
  | rust => exact ⟨[c], rfl⟩
  | go =>
    cases c with
    | none => exact ⟨[], (List.append_nil caps).symm⟩
    | some c => exact ⟨[some c], rfl⟩

end ExpressionAccessors
