import CalculatorRpc.SessionForecasts
import Mathlib.Algebra.Order.Ring.Nat

/- The evaluator with a log of every index that it applies to a list. Go's `int` is
   32 or 64 bits wide, and an index outside its list is a panic. -/
namespace ListIndexing
open CalculatorExpression CalculatorEvaluate CalculatorSession FallibleRuns LogForecasts
open SessionForecasts

variable {S F V H Num : Type}

inductive IntWidth where
  | bits32
  | bits64
  deriving DecidableEq

def int32 (pr : UInt32) : Int := pr.toInt32.toInt

def IntWidth.int : IntWidth → UInt32 → Int
  | .bits32 => int32
  | .bits64 => int64

def newParams (zero : Num) (len : Nat) : List Num := List.replicate (Int32.ofNat len).toInt.toNat zero

def indexedLists (zero : Num) : Lists (Logged S Access) Num :=
  ⟨newParams zero, fun access s => s.note access⟩

def evaluateIndexed (width : IntWidth) (rt : Runtime (Logged S Access) F V Num)
    (callParams : Option (List Num)) (e : Expression F V Num) (s : Logged S Access) :
    Except Error Num × Logged S Access :=
  evaluateWith (indexedLists rt.zero) width.int rt callParams e s

def unlogged (host : Host S H Num) : Host (Logged S Access) H Num where
  follow := fun m n => inState (host.follow m n)
  arguments := fun n => inState (host.arguments n)
  newArguments := fun s => { s with state := host.newArguments s.state }
  oldArguments := fun s s' => { s' with state := host.oldArguments s.state s'.state }
  enter := fun f s => { s with state := host.enter f s.state }
  leave := fun f s => { s with state := host.leave f s.state }
  call := fun c args => inState (host.call c args)
  read := fun c => inState (host.read c)

def runtimeIndexed (width : IntWidth) (A : Arithmetic Num) (host : Host S H Num) (h : History H Num)
    (message : Option Nat) : Runtime (Logged S Access) (Cap H) (Cap H) Num :=
  runtimeWith A (unlogged host) message
    (callMadeWith (indexedLists A.zero) width.int A (unlogged host) h) (readMade h)

/-- The list pointers of a message cannot hold longer lists. -/
abbrev ShortLists (e : Expression F V Num) : Prop := ListsFit (fun len => len < 2 ^ 30) e

abbrev ShortBodies (h : History H Num) : Prop := BodiesFit (fun len => len < 2 ^ 30) h

theorem int32_cases (pr : UInt32) :
    pr.toNat < 2 ^ 31 ∧ int32 pr = pr.toNat ∨ 2 ^ 31 ≤ pr.toNat ∧ int32 pr < 0 := by
  have bound := pr.toNat_lt
  have signed : int32 pr =
      if 2 * pr.toNat < 2 ^ 32 then (pr.toNat : Int) else pr.toNat - (2 ^ 32 : Nat) :=
    BitVec.toInt_eq_toNat_cond pr.toBitVec
  split at signed <;> omega

theorem int_cases (width : IntWidth) (pr : UInt32) :
    width.int pr = pr.toNat ∨ width = .bits32 ∧ 2 ^ 31 ≤ pr.toNat ∧ width.int pr < 0 := by
  cases width with
  | bits32 =>
    rcases int32_cases pr with ⟨_, same⟩ | high
    · exact Or.inl same
    · exact Or.inr ⟨rfl, high⟩
  | bits64 => exact Or.inl rfl

/-- The guard compares a signed number: it stops what is too large, not what is negative. -/
theorem guarded_safe_iff (width : IntWidth) (pr : UInt32) (len : Nat) :
    (guarded width.int pr len).Safe ↔ 0 ≤ width.int pr := by
  unfold guarded
  by_cases outside : (len : Int) ≤ width.int pr
  · simp [if_pos outside, Access.Safe]
    omega
  · simp [if_neg outside, Access.Safe]
    rcases int_cases width pr with same | ⟨_, _, negative⟩ <;> omega

theorem newParams_short (zero : Num) {len : Nat} (short : len < 2 ^ 30) :
    newParams zero len = List.replicate len zero := by
  unfold newParams
  rw [Int32.toInt_ofNat_of_lt (by omega), Int.toNat_natCast]

end ListIndexing
