import Mathlib.Data.List.Basic

/- The data of a calculator request: the expression union of the schema, and the
   errors that the server makes. Capabilities and numbers stay abstract here;
   a null capability is `none`. -/
namespace CalculatorExpression

structure UnknownWhich where
  which : UInt16
  unknown : 4 ≤ which.toNat
  deriving DecidableEq

inductive Expression (F V Num : Type) where
  | literal (value : Num)
  | previousResult (value : Option V)
  | parameter (index : UInt32)
  | call (function : Option F) (params : List (Expression F V Num))
  | unknown (which : UnknownWhich)

inductive Error where
  | nullClient
  | outsideFunction (pr : UInt32)
  | missingParameter (pr : UInt32) (len : Nat)
  | unknownExpression (which : UnknownWhich)
  | wrongArguments (expected : Int) (got : Nat)
  | operatorNotFound
  | indexOutOfRange
  | notCallable
  | notReadable
  | readLimit
  | remote (text : String)
  deriving DecidableEq

/-- The texts of the errors made by the server itself. The others come from the
    RPC library or from the peer, and an index out of range is a panic. -/
def Error.text : Error → Option String
  | .outsideFunction pr =>
    some ("parameter " ++ toString pr ++ " used outside of function context")
  | .missingParameter pr len =>
    some ("parameter " ++ toString pr ++ " used, but only have " ++ toString len ++ " parameters")
  | .unknownExpression w =>
    some ("don't know how to evaluate Calculator_Expression_Which(" ++ toString w.which ++ ") yet")
  | .wrongArguments expected got =>
    some ("expected " ++ toString expected ++ " arguments, got " ++ toString got)
  | .operatorNotFound => some "Operator not found"
  | .remote text => some text
  | _ => none

variable {F V Num : Type}

@[induction_eliminator]
theorem Expression.induction {P : Expression F V Num → Prop}
    (literal : ∀ v, P (.literal v)) (previousResult : ∀ v, P (.previousResult v))
    (parameter : ∀ i, P (.parameter i))
    (call : ∀ f ps, (∀ p ∈ ps, P p) → P (.call f ps)) (unknown : ∀ w, P (.unknown w)) :
    ∀ e, P e := by
  intro e
  refine @Expression.rec F V Num P (fun ps => ∀ p ∈ ps, P p)
    literal previousResult parameter (fun f ps ih => call f ps ih) unknown ?_ ?_ e
  · simp
  · intro p ps hp hps q hq
    rcases List.mem_cons.mp hq with first | later
    · subst q
      exact hp
    · exact hps q later

mutual
/-- Replace `parameter i` by the i-th of the given expressions, if there is one. -/
def Expression.substitute (args : List (Expression F V Num)) :
    Expression F V Num → Expression F V Num
  | .literal v => .literal v
  | .previousResult v => .previousResult v
  | .parameter i => (args[i.toNat]?).getD (.parameter i)
  | .call f ps => .call f (substituteAll args ps)
  | .unknown w => .unknown w

def Expression.substituteAll (args : List (Expression F V Num)) :
    List (Expression F V Num) → List (Expression F V Num)
  | [] => []
  | p :: ps => p.substitute args :: substituteAll args ps
end

theorem substituteAll_eq_map (args ps : List (Expression F V Num)) :
    Expression.substituteAll args ps = ps.map (Expression.substitute args) := by
  induction ps with
  | nil => rfl
  | cons p ps ih => rw [Expression.substituteAll, ih, List.map_cons]

mutual
def Expression.functions : Expression F V Num → List F
  | .call f ps => f.toList ++ functionsOf ps
  | _ => []

def Expression.functionsOf : List (Expression F V Num) → List F
  | [] => []
  | p :: ps => p.functions ++ functionsOf ps
end

mutual
def Expression.values : Expression F V Num → List V
  | .previousResult v => v.toList
  | .call _ ps => valuesOf ps
  | _ => []

def Expression.valuesOf : List (Expression F V Num) → List V
  | [] => []
  | p :: ps => p.values ++ valuesOf ps
end

theorem functions_call {f : F} {g : Option F} {ps : List (Expression F V Num)} :
    f ∈ (Expression.call g ps).functions ↔ g = some f ∨ ∃ p ∈ ps, f ∈ p.functions := by
  have params : f ∈ Expression.functionsOf ps ↔ ∃ p ∈ ps, f ∈ p.functions := by
    induction ps with
    | nil => simp [Expression.functionsOf]
    | cons p ps ih => simp [Expression.functionsOf, ih]
  rw [Expression.functions, List.mem_append, params, Option.mem_toList]

theorem values_call {v : V} {g : Option F} {ps : List (Expression F V Num)} :
    v ∈ (Expression.call g ps).values ↔ ∃ p ∈ ps, v ∈ p.values := by
  rw [Expression.values]
  induction ps with
  | nil => simp [Expression.valuesOf]
  | cons p ps ih => simp [Expression.valuesOf, ih]

end CalculatorExpression
