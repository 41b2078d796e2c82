import CalculatorRpc.StructEvaluation
import CalculatorRpc.Session

/- Calls as messages: the method tables of the generated clients and servers, the
   params and results structs, and the handlers of the server on these structs. A
   capability of the session is pointer 0 of the answer to an earlier call. -/
namespace CallDispatch
open CalculatorExpression CalculatorEvaluate CalculatorSession MessageStructs ExpressionAccessors
open StructEvaluation

variable {Num : Type}

structure Method where
  interfaceId : UInt64
  methodId : UInt16
  deriving DecidableEq

inductive Handler where
  | evaluate
  | defFunction
  | getOperator
  | read
  | call
  deriving DecidableEq

def tsMethod : Handler → Method
  | .evaluate => ⟨0x97983392df35cc36, 0⟩
  | .defFunction => ⟨0x97983392df35cc36, 1⟩
  | .getOperator => ⟨0x97983392df35cc36, 2⟩
  | .read => ⟨0xc3e69d34d3ee48d2, 0⟩
  | .call => ⟨0xede83a3d96840394, 0⟩

def goMethod : Handler → Method
  | .evaluate => ⟨0x97983392df35cc36, 0⟩
  | .defFunction => ⟨0x97983392df35cc36, 1⟩
  | .getOperator => ⟨0x97983392df35cc36, 2⟩
  | .read => ⟨0xc3e69d34d3ee48d2, 0⟩
  | .call => ⟨0xede83a3d96840394, 0⟩

def rustMethod : Handler → Method
  | .evaluate => ⟨0x97983392df35cc36, 0⟩
  | .defFunction => ⟨0x97983392df35cc36, 1⟩
  | .getOperator => ⟨0x97983392df35cc36, 2⟩
  | .read => ⟨0xc3e69d34d3ee48d2, 0⟩
  | .call => ⟨0xede83a3d96840394, 0⟩

def clientMethod : Language → Handler → Method
  | .ts => tsMethod
  | .go => goMethod
  | .rust => rustMethod

def calculatorMethods : List (Method × Handler) :=
  [(⟨0x97983392df35cc36, 0⟩, .evaluate), (⟨0x97983392df35cc36, 1⟩, .defFunction),
    (⟨0x97983392df35cc36, 2⟩, .getOperator)]

def valueMethods : List (Method × Handler) := [(⟨0xc3e69d34d3ee48d2, 0⟩, .read)]

def functionMethods : List (Method × Handler) := [(⟨0xede83a3d96840394, 0⟩, .call)]

def findMethod (methods : List (Method × Handler)) (m : Method) : Option Handler :=
  (methods.find? fun entry => entry.1 = m).map Prod.snd

def unimplemented (m : Method) : Error :=
  if m.interfaceId = 0xc3e69d34d3ee48d2 then .notReadable else .notCallable

/-- What the capabilities of the server's answers are. The function that `DefFunction`
    returns keeps the struct of its body, in its message. -/
inductive Server (Num : Type) where
  | operator (op : Operator)
  | closure (defParamCount : Int32) (defBody : Struct) (caps : CapTable (Cap Empty))
  | value (server : ValueServer Num)

def Server.methods : Server Num → List (Method × Handler)
  | .operator _ => functionMethods
  | .closure _ _ _ => functionMethods
  | .value _ => valueMethods

structure ResultsMessage (Num : Type) where
  root : Struct
  caps : CapTable (Server Num)

abbrev Answer (Num : Type) := Except Error (ResultsMessage Num)

abbrev WireHistory (Num : Type) := List (Nat × Answer Num)

structure CallMessage where
  target : Option Nat
  method : Method
  params : Struct
  caps : CapTable (Cap Empty)

def promised (results : ResultsMessage Num) : Option (Server Num) :=
  client results.caps (results.root.ptr 0)

/-- A panic of the server is the error that the evaluator has for one. -/
def Fault.toError : Fault → Error
  | .panic _ => .indexOutOfRange
  | .error e => e

def orPanic {α : Type} : Option α → Except Error α
  | none => .error .indexOutOfRange
  | some a => .ok a

def setCapability (server : Server Num) : Answer Num :=
  orPanic ((setPtr 0 (addCap .go (some server) []).1 (newStruct 0 1)).map fun root =>
    ⟨root, (addCap .go (some server) []).2⟩)

def setNumberResult (F : Float64 Num) (v : Num) : Except Error Struct :=
  orPanic (setValue F v (newStruct 8 0))

def readValue (F : Float64 Num) : Server Num → Except Error Struct
  | .value server => server.read.bind (setNumberResult F)
  | .operator _ => .error .notReadable
  | .closure _ _ _ => .error .notReadable

def callServer (F : Float64 Num) (A : Arithmetic Num) (rt : WireRuntime Unit (Cap Empty))
    (params : Struct) : Server Num → Except Error Struct
  | .operator op =>
    match numbers F params with
    | [a, b] => setNumberResult F (A.apply op a b)
    | cparams => .error (.wrongArguments 2 cparams.length)
  | .closure defParamCount defBody caps =>
    if ((numbers F params).length : Int) ≠ defParamCount.toInt then
      .error (.wrongArguments defParamCount.toInt (numbers F params).length)
    else
      match (StructEvaluation.evaluate F caps int64 rt (some params) defBody ()).1 with
      | .error fault => .error (Fault.toError fault)
      | .ok val => setNumberResult F val
  | .value _ => .error .notCallable

/-- No read of a message fails here: the limits of the library are left out, and with them
    the calls that they make fail. -/
def wireRuntimeWith (invoke : Nat → Method → Struct → Except Error Struct) :
    WireRuntime Unit (Cap Empty) where
  params := fun _ s => (.ok (), s)
  arguments := fun _ s => (.ok (), s)
  enter := fun _ s => s
  leave := fun _ s => s
  call := fun f params s =>
    match f with
    | .made id => (invoke id (goMethod .call) params, s)
    | .hosted c => c.elim
  read := fun v s =>
    match v with
    | .made id => (invoke id (goMethod .read) (newStruct 0 0), s)
    | .hosted c => c.elim

def invoke (F : Float64 Num) (A : Arithmetic Num) :
    WireHistory Num → Nat → Method → Struct → Except Error Struct
  | [], _, m, _ => .error (unimplemented m)
  | (k, answer) :: earlier, id, m, params =>
    if k = id then
      match answer with
      | .error e => .error e
      | .ok results =>
        match promised results with
        | none => .error (unimplemented m)
        | some server =>
          match findMethod server.methods m with
          | some .read => readValue F server
          | some .call =>
            callServer F A (wireRuntimeWith fun id m params => invoke F A earlier id m params)
              params server
          | _ => .error (unimplemented m)
    else invoke F A earlier id m params

def wireRuntime (F : Float64 Num) (A : Arithmetic Num) (w : WireHistory Num) :
    WireRuntime Unit (Cap Empty) :=
  wireRuntimeWith (invoke F A w)

def handleEvaluate (F : Float64 Num) (A : Arithmetic Num) (w : WireHistory Num) (m : CallMessage) :
    Answer Num :=
  match (StructEvaluation.evaluate F m.caps int64 (wireRuntime F A w) none (m.params.ptr 0).target
    ()).1 with
  | .error fault => .error (Fault.toError fault)
  | .ok val => setCapability (.value ⟨val⟩)

def handleDefFunction (m : CallMessage) : Answer Num :=
  setCapability (.closure (m.params.uint32 0).toInt32 (m.params.ptr 0).target m.caps)

def handleGetOperator (m : CallMessage) : Answer Num :=
  match operators (m.params.uint16 0) with
  | none => .error .operatorNotFound
  | some op => setCapability (.operator op)

def handle (F : Float64 Num) (A : Arithmetic Num) (w : WireHistory Num) (m : CallMessage) :
    Answer Num :=
  match m.target with
  | none =>
    match findMethod calculatorMethods m.method with
    | some .evaluate => handleEvaluate F A w m
    | some .defFunction => handleDefFunction m
    | some .getOperator => handleGetOperator m
    | _ => .error (unimplemented m.method)
  | some id => (invoke F A w id m.method m.params).map fun root => ⟨root, []⟩

end CallDispatch
