import Lowering.Emit.Object

/-!
Exceptions of the running program: raising, clearing, and where they go.
-/
namespace Lowering.Emit

def printError : Emit Operand := do
  let f ← external "PyErr_Print" .void []
  call f []

def clearError : Emit Operand := do
  let f ← external "PyErr_Clear" .void []
  call f []

def pendingError : Emit Operand := do
  let f ← external "PyErr_Occurred" (← objectPtr) []
  call f []

/-- Raises an exception; without a value it carries an empty text. -/
def raise (type : Operand) (value : Operand := .absent) : Emit Operand := do
  let value ← if value = .absent then newText "" else pure value
  let ptr ← objectPtr
  let f ← external "PyErr_SetObject" .void [ptr, ptr]
  let type ← ptrCast type ptr
  let value ← ptrCast value ptr
  call f [type, value]

def raiseNamed (name : String) : Emit Unit := do
  let type ← build Program.objectType
  let i ← build (Program.global name type externalLinkage)
  let exception ← globalVar i
  discard (raise exception)

def raiseIndexError : Emit Unit := raiseNamed "PyExc_IndexError"

def raiseAssertionError : Emit Unit := raiseNamed "PyExc_AssertionError"

/-- Goes to the handler of a raised exception, or out of the function. -/
def toHandler : Emit Unit := do
  let s ← get
  match s.lowerer with
  | .tree =>
    match s.tree.handlers with
    | some handler :: _ => branch handler
    | none :: _ | [] => retNull
  | _ => throw .noMember

def checkException (value : Operand) : Emit Unit := do
  let fine ← createBlock
  let raised ← createBlock
  let zero ← null (← objectPtr)
  let isNull ← eq value zero
  condBranch isNull raised fine
  setBlock raised
  toHandler
  setBlock fine

attribute [reducible] clearError raise

end Lowering.Emit
