import Lowering.Lower

/-!
The entry point of the output program: it fills the pool of constants, registers the functions and
starts the interpreter.
-/
namespace Lowering.Entry

open Emit

def pooled (c : Constant) : Emit Nat := do
  expect ((← get).program.findConstant c) .noKey

def constantTuple (items : List Constant) : Emit Operand := do
  let size ← int64 items.length
  let tuple ← newTuple size
  for (item, i) in items.zipIdx do
    let value ← load (← globalVar (← pooled item))
    let index ← int64 i
    let place ← tupleItemPtr tuple index
    discard (store value place)
  return tuple

/-- Makes the object of a constant; a set becomes a tuple. -/
def constantObject (c : Constant) : Emit Operand := do
  match c with
  | .bool b => return (← box (← int64 (if b then 1 else 0)) (some .integer)).value
  | .int n => return (← box (← int64 n) (some .integer)).value
  | .float x _ => return (← box (← assign (.float64 (some x))) (some .decimal)).value
  | .tuple items | .frozenset items => constantTuple items
  | .text s => newText s
  | _ => throw .unassigned

def fill (constants : Array (Constant × Nat)) : Emit Unit := do
  for (c, var) in constants do
    let address ← globalVar var
    let value ← constantObject c
    discard (store value address)

def fillConstants : Emit Unit := do
  fill (← get).program.constants

def implWith (d : Definition) (convention : Convention) : Emit (Option Impl) := do
  let s ← get
  return (d.impls.map fun i => s.impls[i]?.getD default).find? (·.convention = convention)

def codePtr (impl : Impl) : Emit Operand := do
  match impl.code with
  | some f => ptrCast (← funcPtr f) .int8Ptr
  | none => throw .noMember

def register (f : Nat) (d : Definition) (byTuple byVector : Impl) : Emit Unit :=
  match d.node.form with
  | .functionDef name .. => do
    let name ← lift name.required
    let text ← ptrCast (← globalText (name ++ "\x00")) .int8Ptr
    let byTuple ← codePtr byTuple
    let byVector ← codePtr byVector
    discard (call f [text, byTuple, byVector])
  | _ => throw .noMember

def registerDefinition (i : Nat) : Emit Unit := do
  let d ← expect (← get).definitions[i]? .noMember
  let f ← external "flyable_add_impl" .void [.int8Ptr, .int8Ptr, .int8Ptr]
  match ← implWith d .tuple, ← implWith d .vector with
  | some byTuple, some byVector => register f d byTuple byVector
  | _, _ => return ()

def registerFile (file : Nat) : Emit Unit := do
  for d in ((← get).files[file]?.getD default).functions do
    registerDefinition d

def registerFiles : Emit Unit := do
  for (_, file) in (← get).fileTable do
    registerFile file

def startUp : Emit Unit := do
  let block ← createBlock (some "Main Function Block")
  setBlock block
  discard startRuntime
  let builtins ← importModule "builtins"
  let slot ← globalVar (← build (Program.known! (·.builtins)))
  discard (store builtins slot)

def handOver : Emit Unit := do
  let f ← external "flyable_init" .void []
  discard (call f [])
  let f ← external "Py_BytesMain" .int32 [.int32, MachineType.int8Ptr.pointerTo]
  let result ← call f [0, 1]
  ret result

def mainBody : Emit Unit := do
  startUp
  fillConstants
  registerFiles
  handOver

/-- Runs an action with a cursor of its own in a function, as no lowering of a function. -/
def asBare {α : Type} (func : Nat) (x : Emit α) : Emit α := do
  let cursor ← build (Program.newCursor func)
  let old := (← get).lowerer
  modify fun s => { s with lowerer := .bare }
  restoring (fun s => { s with lowerer := old }) (withCursor cursor x)

def emitMain : Emit Unit := do
  let f ← external "main" .int32 [.int32, MachineType.int8Ptr.pointerTo]
  asBare f mainBody

end Lowering.Entry
