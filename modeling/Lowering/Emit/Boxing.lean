import Lowering.Emit.Counting

/-!
Objects made from plain values, and the texts and memory that the run-time library provides.
-/
namespace Lowering.Emit

def retained : ValueType := ValueType.python.addHint .refIncr

/-- A number as an object; a number that the type knows is one of the constants. -/
def boxNumber (sort : ConstantSort) (function : String) (param : MachineType) (t : ValueType)
    (value : Operand) : Emit Term := do
  match t.findHint? (.constant sort) with
  | some (.constant _ c) =>
    let i ← build (Program.constantVar c)
    return ⟨some .python, ← load (← globalVar i)⟩
  | _ =>
    let f ← external function (← objectPtr) [param]
    return ⟨some retained, ← call f [value]⟩

/-- A value as an object. Numbers and truth values are boxed; objects stay as they are. -/
def box (value : Operand) (type : Option ValueType) : Emit Term := do
  let t ← known type
  if t.isInt then boxNumber .integer "PyLong_FromLongLong" .int64 t value
  else if t.isDec then boxNumber .decimal "PyFloat_FromDouble" .double t value
  else if t.isBool then
    let yes ← createBlock (some "Convert bool True")
    let no ← createBlock (some "Convert bool false")
    let rest ← createBlock (some "Convert bool continue")
    requireFunction
    let slot ← entryVar (← objectPtr)
    condBranch value yes no
    setBlock yes
    let trueVar ← globalVar (← build (Program.known! (·.trueVar)))
    discard (store trueVar slot)
    branch rest
    setBlock no
    let falseVar ← globalVar (← build (Program.known! (·.falseVar)))
    discard (store falseVar slot)
    branch rest
    setBlock rest
    let result ← load slot
    retain (some .python) result
    return ⟨some retained, result⟩
  else if t.isNone then
    let result ← globalVar (← build (Program.known! (·.noneVar)))
    retain (some .python) result
    return ⟨some .python, result⟩
  else if t.isObj || t.isCollection then
    let result ← ptrCast value (← objectPtr)
    return ⟨some (if t.isIncremented then retained else .python), result⟩
  else return ⟨some .python, value⟩

def newText (l : Label) : Emit Operand := do
  let ptr ← ptrCast (← globalText l) .int8Ptr
  let f ← external "PyUnicode_FromStringAndSize" (← objectPtr) [.int8Ptr, .int64]
  let size ← int64 (← lift l.size)
  call f [ptr, size]

def newBytes (bs : Bytes) : Emit Operand := do
  match String.fromUTF8? ⟨bs.toArray⟩ with
  | none => throw .undecodable
  | some s =>
    let ptr ← ptrCast (← globalText s) .int8Ptr
    let f ← external "PyBytes_FromString" (← objectPtr) [.int8Ptr]
    call f [ptr]

def newTextFrom (ptr : Operand) : Emit Operand := do
  let f ← build (Program.func "PyUnicode_FromString" .int8Ptr [.int8Ptr] internalLinkage)
  call f [ptr]

def allocate (size : Operand) : Emit Operand := do
  let f ← external "PyMem_Malloc" (← objectPtr) [.int64]
  call f [size]

def free (memory : Operand) : Emit Operand := do
  let f ← external "PyMem_Free" .void [.int8Ptr]
  let memory ← ptrCast memory .int8Ptr
  call f [memory]

def startRuntime : Emit Operand := do
  let f ← external "Py_Initialize" .void []
  call f []

def importModule (name : Label) : Emit Operand := do
  let text ← globalText name
  discard (load text)
  let text ← ptrCast text .int8Ptr
  let f ← external "PyImport_ImportModule" (← objectPtr) [.int8Ptr]
  call f [text]

def newGenerator : Emit Operand := do
  let f ← external "flyable_handle_return_generator_bytecode" (← objectPtr) []
  call f []

attribute [reducible] newGenerator newText startRuntime importModule

end Lowering.Emit
