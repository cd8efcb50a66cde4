import Lowering.Stack.Unpack

/-!
Operators, and the building and changing of collections.
-/
namespace Lowering.Stack

open Emit

def dupTop : Emit Unit := do
  let t ← top
  push t
  retain t.type t.value

def dupTopTwo : Emit Unit := do
  for _ in [0, 1] do
    let t ← operandAt (-2)
    push t
    retain t.type t.value

def copy (op : Opcode) : Emit Unit := do
  let t ← operandAt (-(← argument op) - 1)
  push t
  retain t.type t.value

def replaceAt (place : Int) (t : Term) : Emit Unit := do
  match Operands.set? (← operands) place t with
  | some s => setOperands s
  | none => throw .outOfRange

def swap (op : Opcode) : Emit Unit := do
  let n ← argument op
  let held ← top
  replaceAt (-1) (← operandAt (-n))
  replaceAt (-n) held

/-- Writes the entry below the one at depth `i` over it. -/
def raise (i : Nat) : Emit Unit := do
  replaceAt (-i - 1) (← operandAt (-i - 2))

def rotateTwo : Emit Unit := do
  let held ← operandAt (-2)
  replaceAt (-2) (← top)
  replaceAt (-1) held

/-- Moves the top entry down, after the entries above its new place. -/
def rotate (n : Nat) : Emit Unit := do
  let held ← top
  (List.range (n - 1)).forM raise
  replaceAt (-n) held

/-- Rotates by as many entries as the argument says; the last round puts the top entry down. -/
def rotateBy (op : Opcode) : Emit Unit := do
  let held ← top
  let n ← argument op
  for i in [0:n.toNat] do
    if i + 1 = n then replaceAt (-n) held else raise i

def pushNull : Emit Unit := do
  pushObject (← null (← objectPtr))

def unaryCall (function : String) : Emit Unit := do
  let t ← pop
  push ⟨some .python, ← callObjects function [t.value]⟩

def notOperator : Emit Unit := do
  let t ← pop
  push (← callMethod "__not__" t.value t.type .empty .empty)

def getIter : Emit Unit := do
  let t ← pop
  pushObject (← callObjects "PyObject_GetIter" [t.value])

def binaryCall (function : String) : Emit Unit := do
  let right ← pop
  let left ← pop
  pushObject (← callObjects function [left.value, right.value])

def getItem : Emit Unit := do
  let index ← pop
  let container ← pop
  pushObject (← callObjects "PyObject_GetItem" [container.value, index.value])

def setItem : Emit Unit := do
  let index ← pop
  let container ← pop
  let t ← pop
  let ptr ← objectPtr
  let f ← external "PyObject_SetItem" .int32 [ptr, ptr, ptr]
  discard (call f [container.value, index.value, t.value])

def deleteItem : Emit Unit := do
  let index ← pop
  let container ← pop
  let ptr ← objectPtr
  let f ← external "PyObject_DelItem" .int32 [ptr, ptr]
  discard (call f [container.value, index.value])

/-- Wraps the top operand; the result has no type of its own. -/
def wrapAsync : Emit Unit := do
  let t ← top
  setTop ⟨none, ← callObjects "_PyAsyncGenValueWrapperNew" [t.value]⟩

def compareOp (op : Opcode) : Emit Unit := do
  let right ← pop
  let left ← pop
  let ptr ← objectPtr
  let f ← external "PyObject_RichCompare" ptr [ptr, ptr, .int32]
  let code ← assign (.smallInt .int32 (argOperand op))
  pushObject (← call f [left.value, right.value, code])

def isSet (op : Opcode) : Bool := op.arg.any (· ≠ 0)

def pushTruth (value : Operand) : Emit Unit := do
  let t ← box value (some .boolean)
  retain t.type t.value
  push t

def isOp (op : Opcode) : Emit Unit := do
  let right ← pop
  let left ← pop
  let l ← typePtr left.value
  let r ← typePtr right.value
  let same ← eq l r
  if isSet op then discard (unary .neg same)
  pushTruth same

def containsOp (op : Opcode) : Emit Unit := do
  let right ← pop
  let left ← pop
  let ptr ← objectPtr
  let f ← external "PySequence_Contains" .int32 [ptr, ptr]
  let found ← call f [right.value, left.value]
  let one ← int32 1
  pushTruth (← if isSet op then ne found one else eq found one)

/-- Pops `n` operands and gives each with its index to `fill`, the last one first. -/
def fillFromTop (n : Nat) (fill : Operand → Operand → Emit Unit) : Emit Unit := do
  let room := min n (← operands).length
  for k in List.range room do
    let t ← pop
    let index ← int64 (n - 1 - k : Nat)
    fill index t.value
  if room < n then throw .outOfRange

def buildTuple (op : Opcode) : Emit Unit := do
  let size ← assign (.int64 (argOperand op))
  let tuple ← newTuple size
  fillFromTop (← argument op).toNat (tupleFill tuple)
  pushObject tuple

def buildList (op : Opcode) : Emit Unit := do
  let size ← assign (.int64 (argOperand op))
  let list ← newList size
  fillFromTop (← argument op).toNat fun index item => do
    let place ← listItemPtr (some .python) list index
    discard (store item place)
  pushObject list

def updateBelow (function : String) (op : Opcode) : Emit Unit := do
  let t ← pop
  let collection ← operandBelow op
  discard (callObjects function [collection.value, t.value])

def listToTuple : Emit Unit := do
  let list ← pop
  pushObject (← callObjects "PyList_AsTuple" [list.value])

def buildSet (op : Opcode) : Emit Unit := do
  let nothing ← null (← objectPtr)
  let set ← newSet nothing
  let n := (← argument op).toNat
  let room := min n (← operands).length
  for _ in List.range room do
    let t ← pop
    let boxed ← box t.value t.type
    discard (setAdd set boxed.value)
  if room < n then throw .outOfRange
  push ⟨some .python, set⟩

/-- Popped operands, the top one first, as keys and values in the order in which they were pushed. -/
def pairsOf : List Term → List (Term × Term)
  | value :: key :: rest => pairsOf rest ++ [(key, value)]
  | _ => []

def buildMap (op : Opcode) : Emit Unit := do
  let dict ← newDict
  let popped ← popMany (2 * (← argument op).toNat)
  for (key, value) in pairsOf popped do
    let k ← box key.value key.type
    let v ← box value.value value.type
    discard (dictSet dict k.value v.value)
  push ⟨some .python, dict⟩

def buildConstKeyMap (op : Opcode) : Emit Unit := do
  let dict ← newDict
  let keys ← pop
  let popped ← popMany (← argument op).toNat
  for (value, i) in popped.reverse.zipIdx do
    let v ← box value.value value.type
    let index ← int64 i
    let key ← load (← tupleItemPtr keys.value index)
    discard (dictSet dict key v.value)
  push ⟨some .python, dict⟩

def dictMerge (op : Opcode) : Emit Unit := do
  let t ← pop
  let dict ← operandBelow op
  let two ← int64 2
  let ptr ← objectPtr
  let f ← external "_PyDict_MergeEx" ptr [ptr, ptr, .int32]
  discard (call f [dict.value, t.value, two])

def setAddBelow (op : Opcode) : Emit Unit := do
  let t ← pop
  let set ← operandBelow op
  discard (setAdd set.value t.value)

def listAppendBelow (op : Opcode) : Emit Unit := do
  let t ← pop
  let list ← operandBelow op
  listAppend list.value t.type t.value

def mapAddBelow (op : Opcode) : Emit Unit := do
  let value ← pop
  let key ← pop
  let dict ← operandBelow op
  discard (dictSet dict.value key.value value.value)

def getLen : Emit Unit := do
  let t ← top
  let type ← known t.type
  let length ←
    if type.isList then listLength t.value
    else if type.isTuple then tupleLength t.value
    else if type.isSet then setLength t.value
    else if type.isDict then dictLength t.value
    else do
      let f ← external "PyObject_Length" .int64 [← objectPtr]
      call f [t.value]
  push ⟨some .integer, length⟩

def matchFlag (flag : Int) : Emit Unit := do
  let mask ← int64 flag
  let t ← top
  let type ← typeOf t.value
  let flags ← load (← flagsPtr type)
  let common ← binary .and flags mask
  let zero ← int64 0
  push ⟨some .boolean, ← ne common zero⟩

/-- The values of a mapping for a tuple of keys; null if one is missing. -/
def matchKeys : Emit Unit := do
  let keys ← operandAt (-1)
  let subject ← operandAt (-2)
  let size ← tupleLength keys.value
  let values ← newTuple size
  let slot ← entryVar (← build Program.listType).pointerTo
  discard (store values slot)
  let index ← entryVar .int64
  let zero ← int64 0
  discard (store zero index)
  let next ← createBlock (some "Next Block")
  let check ← createBlock (some "Check Index Block")
  let set ← createBlock (some "Set Item Block")
  let missing ← createBlock (some "Null Block")
  let rest ← createBlock (some "Continue Block")
  branch check
  setBlock check
  let more ← lt index size
  condBranch more next rest
  setBlock next
  let key ← callMethod "__getitem__" keys.value keys.type [index] [some ValueType.integer]
  let value ← dictGet subject.value key.value
  let nothing ← null (← objectPtr)
  let isNull ← eq value nothing
  condBranch isNull missing set
  setBlock set
  tupleFill slot index value
  let one ← int64 1
  let after ← add index one
  discard (store after index)
  branch check
  setBlock missing
  discard (store nothing slot)
  branch rest
  setBlock rest
  push ⟨some .python, slot⟩

def buildSlice (op : Opcode) : Emit Unit := do
  let step ←
    if op.arg = some 3 then pop
    else do pure ⟨none, ← null (← objectPtr)⟩
  let stop ← pop
  let start ← pop
  pushObject (← newSlice start.value stop.value step.value)
  releaseNullable step.type step.value

def converted (conversion : Int) (value spec : Operand) : Emit Operand :=
  match conversion with
  | 1 => callObjects "PyObject_Str" [value]
  | 2 => callObjects "PyObject_Repr" [value]
  | 3 => callObjects "PyObject_ASCII" [value]
  | _ => callObjects "PyObject_Format" [value, spec]

def formatValue (op : Opcode) : Emit Unit := do
  let n ← argument op
  let spec ←
    if n / 4 % 2 = 1 then do pure (← pop).value
    else do null (← objectPtr)
  let t ← pop
  let text ← converted (n % 4) t.value spec
  push ⟨t.type, text⟩
  releaseNullable (some .python) spec

def checkExceptionMatch : Emit Unit := do
  let r ← pop
  let right ← box r.value r.type
  let l ← top
  let left ← box l.value l.type
  let ptr ← objectPtr
  let f ← external "PyErr_GivenExceptionMatches" .int32 [ptr, ptr]
  let found ← call f [left.value, right.value]
  let found ← intCast found .int64
  push (← box found (some .integer))

def reraise : Emit Unit := do
  let t ← pop
  let ptr ← objectPtr
  let classOf ← external "PyExceptionInstance_Class" ptr [ptr]
  let newRef ← external "Py_NewRef" ptr [ptr]
  let class_ ← call classOf [t.value]
  discard (call newRef [class_])

def unpackSequence (op : Opcode) : Emit Unit := do
  let t ← pop
  -- without a count the iterator is made before the fault
  match op.arg with
  | some n => unpackIterable t n (.id (-1))
  | none =>
    discard (createBlock (some "After Unpack"))
    discard (callMethod "__iter__" t.value t.type .empty .empty)
    throw .misuse

/-- Unpacking of a value expected to be of a class; another value is unpacked by its iterator first. -/
def unpackExpected (expected : ValueType → Bool) (op : Opcode) : Emit Unit := do
  let t ← top
  unless expected (← known t.type) do unpackSequence op
  unpackSized t op

def unpackEx (op : Opcode) : Emit Unit := do
  let t ← pop
  let n ← argument op
  unpackIterable t (n % 256) (.id (n / 256))

attribute [reducible] dupTop dupTopTwo copy swap rotateTwo pushNull unaryCall notOperator getIter getItem setItem
  deleteItem wrapAsync compareOp pushTruth isOp containsOp buildTuple buildList updateBelow listToTuple
  dictMerge setAddBelow listAppendBelow mapAddBelow getLen matchFlag matchKeys buildSlice formatValue
  checkExceptionMatch reraise unpackExpected unpackEx binaryCall

end Lowering.Stack
