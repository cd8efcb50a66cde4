import Lowering.Emit.Exception

/-!
Lists, tuples, dictionaries, sets and slices.
-/
namespace Lowering.Emit

def listPtr (list : Operand) : Emit Operand := do
  ptrCast list (← build Program.listType).pointerTo

def newList (length : Operand) : Emit Operand := do
  let f ← external "PyList_New" (← objectPtr) [.int64]
  call f [length]

def listSet (list index item : Operand) : Emit Operand := do
  let ptr ← objectPtr
  let f ← external "PyList_SetItem" .int32 [ptr, .int64, ptr]
  call f [list, index, item]

def listAppend (list : Operand) (type : Option ValueType) (item : Operand) : Emit Unit := do
  let item ← box item type
  let ptr ← objectPtr
  let f ← external "PyList_Append" ptr [ptr, ptr]
  discard (call f [list, item.value])

def listCapacityPtr (list : Operand) : Emit Operand := do
  slotPtr (← listPtr list) 4

def listContentPtr (list : Operand) : Emit Operand := do
  slotPtr (← listPtr list) 3

def listLengthPtr (list : Operand) : Emit Operand := do
  slotPtr (← listPtr list) 2

def listLength (list : Operand) : Emit Operand := do
  load (← listLengthPtr list)

/-- The address of an item of a list, without a check of the index. -/
def listItemPtr (type : Option ValueType) (list index : Operand) : Emit Operand := do
  let content ← load (← listContentPtr list)
  let item ← machineType (← known (← known type).content)
  let content ← ptrCast content item.pointerTo
  element content item [index]

def listItemUnchecked (type : Option ValueType) (list index : Operand) : Emit Operand := do
  load (← listItemPtr type list index)

def failAt (bad good : BlockRef) : Emit Unit := do
  setBlock bad
  raiseIndexError
  toHandler
  setBlock good

def listItem (type : Option ValueType) (list index : Operand) : Emit Operand := do
  let good ← createBlock (some "List Valid Index")
  let bad ← createBlock (some "List Wrong Index")
  let size ← listLength list
  let real ← binary .mod index size
  let inside ← lt real size
  condBranch inside good bad
  setBlock good
  let result ← listItemUnchecked type list index
  failAt bad good
  return result

def newTuple (size : Operand) : Emit Operand := do
  let f ← external "PyTuple_New" (← objectPtr) [.int64]
  call f [size]

def offset (value : Operand) (n : Int) : Emit Operand :=
  match value, value.toInt? with
  | _, some v => return .id (v + n)
  | .other _ .fraction, none => return value
  | _, none => throw .misuse

def tupleSizePtr (tuple : Operand) : Emit Operand := do
  slotPtr (← listPtr tuple) 2

def tupleContentPtr (tuple : Operand) : Emit Operand := do
  slotPtr (← listPtr tuple) 3

def tupleLength (tuple : Operand) : Emit Operand := do
  load (← tupleSizePtr tuple)

def newStackTuple (size : Operand) : Emit Operand := do
  requireFunction
  let ptr ← objectPtr
  let room ← offset size 10
  let tuple ← entryVar (.arrayOf ptr room)
  let tuple ← ptrCast tuple (← build (Program.structType (·.tupleStruct))).pointerTo
  let type ← typePtr tuple
  let type ← ptrCast type (← objectPtr).pointerTo
  let tupleType ← globalVar (← build (Program.known! (·.tupleType)))
  discard (store tupleType type)
  let five ← int64 5
  discard (setCount tuple five)
  let size ← assign (.int64 size)
  discard (store size (← tupleSizePtr tuple))
  ptrCast tuple (← objectPtr)

def tupleSet (tuple index item : Operand) : Emit Operand := do
  let ptr ← objectPtr
  let f ← external "PyTuple_SetItem" .int32 [ptr, .int64, ptr]
  call f [tuple, index, item]

/-- The address of an item of a tuple; its items follow three words. -/
def tupleItemPtr (tuple index : Operand) : Emit Operand := do
  let content ← ptrCast tuple (← objectPtr).pointerTo
  let three ← int64 3
  let place ← add index three
  element content (← objectPtr) [place]

def tupleFill (tuple index item : Operand) : Emit Unit := do
  let address ← tupleItemPtr tuple index
  discard (store item address)

def tupleItem (tuple index : Operand) : Emit Operand := do
  let good ← createBlock (some "Tuple Valid Index")
  let bad ← createBlock (some "Tuple Wrong Index")
  let size ← load (← tupleSizePtr tuple)
  let real ← binary .mod index size
  let inside ← lt real size
  condBranch inside good bad
  setBlock good
  let content ← ptrCast tuple (← objectPtr).pointerTo
  let place ← offset index 3
  let address ← element content (← objectPtr) [place]
  let result ← load address
  failAt bad good
  return result

def newDict : Emit Operand := do
  let f ← external "PyDict_New" (← objectPtr) []
  call f []

def dictSet (dict key value : Operand) : Emit Operand := do
  let ptr ← objectPtr
  let f ← external "PyDict_SetItem" .int32 [ptr, ptr, ptr]
  call f [dict, key, value]

def dictGet (dict key : Operand) : Emit Operand := callObjects "PyDict_GetItem" [dict, key]

def dictDelete (dict key : Operand) : Emit Operand := do
  let ptr ← objectPtr
  let f ← external "PyDict_DelItem" .int32 [ptr, ptr]
  call f [dict, key]

def dictLength (dict : Operand) : Emit Operand := do
  let f ← external "PyDict_Size" .int64 [← objectPtr]
  call f [dict]

def dictKeys (dict : Operand) : Emit Operand := callObjects "PyDict_Keys" [dict]

def newSet (items : Operand) : Emit Operand := callObjects "PySet_New" [items]

def setAdd (set item : Operand) : Emit Operand := do
  let ptr ← objectPtr
  let f ← external "PySet_Add" .int32 [ptr, ptr]
  call f [set, item]

def setLength (set : Operand) : Emit Operand := do
  let f ← external "PySet_Size" .int64 [← objectPtr]
  call f [set]

def newSlice (start stop step : Operand) : Emit Operand :=
  callObjects "PySlice_New" [start, stop, step]

attribute [reducible] listPtr listContentPtr listLengthPtr listItemPtr tupleSizePtr tupleLength dictDelete dictLength
  setLength newSlice newList listSet listAppend listItemUnchecked failAt newTuple tupleItemPtr tupleFill newDict
  dictSet dictGet dictKeys newSet setAdd newStackTuple

end Lowering.Emit
