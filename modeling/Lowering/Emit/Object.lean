import Lowering.Emit.Boxing

/-!
Members of objects and of their types.
-/
namespace Lowering.Emit

def slotPtr (base : Operand) (n : Nat) : Emit Operand := do
  let zero ← int32 0
  let index ← int32 n
  member base zero index

def deallocSlot : Nat := 6
def vectorOffsetSlot : Nat := 7
def getAttrSlot : Nat := 8
def setAttrSlot : Nat := 9
def numberSlot : Nat := 12
def getAttrObjectSlot : Nat := 18
def setAttrObjectSlot : Nat := 19
def compareSlot : Nat := 25
def iterSlot : Nat := 27
def iterNextSlot : Nat := 28

def attributeStart : Nat := 2

def typePtr (object : Operand) : Emit Operand := slotPtr object 1

def typeOf (object : Operand) : Emit Operand := do
  load (← typePtr object)

def typeStructOf (object : Operand) : Emit Operand := do
  let type ← typeOf object
  ptrCast type (← build Program.typeType).pointerTo

/-- An attribute by name, through the getter that the type of the object has. -/
def getAttribute (object : Operand) (name : Label) (type : Option Operand := none) :
    Emit Operand := do
  requireFunction
  let slot ← entryVar (← objectPtr)
  let byObject ← createBlock (some "Get Attro")
  let byText ← createBlock (some "Get Attr")
  let rest ← createBlock (some "After Get")
  let type ← match type with
    | some t => pure t
    | none => typeStructOf object
  let getter ← load (← slotPtr type getAttrObjectSlot)
  let zero ← null .int8Ptr
  let isNull ← eq zero getter
  condBranch isNull byText byObject
  setBlock byObject
  let ptr ← objectPtr
  let getter ← ptrCast getter (MachineType.function ptr [ptr, ptr]).pointerTo
  let text ← loadText name
  let found ← callPtr getter [object, text]
  discard (store found slot)
  branch rest
  setBlock byText
  let getter ← load (← slotPtr type getAttrSlot)
  let getter ← ptrCast getter (MachineType.function ptr [ptr, .int8Ptr]).pointerTo
  let text ← ptrCast (← globalText name) .int8Ptr
  let found ← callPtr getter [object, text]
  discard (store found slot)
  branch rest
  setBlock rest
  load slot

def setAttribute (object : Operand) (name : Label) (value : Operand)
    (type : Option Operand := none) : Emit Unit := do
  let value ← ptrCast value (← objectPtr)
  let byObject ← createBlock
  let byText ← createBlock
  let rest ← createBlock
  let type ← match type with
    | some t => pure t
    | none => typeStructOf object
  let setter ← load (← slotPtr type setAttrObjectSlot)
  let zero ← null .int8Ptr
  let isNull ← eq zero setter
  condBranch isNull byText byObject
  setBlock byObject
  let ptr ← objectPtr
  let setter ← ptrCast setter (MachineType.function .int32 [ptr, ptr, ptr]).pointerTo
  let text ← loadText name
  discard (callPtr setter [object, text, value])
  branch rest
  setBlock byText
  let setter ← load (← slotPtr type getAttrSlot)
  let setter ← ptrCast setter (MachineType.function .int32 [ptr, .int8Ptr, ptr]).pointerTo
  let text ← ptrCast (← globalText name) .int8Ptr
  discard (callPtr setter [object, text, value])
  branch rest
  setBlock rest

def deleteAttribute (object : Operand) (name : Label) : Emit Unit := do
  let ptr ← objectPtr
  let f ← external "PyObject_DelAttr" .int32 [ptr, ptr]
  let text ← loadText name
  let object ← ptrCast object ptr
  discard (call f [object, text])

attribute [reducible] slotPtr typePtr typeOf typeStructOf

end Lowering.Emit
