import Lowering.Stack.Unpack

/-!
Constants, variables, attributes and cells.
-/
namespace Lowering.Stack

open Emit
open Lower (slotFor)

/-- The object of a constant, made where the function starts; code has none. -/
def constantValue (c : Constant) : Emit Operand := do
  match c with
  | .none => globalVar (← build (Program.known! (·.noneVar)))
  | .text s => loadText s
  | .bool b =>
    globalVar (← build (Program.known! fun k => if b then k.trueVar else k.falseVar))
  | .int n => return (← box (← int64 n) (some .integer)).value
  | .tuple _ | .frozenset _ => load (← globalVar (← build (Program.constantVar c)))
  | .code => return .absent
  | _ => throw (.constantUnwritable c.className c.content)

def loadConst (op : Opcode) : Emit Unit := do
  let value ← selected (← frame).constantValues op
  retain (some .python) value
  pushObject value

def loadName (op : Opcode) : Emit Unit := do
  pushObject (← load (← slotFor (← nameOf op)))

def storeName (op : Opcode) : Emit Unit := do
  let slot ← slotFor (← nameOf op)
  let t ← pop
  discard (store t.value slot)

def deleteName (op : Opcode) : Emit Unit := do
  let text ← loadText (← nameOf op)
  let globals ← functionGlobals 0
  let ptr ← objectPtr
  let f ← external "PyObject_DelItem" .int32 [ptr, ptr]
  discard (call f [globals, text])

def loadAttr (op : Opcode) : Emit Unit := do
  let name ← nameOf op
  let t ← pop
  pushObject (← getAttribute t.value name)

def storeAttr (op : Opcode) : Emit Unit := do
  let name ← nameOf op
  let owner ← pop
  let t ← pop
  setAttribute owner.value name t.value

def deleteAttr (op : Opcode) : Emit Unit := do
  let name ← nameOf op
  let owner ← pop
  let nothing ← null (← objectPtr)
  setAttribute owner.value name nothing

/-- A name outside the function. The lowest bit of the argument asks for a null before it. -/
def loadGlobal (op : Opcode) : Emit Unit := do
  let n ← argument op
  if n % 2 = 1 then pushObject (← null (← objectPtr))
  let name ← nameOf { op with arg := some (n / 2) }
  let text ← loadText name
  let dict ← if isBuiltin name then functionBuiltins 0 else functionGlobals 0
  pushObject (← dictGet dict text)

def storeGlobal (op : Opcode) : Emit Unit := do
  let text ← loadText (← nameOf op)
  let t ← pop
  let boxed ← box t.value t.type
  let globals ← functionGlobals 0
  discard (dictSet globals text boxed.value)

def deleteGlobal (op : Opcode) : Emit Unit := do
  let text ← loadText (← nameOf op)
  let globals ← functionGlobals 0
  discard (dictDelete globals text)

/-- A local variable; its value gets one more reference. -/
def loadLocal (op : Opcode) : Emit Unit := do
  let value ← load (← slotFor (← localNameOf op))
  retain (some .python) value
  push ⟨some .python, value⟩

def storeLocal (op : Opcode) : Emit Unit := do
  let name ← localNameOf op
  let t ← pop
  discard (store t.value (← slotFor name))

def deleteLocal (op : Opcode) : Emit Unit := do
  let slot ← slotFor (← localNameOf op)
  let nothing ← null (← objectPtr)
  discard (store nothing slot)

def makeCell (op : Opcode) : Emit Unit := do
  let slot ← slotFor (← localNameOf op)
  let content ← load slot
  let cell ← callObjects "PyCell_New" [content]
  discard (store cell slot)

def cellOf (op : Opcode) : Emit Operand := do
  load (← slotFor (← localNameOf op))

def cellSetter : Emit Nat := do
  let ptr ← objectPtr
  external "PyCell_SET" ptr [ptr, ptr]

def loadCell (op : Opcode) : Emit Unit := do
  let cell ← cellOf op
  let value ← callObjects "PyCell_GET" [cell]
  retain (some .python) value
  push ⟨some .python, value⟩

/-- A store to a cell gives the setter no value, so the call is cut short; where nothing is written
any more, what comes after it is. -/
def storeCell (op : Opcode) : Emit Unit := do
  discard pop
  let cell ← cellOf op
  discard (callObjects "PyCell_GET" [cell])
  discard (call (← cellSetter) [cell, .absent])
  throw .noMember

def deleteCell (op : Opcode) : Emit Unit := do
  let cell ← cellOf op
  discard (callObjects "PyCell_GET" [cell])
  let nothing ← null (← objectPtr)
  discard (call (← cellSetter) [cell, nothing])

attribute [reducible] loadName storeName deleteName loadAttr storeAttr deleteAttr loadGlobal storeGlobal deleteGlobal
  loadLocal storeLocal deleteLocal makeCell cellOf cellSetter loadCell storeCell deleteCell loadConst

end Lowering.Stack
