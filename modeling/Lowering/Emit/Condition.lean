import Lowering.Emit.Collection

/-!
Truth of values, as needed where the program branches.
-/
namespace Lowering.Emit

def isTrue (type : Option ValueType) (value : Operand) : Emit Operand := do
  let t ← known type
  if t.isInt then intCast value .int1
  else if t.isDec then
    let zero ← assign (.float64 (some ⟨0⟩))
    eq value zero
  else if t.isList then
    let size ← listLength value
    let zero ← int64 0
    lt size zero
  else
    let f ← external "PyObject_IsTrue" .int32 [← objectPtr]
    let result ← call f [value]
    let zero ← int32 0
    ne result zero

def isPositive (size : Operand) : Emit (Option Term) := do
  let zero ← int64 0
  return some ⟨some .boolean, ← binary .gt size zero⟩

/-- A value as a condition; some kinds of values have none. -/
def condition? (type : Option ValueType) (value : Operand) : Emit (Option Term) := do
  let t ← known type
  if t.isInt then return some ⟨some .boolean, ← intCast value .int1⟩
  else if t.isBool then return some ⟨some t, value⟩
  else if t.isDec then return some ⟨some .boolean, ← intCast value .int1⟩
  else if t.isList then isPositive (← listLength value)
  else if t.isTuple then
    let layout ← build (Program.structType (·.tupleStruct))
    let tuple ← ptrCast value layout.pointerTo
    isPositive (← load (← tupleSizePtr tuple))
  else if t.isSet then isPositive (← setLength value)
  else if t.isDict then isPositive (← dictLength value)
  else if t.isObj || t.isPython then return some ⟨some .boolean, ← isTrue type value⟩
  else return none

def condition (type : Option ValueType) (value : Operand) : Emit Term := do
  match ← condition? type value with
  | some c => return c
  | none => throw .misuse

attribute [reducible] isPositive condition? isTrue condition

end Lowering.Emit
