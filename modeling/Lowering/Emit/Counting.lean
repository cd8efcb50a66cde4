import Lowering.Emit

/-!
Reference counts of objects. Values that are not objects have none, and asking for theirs emits
nothing.
-/
namespace Lowering.Emit

def countPtr (type : Option ValueType) (value : Operand) : Emit (Option Operand) := do
  match type with
  | some t =>
    if t.isCounted then
      let zero ← int32 0
      let index ← int32 0
      return some (← member value zero index)
    else return none
  | none => return none

def count (value : Operand) : Emit (Option Operand) := do
  match ← countPtr (some .python) value with
  | some ptr => return some (← load ptr)
  | none => return none

def setCount (object value : Operand) : Emit (Option Operand) := do
  match ← countPtr (some .python) object with
  | some ptr => return some (← store value ptr)
  | none => return none

def retain (type : Option ValueType) (value : Operand) : Emit Unit := do
  match ← countPtr type value with
  | some ptr =>
    let old ← load ptr
    let one ← int64 1
    let new ← add old one
    discard (store new ptr)
  | none => return ()

/-- One reference less to a value. Counts are never lowered, so nothing is emitted. -/
def release (_type : Option ValueType) (_value : Operand) : Emit Unit := return ()

def releaseRetained (type : Option ValueType) (value : Operand) : Emit Unit := do
  let t ← known type
  if t.isIncremented then release type value

def releaseCounted (t : ValueType) (value : Operand) : Emit Unit := do
  let present ← createBlock (some "Value Not Null")
  let rest ← createBlock (some "After Ref Decrement")
  let zero ← null (← machineType t)
  let isNull ← eq value zero
  condBranch isNull rest present
  setBlock present
  release (some t) value
  branch rest
  setBlock rest

def releaseNullable (type : Option ValueType) (value : Operand) : Emit Unit := do
  match type with
  | some t => if t.isCounted then releaseCounted t value
  | none => return ()

def currentImpl : Emit Nat := do
  let s ← get
  match s.lowerer with
  | .tree => return s.tree.impl
  | .stack => return s.stack.impl
  | .bare => throw .noMember

def implOf (i : Nat) : Emit Impl := return (← get).impls[i]?.getD default

def scopeVars (scope : Nat) : Emit (List Nat) := return ((← get).scopes[scope]?.getD #[]).toList

def varAt (i : Nat) : Emit Variable := return (← get).vars[i]?.getD default

def modifyVariable (i : Nat) (f : Variable → Variable) : Emit Unit :=
  modify fun s => { s with vars := s.vars.modify i f }

def releaseVariable (v : Variable) : Emit Unit := do
  if v.slot != .empty && !v.isArg then
    let address ←
      if v.isGlobal then
        match v.slot with
        | .global i => globalVar i
        | .value (.other ..) => throw .noMember
        | _ => throw .globalSlotMissing
      else
        match v.slot with
        | .value (.other ..) | .global _ | .empty => throw .variableSlotMissing
        | .value address => pure address
    let value ← load address
    releaseNullable (some v.type) value

/-- Releases the variables of the function, as is done where it ends. -/
def releaseVariables : Emit Unit := do
  let impl ← implOf (← currentImpl)
  for i in ← scopeVars impl.scope do
    releaseVariable (← varAt i)

attribute [reducible] setCount retain release releaseRetained scopeVars varAt releaseVariables

end Lowering.Emit
