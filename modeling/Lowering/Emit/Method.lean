import Lowering.Emit.Function

/-!
Calls of methods by name. Some names belong to a protocol, whose slot in the type of the object is
tried first; a few are lowered directly for objects of a known class.
-/
namespace Lowering.Emit

def numberSlots : List (String × Nat) :=
  [("__add__", 0), ("__sub__", 1), ("__mul__", 2), ("__mod__", 3), ("__divmod__", 4), ("__pow__", 5),
    ("__div__", 6), ("__pos__", 7), ("__abs__", 8), ("__bool__", 9), ("__lshift__", 11),
    ("__rshift__", 12), ("__and__", 13), ("__xor__", 14), ("__or__", 15)]

def numberSlot? (name : String) : Option Nat := numberSlots.lookup name

def isNumberBinary (name : String) : Bool :=
  ["__add__", "__sub__", "__mul__", "__div__", "__mod__", "__bool__", "__inv__", "__lshift__",
    "__rshift__", "__and__", "__xor__", "__or__"].contains name

def isNumberInquiry (name : String) : Bool := name == "__bool__"

def isNumberTernary (name : String) : Bool := ["__pow__", "__in_pow__"].contains name

def isNumberUnary (name : String) : Bool :=
  ["__neg__", "__pos__", "__abs__", "__int__", "__float__"].contains name

def isNumberProtocol (name : String) : Bool :=
  isNumberBinary name || isNumberInquiry name || isNumberTernary name

def isBinaryCall (name : String) (args : Nat) : Bool := isNumberBinary name && args == 1

def isTernaryCall (name : String) (args : Nat) : Bool := isNumberTernary name && args == 2

def isInquiryCall (name : String) (args : Nat) : Bool := isNumberInquiry name && args == 0

/-- Whether a call with that many arguments fits the number protocol. -/
def fitsNumberProtocol (name : String) (args : Nat) : Bool :=
  isTernaryCall name args || isInquiryCall name args || (isNumberUnary name && args == 0) ||
    isBinaryCall name args

def isIteration (name : String) : Bool := name == "__next__" || name == "__iter__"

def compareCode? (name : String) : Option Nat :=
  [("__gt__", 4), ("__lt__", 0), ("__eq__", 2), ("__ne__", 3), ("__le__", 1), ("__ge__", 5)].lookup name

inductive Shortcut
  | none | listAppend | listGet | tupleGet
  deriving DecidableEq, Repr

namespace Shortcut

def applies (s : Shortcut) (object : Option ValueType) (args : Batch (Option ValueType)) :
    Emit Bool := do
  match s with
  | none => return false
  | listAppend =>
    if (← known object).isList then return (← lift args.counted).length == 1 else return false
  | listGet => indexed (← known object).isList
  | tupleGet => indexed (← known object).isTuple
where
  indexed (fits : Bool) : Emit Bool := do
    if fits then
      match ← lift args.counted with
      | [t] => return (← known t).isInt
      | _ => return false
    else return false

def lower (s : Shortcut) (type : Option ValueType) (object : Operand)
    (argTypes : Batch (Option ValueType)) (args : Batch Operand) : Emit Term := do
  match s with
  | none => return ⟨Option.none, .absent⟩
  | Shortcut.listAppend =>
    let t ← lift (argTypes.item 0)
    let a ← lift (args.item 0)
    Emit.listAppend object t a
    return ⟨some .none, ← int32 0⟩
  | listGet =>
    let item ← listItem type object (← lift (args.item 0))
    return ⟨(← known type).content, item⟩
  | tupleGet =>
    let item ← tupleItem object (← lift (args.item 0))
    return ⟨(← known type).content, item⟩

end Shortcut

def findShortcut (object : Option ValueType) (args : Batch (Option ValueType)) (name : Label) :
    Emit (Option Shortcut) := do
  let name ← lift name.key
  let candidate : Option Shortcut :=
    if name = "append" then some .listAppend else if name = "__getitem__" then some .listGet else none
  match candidate with
  | some s => return if ← s.applies object args then some s else none
  | none => return none

def retainedObject : ValueType := ValueType.python.addHint .refIncr

/-- Boxes arguments in order; types without arguments, or the reverse, are left over. -/
def boxArgs : List Operand → List (Option ValueType) → Emit (List Term)
  | a :: args, t :: types => do
    let b ← box a t
    return b :: (← boxArgs args types)
  | _, _ => return []

/-- Boxes arguments in place; those without a type stay as they are. -/
def boxInPlace (args : Batch Operand) (types : Batch (Option ValueType)) :
    Emit (Batch Operand) := do
  match ← lift args.each, ← lift types.each with
  | a :: as, t :: ts =>
    let first ← box a t
    discard (lift types.replaceable)
    discard (lift args.replaceable)
    let boxed := first :: (← boxArgs as ts)
    return .list (boxed.map (·.value) ++ (a :: as).drop boxed.length)
  | _, _ => return args

def callDefault (name : Label) (object : Operand) (args : Batch Operand)
    (types : Batch (Option ValueType)) (keywords : Keywords) : Emit Term := do
  let values ← boxInPlace args types
  let result ← callAttribute object name values keywords
  if (← lift types.each).length < (← lift args.each).length then throw .outOfRange
  return ⟨some retainedObject, result⟩

def requireCallable (t : ValueType) (name : Label) : Emit Unit := do
  if t.isObj then throw .specializedCall
  unless t.isPython || t.isCollection || t.isPrimitive do
    requireTree
    let title ← lift t.title
    throw (.typeNotCallable title (← lift name.required))

def boxObject (t : ValueType) (object : Operand) : Emit Term := do
  if t.isPrimitive then box object (some t) else return ⟨some t, object⟩

def callDirect (name : Label) (object : Operand) (type : Option ValueType) (args : Batch Operand)
    (types : Batch (Option ValueType)) (keywords : Keywords) : Emit Term := do
  let t ← known type
  requireCallable t name
  let o ← boxObject t object
  discard (lift args.counted)
  match ← findShortcut o.type types name with
  | some s => s.lower o.type o.value types args
  | none => callDefault name o.value args types keywords

/-- A call through a slot of the iterator protocol, or by name if the type has no such slot. -/
def callIteration (name : String) (slot : Nat) (object : Operand) : Emit Operand := do
  requireFunction
  let ptr ← objectPtr
  let result ← entryVar ptr
  let function := (MachineType.function ptr [ptr]).pointerTo
  let type ← typeOf object
  let entry ← slotPtr type slot
  let entry ← ptrCast entry function.pointerTo
  let entry ← load entry
  let zero ← null function
  let isNull ← eq entry zero
  let bySlot ← createBlock
  let byName ← createBlock
  let rest ← createBlock
  condBranch isNull byName bySlot
  setBlock bySlot
  let value ← callPtr entry [object]
  discard (store value result)
  branch rest
  setBlock byName
  let value ← callDirect name object (some .python) .empty .empty .none
  discard (store value.value result)
  branch rest
  setBlock rest
  load result

def callIterator (name : Label) (object : Operand) : Emit Operand := do
  if name.plain = "__next__" then callIteration name.plain iterNextSlot object
  else if name.plain = "__iter__" then callIteration name.plain iterSlot object
  else throw (.iteratorName (← lift name.required))

def callNextSlot (object : Operand) : Emit Operand := do
  let ptr ← objectPtr
  let function := (MachineType.function ptr [ptr]).pointerTo
  let type ← typeOf object
  let entry ← slotPtr type iterNextSlot
  let entry ← ptrCast entry function.pointerTo
  let entry ← load entry
  callPtr entry [object]

def boxEach (args : List Operand) (types : Batch (Option ValueType)) : Emit (List Term) :=
  args.zipIdx.mapM fun (a, i) => do box a (← lift (types.item i))

/-- A comparison through the slot of the type, or by name if the type has none. -/
def callCompare (name : Label) (type : Option ValueType) (object instanceType : Operand)
    (types : Batch (Option ValueType)) (args : Batch Operand) : Emit Operand := do
  requireFunction
  let ptr ← objectPtr
  let result ← entryVar ptr
  let boxed ← boxEach (← lift args.each) types
  let code ← expect (compareCode? (← lift name.key)) .compareSlot
  let code ← int32 code
  let entry ← slotPtr instanceType compareSlot
  let entry ← load entry
  let zero ← null .int8Ptr
  let isNull ← eq entry zero
  let byName ← createBlock
  let bySlot ← createBlock
  condBranch isNull byName bySlot
  setBlock bySlot
  let entry ← ptrCast entry (MachineType.function ptr [ptr, ptr, .int32]).pointerTo
  let rest ← createBlock
  let value ← callPtr entry (object :: boxed.map (·.value) ++ [code])
  discard (store value result)
  branch rest
  setBlock byName
  let value ← callDirect name object type (boxed.map (·.value)) (boxed.map (·.type)) .none
  discard (store value.value result)
  branch rest
  setBlock rest
  load result

def operandsText (args : List Operand) : String :=
  "[" ++ ", ".intercalate (args.map Operand.text) ++ "]"

def requireProtocol (label : Label) (name : String) : Emit Unit := do
  unless isNumberProtocol name do throw (.protocolName (← lift label.required))

/-- The type of the function in the slot for a method, and of its result. -/
def numberSignature (name : String) (args : List Operand) : Emit (MachineType × MachineType) := do
  if isInquiryCall name args.length then
    let ptr ← objectPtr
    return (.function .int32 [ptr], .int32)
  else if isBinaryCall name args.length then
    let ptr ← objectPtr
    return (.function ptr [ptr, ptr], ptr)
  else if isTernaryCall name args.length then
    let ptr ← objectPtr
    return (.function ptr [ptr, ptr, ptr], ptr)
  else throw (.argumentCount (operandsText args) name)

/-- A call of the number protocol: through the slot if the type has it, else by name. -/
def callNumber (label : Label) (type : Option ValueType) (object instanceType : Operand)
    (types : Batch (Option ValueType)) (args : Batch Operand) : Emit Operand := do
  let name ← lift label.key
  requireProtocol label name
  let args ← lift args.counted
  let n := args.length
  let (function, resultType) ← numberSignature name args
  let result ← entryVar resultType
  let bySlot ← createBlock
  let slotPresent ← createBlock
  let byName ← createBlock
  let rest ← createBlock
  let function := function.pointerTo
  let types ← lift types.each
  let boxed ← boxArgs args types
  if args.length ≠ types.length then throw .absentItem
  let slot ← expect (numberSlot? name) .noKey
  let slot ← int64 slot
  let table ← load (← slotPtr instanceType numberSlot)
  let table ← ptrCast table MachineType.int8Ptr.pointerTo
  let zero ← null MachineType.int8Ptr.pointerTo
  let isNull ← eq table zero
  condBranch isNull byName bySlot
  setBlock bySlot
  let entry ← element table .int8Ptr [slot]
  let entry ← load entry
  let entry ← ptrCast entry function
  let zero ← null function
  let isNull ← eq entry zero
  condBranch isNull byName slotPresent
  setBlock slotPresent
  let value ← callPtr entry (object :: boxed.map (·.value))
  discard (store value result)
  branch rest
  setBlock byName
  if isInquiryCall name n then
    let zero ← int32 0
    discard (store zero result)
  else
    let value ← callDirect name object type (boxed.map (·.value)) (boxed.map (·.type)) .none
    discard (store value.value result)
  branch rest
  setBlock rest
  let value ← load result
  if isNumberInquiry name then intCast value .int1 else return value

/-- The table of number functions of an object's type, and whether it is missing. -/
def numberTable (object instanceType : Operand) : Emit (Operand × Operand) := do
  let instanceType ← if instanceType = .absent then typeOf object else pure instanceType
  let table ← load (← slotPtr instanceType numberSlot)
  let zero ← null (← objectPtr)
  return (← eq table zero, table)

/-- Completes the arguments of a power by a missing modulus; says whether they are complete. -/
def completePower (name : Label) (args : Batch Operand) (types : Batch (Option ValueType)) :
    Emit (Option (Batch Operand × Batch (Option ValueType))) := do
  if name.plain ≠ "__pow__" then return none
  let n := (← lift args.counted).length
  if n = 1 then
    let none_ ← globalVar (← build (Program.known! (·.noneVar)))
    discard (lift (args.extended .absent))
    let args ← lift (args.extended (← load none_))
    return some (args, ← lift (types.extended (some .none)))
  else if n = 2 then return some (args, types)
  else return none

def callMethod (label : Label) (object : Operand) (type : Option ValueType) (args : Batch Operand)
    (types : Batch (Option ValueType)) (keywords : Keywords := .none) : Emit Term := do
  let t ← known type
  requireCallable t label
  let o ← boxObject t object
  let n := (← lift args.counted).length
  let number (args : Batch Operand) (types : Batch (Option ValueType)) : Emit Operand := do
    let instanceType ← typeOf o.value
    callNumber label o.type o.value instanceType types args
  match ← findShortcut o.type types label with
  | some s => s.lower o.type o.value types args
  | none =>
    let name := label.plain
    if isBinaryCall name n then
      return ⟨some .python, ← number args types⟩
    else if isTernaryCall name n then
      return ⟨some .python, ← number args types⟩
    else
      match ← completePower label args types with
      | some (args, types) => return ⟨some .python, ← number args types⟩
      | none =>
        if isInquiryCall name n then
          return ⟨some .boolean, ← number args types⟩
        else if isIteration name && n == 0 then
          return ⟨some .python, ← callIterator label o.value⟩
        else if (compareCode? name).isSome && n == 1 then
          let instanceType ← typeOf o.value
          return ⟨some .python, ← callCompare label o.type o.value instanceType types args⟩
        else callDefault label o.value args types keywords

attribute [reducible] callDirect callIterator callNextSlot requireCallable boxObject requireProtocol

end Lowering.Emit
