import Lowering.Emit.Collection

/-!
Calls of callable objects, by argument vector where the callable allows it and by tuple otherwise.
-/
namespace Lowering.Emit

/-- Things given together: a list, or something else in the place of one. -/
inductive Batch (α : Type)
  | list (items : List α)
  /-- Things that can be counted and looked at, but not replaced. -/
  | fixed (items : List α)
  /-- Things that can only be gone through. -/
  | stream (items : List α)
  /-- Something that holds nothing to go through. -/
  | single

namespace Batch

variable {α : Type}

instance : Coe (List α) (Batch α) := ⟨list⟩

def empty : Batch α := list []

def counted : Batch α → Except Fault (List α)
  | list items | fixed items => .ok items
  | stream _ | single => .error .misuse

def each : Batch α → Except Fault (List α)
  | list items | fixed items | stream items => .ok items
  | single => .error .misuse

def item (b : Batch α) (i : Nat) : Except Fault α := do
  match (← b.counted)[i]? with
  | some a => .ok a
  | none => .error .outOfRange

def replaceable : Batch α → Except Fault (List α)
  | list items => .ok items
  | fixed _ | stream _ | single => .error .misuse

def extended (b : Batch α) (a : α) : Except Fault (Batch α) :=
  match b with
  | list items => .ok (list (items ++ [a]))
  | fixed _ | stream _ | single => .error .noMember

end Batch

/-- Keyword arguments: names with values, or something that gives no values. -/
inductive Keywords
  | pairs (entries : List (Operand × Operand))
  | names (count : Nat)
  | unsized (present : Bool)

namespace Keywords

def none : Keywords := pairs []

def length : Keywords → Except Fault Nat
  | pairs entries => .ok entries.length
  | names count => .ok count
  | unsized _ => .error .misuse

def isEmpty : Keywords → Bool
  | pairs entries => entries.isEmpty
  | names count => count == 0
  | unsized present => !present

def entries : Keywords → Except Fault (List (Operand × Operand))
  | pairs entries => .ok entries
  | _ => .error .noMember

end Keywords

def memberOf (base : Operand) (type : MachineType) (n : Nat) : Emit Operand := do
  let zero ← int32 0
  let index ← int32 n
  element base type [zero, index]

def knownOrNoMember (field : Known → Option Nat) : Emit Nat := do
  match field (← get).program.known with
  | some i => return i
  | none => throw .noMember

def functionStruct : Emit MachineType := do
  let i ← knownOrNoMember (·.functionStruct)
  return ((← get).program.structs[i]?.getD default).type

def isFunction (object : Operand) : Emit Operand := do
  let type ← typeOf object
  let functionType ← globalVar (← knownOrNoMember (·.functionType))
  eq type functionType

def isMethod (object : Operand) : Emit Operand := do
  let type ← typeOf object
  let methodType ← globalVar (← build (Program.known! (·.methodType)))
  eq type methodType

def vectorCallPtr (callable : Operand) : Emit Operand := do
  let type ← typeOf callable
  let offset ← load (← slotPtr type vectorOffsetSlot)
  let bytes ← ptrCast callable .int8Ptr
  let entry ← element bytes .int8 [offset]
  let entry ← ptrCast entry (← build Program.vectorFunction).pointerTo.pointerTo
  load entry

def typeMember (type : Operand) (n : Nat) : Emit Operand := do
  let layout ← build Program.typeType
  let type ← ptrCast type layout.pointerTo
  memberOf type layout n

def tupleCallPtr (type : Operand) : Emit Operand := typeMember type 16

def flagsPtr (type : Operand) : Emit Operand := typeMember type 21

def functionVectorPtr (function : Operand) : Emit Operand := do
  let layout ← build (Program.structType (·.callableStruct))
  let function ← ptrCast function layout.pointerTo
  memberOf function layout 14

def functionMember (function : Operand) (n : Nat) : Emit Operand := do
  let layout ← functionStruct
  let function ← ptrCast function layout.pointerTo
  load (← memberOf function layout n)

def functionGlobals (function : Operand) : Emit Operand := functionMember function 2

def functionBuiltins (function : Operand) : Emit Operand := functionMember function 3

/-- A call by vector: the arguments lie in the frame of the caller, after one free place. -/
def callByVector (self callable : Operand) (args : Batch Operand) (keywords : Keywords)
    (entry : Operand) : Emit Operand := do
  requireFunction
  let ptr ← objectPtr
  let args ← lift args.counted
  let size := args.length + (← lift keywords.length) + 1
  let memory ← entryVar (.arrayOf ptr (.id size))
  let first ← slotPtr memory 0
  discard (store self first)
  let memory ← slotPtr memory 1
  for (arg, i) in args.zipIdx do
    let index ← int32 i
    let place ← element memory ptr [index]
    discard (store arg place)
  let entries ← lift keywords.entries
  for (e, i) in entries.zipIdx do
    let index ← int32 (i + args.length)
    let place ← element memory ptr [index]
    discard (store e.2 place)
  let memory ← ptrCast memory ptr.pointerTo
  let flag ← int64 (-9223372036854775808)
  let count ← int64 args.length
  let count ← binary .or count flag
  let names ←
    if entries.isEmpty then null ptr
    else do
      let names ← newStackTuple (.id entries.length)
      for (e, i) in entries.zipIdx do
        let index ← int64 i
        tupleFill names index e.1
      pure names
  callPtr entry [callable, memory, count, names]

def callByTuple (callable : Operand) (args : Batch Operand) (keywords : Keywords) :
    Emit Operand := do
  let args ← lift args.counted
  let tuple ← newStackTuple (.id args.length)
  let dict ← null (← objectPtr)
  for (arg, i) in args.zipIdx do
    let index ← int64 i
    tupleFill tuple index arg
  let dict ←
    if keywords.isEmpty then pure dict
    else do
      let dict ← newDict
      for (k, v) in ← lift keywords.entries do
        discard (dictSet dict k v)
      pure dict
  let type ← typeOf callable
  let entry ← load (← tupleCallPtr type)
  let ptr ← objectPtr
  let entry ← ptrCast entry (MachineType.function ptr [ptr, ptr, ptr]).pointerTo
  callPtr entry [callable, tuple, dict]

/-- A call of any callable; which convention is used is decided when the program runs. -/
def callCallable (self callable : Operand) (args : Batch Operand) (keywords : Keywords) :
    Emit Operand := do
  requireFunction
  let slot ← entryVar (← objectPtr)
  let type ← typeOf callable
  let flags ← load (← flagsPtr type)
  let mask ← int32 2048
  let flags ← binary .and flags mask
  let zero ← int32 0
  let allowed ← ne flags zero
  let entry ← vectorCallPtr type
  let bytes ← ptrCast entry .int8Ptr
  let zero ← null .int8Ptr
  let present ← ne bytes zero
  let byVector ← binary .and allowed present
  let vectorBlock ← createBlock (some "Vector call")
  let tupleBlock ← createBlock (some "Tp call")
  condBranch byVector vectorBlock tupleBlock
  setBlock vectorBlock
  let result ← callByVector self callable args keywords entry
  discard (store result slot)
  let rest ← createBlock (some "After Call")
  branch rest
  setBlock tupleBlock
  let result ← callByTuple callable args keywords
  discard (store result slot)
  branch rest
  setBlock rest
  let result ← load slot
  release (some .python) callable
  return result

def callAttribute (object : Operand) (name : Label) (args : Batch Operand) (keywords : Keywords) :
    Emit Operand := do
  let callable ← getAttribute object name
  callCallable object callable args keywords

attribute [reducible] vectorCallPtr typeMember tupleCallPtr flagsPtr functionMember functionGlobals functionBuiltins
  callAttribute functionStruct

end Lowering.Emit
