import Lowering.Stack.Unpack

/-!
Calls, jumps and loops.
-/
namespace Lowering.Stack

open Emit

/-- The keyword names that a constant gives: its items are counted, but it holds no values. -/
def keywordsOf : Option Constant → Keywords
  | none => .none
  | some (.text s) => .names s.length
  | some (.bytes bs) => .names bs.length
  | some (.tuple items) | some (.frozenset items) => .names items.length
  | some _ => .unsized true

def keywords : Emit Keywords := return keywordsOf (← frame).keywords

def keywordNames (op : Opcode) : Emit Unit := do
  let c ← selected (← frame).constants op
  modifyFrame fun f => { f with keywords := some c }

def popArgs (op : Opcode) : Emit (List Operand) := do
  let popped ← popMany (← argument op).toNat
  return (popped.map (·.value)).reverse

/-- A call of a method or of a function: a null below the callable tells which. -/
def callEither (op : Opcode) (keywords : Keywords) (retains : Bool) : Emit Unit := do
  let slot ← entryVar (← objectPtr)
  let args ← popArgs op
  let first ← pop
  let second ← pop
  let method ← createBlock
  let function ← createBlock
  let rest ← createBlock
  let nothing ← null (← objectPtr)
  let isMethod ← ne second.value nothing
  condBranch isMethod method function
  setBlock method
  if retains then
    retain first.type first.value
    retain second.type second.value
  let result ← callCallable first.value second.value (first.value :: args) keywords
  discard (store result slot)
  branch rest
  setBlock function
  if retains then retain first.type first.value
  let result ← callCallable first.value first.value args keywords
  discard (store result slot)
  branch rest
  setBlock rest
  pushObject (← load slot)

def clearKeywords : Emit Unit := modifyFrame fun f => { f with keywords := none }

def callOp (op : Opcode) : Emit Unit := do
  callEither op (← keywords) true
  clearKeywords

def callMethodOp (op : Opcode) : Emit Unit := callEither op .none false

def callFunction (op : Opcode) : Emit Unit := do
  let args ← popArgs op
  let callable ← pop
  pushObject (← callCallable callable.value callable.value args (← keywords))
  clearKeywords

/-- Looks a method up: either it and the object go on the stack, or null and the attribute. -/
def loadMethod (op : Opcode) : Emit Unit := do
  let ptr ← objectPtr
  let found ← entryVar ptr
  let text ← loadText (← nameOf op)
  let t ← pop
  let f ← external "_PyObject_GetMethod" .int32 [ptr, ptr, ptr.pointerTo]
  let answer ← call f [t.value, text, found]
  let firstSlot ← entryVar ptr
  let secondSlot ← entryVar ptr
  let method ← createBlock
  let function ← createBlock
  let rest ← createBlock
  let zero ← int32 0
  let isMethod ← ne answer zero
  condBranch isMethod method function
  setBlock method
  let member ← load found
  discard (store member firstSlot)
  discard (store t.value secondSlot)
  branch rest
  setBlock function
  let nothing ← null ptr
  discard (store nothing firstSlot)
  let member ← load found
  discard (store member secondSlot)
  branch rest
  setBlock rest
  pushObject (← load firstSlot)
  push ⟨t.type, ← load secondSlot⟩

inductive Reach
  | forward | backward | absolute
  deriving DecidableEq, Repr

def Reach.block (r : Reach) (op : Opcode) : Emit BlockRef := do
  let n ← argument op
  match r with
  | .forward => jumpBy op.offset n
  | .backward => jumpBy op.offset (-n)
  | .absolute => jumpTo n

inductive JumpTest
  | isTrue | isFalse | isNone | notNone
  deriving DecidableEq, Repr

namespace JumpTest

def value (test : JumpTest) (t : Term) : Emit Operand := do
  match test with
  | isTrue | isFalse => return (← condition (some .python) t.value).value
  | isNone => do
    let nothing ← globalVar (← build (Program.known! (·.noneVar)))
    eq nothing t.value
  | notNone => do
    let nothing ← globalVar (← build (Program.known! (·.noneVar)))
    ne nothing t.value

def branch (test : JumpTest) (condition : Operand) (target other : BlockRef) : Emit Unit :=
  match test with
  | isFalse => condBranch condition other target
  | _ => condBranch condition target other

end JumpTest

def jump (r : Reach) (op : Opcode) : Emit Unit := do
  branch (← r.block op)

/-- A jump that depends on the top operand. The operands left are those of both ways on. -/
def jumpIf (r : Reach) (test : JumpTest) (op : Opcode) : Emit Unit := do
  let target ← r.block op
  let other ← elseBlock
  let t ← pop
  let c ← test.value t
  keepOperands [target, other]
  test.branch c target other
  setBlock other

/-- A jump that depends on the top operand and goes on in a new block. -/
def jumpIfFresh (test : JumpTest) (op : Opcode) : Emit Unit := do
  let target ← Reach.absolute.block op
  let other ← createBlock
  let t ← pop
  let c ← test.value t
  test.branch c target other
  setBlock other

def forIter (op : Opcode) : Emit Unit := do
  let iterator ← top
  let item ← callNextSlot iterator.value
  pushObject item
  let nothing ← null (← objectPtr)
  let isNull ← eq item nothing
  let rest ← Reach.forward.block op
  let next ← createBlock (some "Next Block")
  condBranch isNull rest next
  setBlock rest
  discard clearError
  setBlock next

def returnValue : Emit Unit := do
  ret (← pop).value

attribute [reducible] callEither callOp callMethodOp callFunction loadMethod jump jumpIf jumpIfFresh forIter
  returnValue clearKeywords keywords keywordNames popArgs

end Lowering.Stack
