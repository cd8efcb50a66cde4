import Lowering.Emit.Unpack
import Lowering.Lower.Frame
import Lowering.Stack.Operands

/-!
What the lowering of a stack machine's instructions keeps: the operands, the blocks that jumps lead
to, and the names and constants that arguments refer to.
-/
namespace Lowering.Stack

open Emit

def modifyFrame (f : StackFrame → StackFrame) : Emit Unit :=
  modify fun s => { s with stack := f s.stack }

def frame : Emit StackFrame := return (← get).stack

def operands : Emit (List Term) := return (← frame).stack

def setOperands (s : List Term) : Emit Unit := modifyFrame fun f => { f with stack := s }

def requireStack : Emit Unit := do
  if (← get).lowerer ≠ .stack then throw .noMember

/-- Puts a value on the stack; a value without a type is an object. -/
def push (t : Term) : Emit Unit := do
  requireStack
  if t.value.toInt?.isNone then throw (.stackValue t.value.text)
  modifyFrame fun f => { f with stack := ⟨some (t.type.getD .python), t.value⟩ :: f.stack }

def pushObject (v : Operand) : Emit Unit := push ⟨none, v⟩

def pop : Emit Term := do
  match ← operands with
  | [] => throw .outOfRange
  | t :: rest =>
    setOperands rest
    return t

/-- The topmost `n` operands, top first. Of a stack too shallow nothing is left. -/
def popMany (n : Nat) : Emit (List Term) := do
  let s ← operands
  setOperands (s.drop n)
  if s.length < n then throw .outOfRange
  return s.take n

def operandAt (place : Int) : Emit Term := do
  match Operands.get? (← operands) place with
  | some t => return t
  | none => throw .outOfRange

def top : Emit Term := operandAt (-1)

def setTop (t : Term) : Emit Unit := do
  match ← operands with
  | [] => throw .outOfRange
  | _ :: rest => setOperands (t :: rest)

def argument (op : Opcode) : Emit Int :=
  match op.arg with
  | some n => return n
  | none => throw .misuse

def argOperand (op : Opcode) : Operand :=
  match op.arg with
  | some n => .id n
  | none => .absent

/-- The operand as many places below the top as the argument says; the top is at place 1. -/
def operandBelow (op : Opcode) : Emit Term := do
  operandAt (-(← argument op))

/-- The item of a table that an argument selects; a negative one counts from the end. -/
def selected {α : Type} (table : List α) (op : Opcode) : Emit α := do
  let n ← argument op
  match Operands.get? table.reverse n with
  | some a => return a
  | none => throw .outOfRange

def nameOf (op : Opcode) : Emit String := do
  selected (← frame).names op

def localNameOf (op : Opcode) : Emit String := do
  selected (← frame).localNames op

def blockAt? (op : Opcode) : Emit (Option BlockRef) := return (← frame).blockAt.lookup op

def setBlockAt (op : Opcode) (b : BlockRef) : Emit Unit :=
  modifyFrame fun f => { f with blockAt := (op, b) :: f.blockAt }

/-- The block that begins at an offset; `shown` is what a complaint names. -/
def blockReached (offset shown : Int) : Emit BlockRef := do
  match (← frame).instrs.find? (·.offset == offset) with
  | none => throw (.offsetUnreached (toString shown))
  | some op =>
    match ← blockAt? op with
    | some b => return b
    | none => throw .noKey

def jumpTo (n : Int) : Emit BlockRef := blockReached (2 * n) n

/-- The target of a jump by that many instructions after the next one. -/
def jumpBy (offset n : Int) : Emit BlockRef :=
  blockReached (offset + n * 2 + 2) (offset + n * 2 + 2)

/-- Keeps the operands for the blocks that are entered with them. -/
def keepOperands (blocks : List BlockRef) : Emit Unit :=
  modifyFrame fun f => { f with stackAt := blocks.map (·, f.stack) ++ f.stackAt }

def elseBlock : Emit BlockRef := do
  let f ← frame
  match f.current.bind fun i => f.instrs[i + 1]? with
  | some next =>
    match ← blockAt? next with
    | some b => return b
    | none =>
      let b ← createBlock
      setBlockAt next b
      return b
  | none =>
    discard createBlock
    throw .unassigned

attribute [reducible] pushObject top operandBelow jumpTo jumpBy setTop keepOperands nameOf localNameOf

end Lowering.Stack
