import Lowering.Program
import Lowering.Tree.Walk
import Lowering.ValueType

/-!
Emission of instructions. The state holds the program under construction and what is known of the
functions that are being lowered; what was emitted before a fault stays.
-/
namespace Lowering

inductive Slot
  | empty
  | value (v : Operand)
  | global (index : Nat)
  deriving DecidableEq, Repr

structure Variable where
  id : Int := 0
  name : String := ""
  type : ValueType := .unknown
  initialized : Bool := false
  used : Bool := true
  slot : Slot := .empty
  isArg : Bool := false
  isGlobal : Bool := false
  scope : Option Nat := none
  isModule : Bool := false
  ofModule : Bool := false
  deriving Inhabited

inductive Convention
  | none | specialized | vector | tuple
  deriving DecidableEq, Repr

structure Impl where
  id : Int := -1
  code : Option Nat := .none
  args : Array ValueType := #[]
  parent : Option Nat := .none
  status : Int := 0
  scope : Nat := 0
  convention : Convention := .none
  deriving Inhabited

structure Definition where
  node : Node
  impls : Array Nat := #[]
  id : Int := -1
  file : Option Nat := none
  deriving Inhabited

structure SourceFile where
  path : String
  tree : Option Node := none
  text : String := ""
  functions : Array Nat := #[]
  deriving Inhabited

structure Report where
  message : String
  line : Int
  row : Int
  deriving DecidableEq, Repr, Inhabited

inductive Lowerer
  | tree | stack | bare
  deriving DecidableEq, Repr

structure TreeFrame where
  impl : Nat := 0
  scope : Nat := 0
  cursor : Nat := 0
  entry : BlockRef := default
  content : BlockRef := default
  last : Term := default
  assigned : Term := default
  assignDepth : Int := 0
  /-- Blocks to go on at when a loop is left, innermost first. -/
  exits : List BlockRef := []
  /-- Blocks that handle an exception, innermost first; none lets it out of the function. -/
  handlers : List (Option BlockRef) := []
  current : Option Node := none
  /-- A token whose usage is replaced for the time being. -/
  replaced : Option (Nat × Option Usage) := none
  deriving Inhabited

structure Opcode where
  name : String
  arg : Option Int
  offset : Int
  isTarget : Bool
  line : Option Int
  deriving DecidableEq, Repr, Inhabited

/-- A letter in its small form. Beyond the plain letters, the kelvin sign alone has a plain one. -/
def smallLetter (c : Char) : Char := if c = '\u212a' then 'k' else c.toLower

def Opcode.smallName (op : Opcode) : String := op.name.map smallLetter

structure ExceptionEntry where
  start : Int
  stop : Int
  target : Int
  depth : Int
  lasti : Int
  deriving DecidableEq, Repr

structure StackFrame where
  impl : Nat := 0
  scope : Nat := 0
  cursor : Nat := 0
  entry : BlockRef := default
  content : BlockRef := default
  instrs : List Opcode := []
  constants : List Constant := []
  names : List String := []
  localNames : List String := []
  exceptions : List ExceptionEntry := []
  constantValues : List Operand := []
  stack : List Term := []
  blockAt : List (Opcode × BlockRef) := []
  /-- The operands with which a block is entered. -/
  stackAt : List (BlockRef × List Term) := []
  current : Option Nat := none
  /-- The constant that names the keyword arguments of the next call. -/
  keywords : Option Constant := none
  deriving Inhabited

structure State where
  program : Program := {}
  cursor : Nat := 0
  lowerer : Lowerer := .bare
  tree : TreeFrame := {}
  stack : StackFrame := {}
  vars : Array Variable := #[]
  scopes : Array (Array Nat) := #[]
  impls : Array Impl := #[]
  definitions : Array Definition := #[]
  files : Array SourceFile := #[]
  fileTable : Array (String × Nat) := #[]
  output : String := "output.o"
  reports : Array Report := #[]
  printed : Array String := #[]
  deriving Inhabited

abbrev Emit := EStateM Fault State

namespace Emit

def build {α : Type} (x : Build α) : Emit α := fun s =>
  let p := s.program
  let s := { s with program := {} }
  match x p with
  | .ok a p => .ok a { s with program := p }
  | .error e p => .error e { s with program := p }

def lift {α : Type} (x : Except Fault α) : Emit α :=
  match x with
  | .ok a => pure a
  | .error e => throw e

def expect {α : Type} (x : Option α) (e : Fault) : Emit α :=
  match x with
  | some a => pure a
  | none => throw e

def print (line : String) : Emit Unit := modify fun s => { s with printed := s.printed.push line }

def report (message : String) (line row : Option Int) : Emit Unit :=
  modify fun s => { s with
    reports := s.reports.push { message, line := line.getD (-1), row := row.getD (-1) } }

def modifyBlock (ref : BlockRef) (f : Block → Block) : Emit Unit :=
  modify fun s => { s with
    program := { s.program with
      funcs := s.program.funcs.modify ref.func fun g => { g with
        blocks := g.blocks.modify ref.index f } } }

def modifyFunc (i : Nat) (f : Func → Func) : Emit Unit :=
  modify fun s => { s with program := { s.program with funcs := s.program.funcs.modify i f } }

def block (ref : BlockRef) : Emit Block := do
  return ((← get).program.funcs[ref.func]?.bind (·.blocks[ref.index]?)).getD default

def here : Emit Cursor := do
  let s ← get
  return s.program.cursors[s.cursor]?.getD default

def hereBlock? : Emit (Option BlockRef) := return (← here).block

def hereBlock : Emit BlockRef := do
  match (← here).block with
  | some ref => return ref
  | none => throw .noInsertBlock

def moveTo (ref : Option BlockRef) : Emit Unit :=
  modify fun s => { s with
    program := { s.program with
      cursors := s.program.cursors.modify s.cursor fun c => { c with block := ref } } }

def setBlock (ref : BlockRef) : Emit Unit := moveTo (some ref)

def addBlock (func : Nat) (label : Option String) : Emit BlockRef := do
  let size := ((← get).program.funcs[func]?.map (·.blocks.size)).getD 0
  modifyFunc func (·.addBlock label)
  return ⟨func, size⟩

def createBlock (label : Option String := none) : Emit BlockRef := do
  addBlock (← here).func label

/-- Writes to the block in hand; what it cannot hold is a fault after the part that it can. -/
def write (push : Block → Block × Option Fault) : Emit Unit := do
  let ref ← hereBlock
  let b ← block ref
  modifyBlock ref fun b => (push b).1
  match (push b).2 with
  | some fault => throw fault
  | none => return ()

abbrev place (i : Instr) : Emit Unit := write (·.push i)

abbrev placeFields (fields : List Field) : Emit Unit := write (·.pushFields fields)

/-- Writes an instruction that computes a value, and gives the value its number. -/
def assign (mk : Nat → Instr) : Emit Operand := do
  let _ ← hereBlock
  let func := (← here).func
  match (← get).program.funcs[func]? with
  | some f =>
    let n := f.nextValue
    place (mk n)
    modifyFunc func fun f => { f with nextValue := f.nextValue + 1 }
    return .id n
  | none =>
    placeFields (mk 0).fields.dropLast
    throw .noMember

def binary (op : Binary) (a b : Operand) : Emit Operand := assign (.binary op a b)
def add (a b : Operand) : Emit Operand := binary .add a b
def sub (a b : Operand) : Emit Operand := binary .sub a b
def eq (a b : Operand) : Emit Operand := binary .eq a b
def ne (a b : Operand) : Emit Operand := binary .ne a b
def lt (a b : Operand) : Emit Operand := binary .lt a b
def gte (a b : Operand) : Emit Operand := binary .gte a b
def unary (op : Unary) (a : Operand) : Emit Operand := assign (.unary op a)
def store (value address : Operand) : Emit Operand := assign (.store value address)
def load (address : Operand) : Emit Operand := assign (.load address)

def member (base first second : Operand) : Emit Operand := assign (.member base first second)

def element (base : Operand) (type : MachineType) (indices : List Operand) : Emit Operand :=
  assign (.element type base indices)

def funcId (i : Nat) : Emit Int := do
  match (← get).program.funcs[i]? with
  | some f => return f.id
  | none => throw .noMember

def call (func : Nat) (args : List Operand) : Emit Operand := do
  let id ← funcId func
  assign (.call id args)

def callPtr (ptr : Operand) (args : List Operand) : Emit Operand := assign (.callPtr ptr 1 args)

def int64 (n : Int) : Emit Operand := assign (.int64 (.id n))
def int32 (n : Int) : Emit Operand := assign (.smallInt .int32 (.id n))
def int1 (b : Bool) : Emit Operand := assign (.smallInt .int1 (.id (if b then 1 else 0)))
def null (type : MachineType) : Emit Operand := assign (.null type)
def cast (sort : Cast) (value : Operand) (type : MachineType) : Emit Operand :=
  assign (.cast sort value type)
def ptrCast (value : Operand) (type : MachineType) : Emit Operand := cast .pointer value type
def intCast (value : Operand) (type : MachineType) : Emit Operand := cast .int value type
def floatCast (value : Operand) (type : MachineType) : Emit Operand := cast .float value type
def alloca (type : MachineType) : Emit Operand := assign (.alloca type)

def globalText (l : Label) : Emit Operand := do
  if l.text?.isNone then placeFields (.count 3001 :: l.fields)
  assign (.globalText l.text?)

def globalVar (i : Nat) : Emit Operand := do
  let id ← build (Program.globalId i)
  assign (.globalVar id)

def funcPtr (i : Nat) : Emit Operand := do
  let id ← funcId i
  assign (.funcPtr id)

def blockId (ref : BlockRef) : Emit Nat := return (← block ref).id

def branchSource : Emit BlockRef := do
  match (← here).block with
  | some ref => return ref
  | none => throw .noBranchSource

/-- Ends the block in hand; it goes on in another. -/
def branch (target : BlockRef) : Emit Unit := do
  let ref ← branchSource
  match (← get).program.funcs[target.func]? with
  | some _ =>
    place (.branch (← blockId target))
    modifyBlock ref fun b => { b with branches := b.branches.push target, locked := true }
  | none => placeFields [.count 150, .defect .noMember]

def condBranch (condition : Operand) (yes no : BlockRef) : Emit Unit := do
  let ref ← branchSource
  place (.condBranch condition (← blockId yes) (← blockId no))
  modifyBlock ref fun b => { b with branches := (b.branches.push yes).push no, locked := true }

/-- Ends the block in hand; it leaves the function. -/
def leave (i : Instr) : Emit Unit := do
  let ref ← hereBlock
  place i
  modifyBlock ref fun b => { b with returns := true, locked := true }

def ret (value : Operand) : Emit Unit := leave (.ret value)
def retVoid : Emit Unit := leave .retVoid
def retNull : Emit Unit := leave .retNull

def phi (type : MachineType) (values : List Operand) (blocks : List BlockRef) : Emit Operand := do
  if values.length ≠ blocks.length then throw (.phiArity values.length blocks.length)
  let ids ← blocks.mapM blockId
  assign (.phi type values ids)

def objectPtr : Emit MachineType := build Program.objectPtr

def external (name : String) (result : MachineType) (params : List MachineType) : Emit Nat :=
  build (Program.func name result params externalLinkage)

def callObjects (name : String) (args : List Operand) : Emit Operand := do
  let object ← objectPtr
  let f ← external name object (args.map fun _ => object)
  call f args

/-- Runs an action and puts a part of the state back afterwards, also after a fault. -/
def restoring {α : Type} (restore : State → State) (x : Emit α) : Emit α := fun s =>
  match x s with
  | .ok a s => .ok a (restore s)
  | .error e s => .error e (restore s)

def withCursor {α : Type} (cursor : Nat) (x : Emit α) : Emit α := do
  let old := (← get).cursor
  modify fun s => { s with cursor := cursor }
  restoring (fun s => { s with cursor := old }) x

def machineType (t : ValueType) : Emit MachineType :=
  if t.isList || t.isDict || t.isTuple || t.isSet then objectPtr
  else if t.isInt || t.isModule then return .int64
  else if t.isDec then return .double
  else if t.isBool then return .int1
  else if t.isObj then throw .noMember
  else if t.isPython then objectPtr
  else if t.isNone then return .int32
  else return .void

/-- The type of a term; a term without one allows nothing. -/
def known (t : Option ValueType) : Emit ValueType :=
  match t with
  | some t => return t
  | none => throw .noMember

def loadText (l : Label) : Emit Operand := do
  let c ← lift l.constant
  let i ← build (Program.constantVar c)
  load (← globalVar i)

/-- Only a lowering of a function, not a bare cursor, allows the action. -/
def requireFunction : Emit Unit := do
  if (← get).lowerer = .bare then throw .noMember

def requireTree : Emit Unit := do
  if (← get).lowerer ≠ .tree then throw .noMember

def entryBlock : Emit BlockRef := do
  let s ← get
  match s.lowerer with
  | .tree => return s.tree.entry
  | .stack => return s.stack.entry
  | .bare => throw .noMember

/-- The address of a new variable, allocated in the entry block. -/
def entryVar (type : MachineType) (nulled : Bool := false) : Emit Operand := do
  let entry ← entryBlock
  let back ← hereBlock?
  setBlock entry
  let address ← alloca type
  if nulled then
    let zero ← null type
    discard (store zero address)
  moveTo back
  return address

attribute [reducible] sub intCast ne lt ptrCast machineType requireFunction requireTree

end Emit
end Lowering
