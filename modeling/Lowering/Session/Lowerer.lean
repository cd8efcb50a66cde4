import Lowering.Session.Emission
import Lowering.Session.Source

/-!
Commands on the lowering in hand. The lowering of a tree has a last value and a value being assigned,
the lowering of stack code has operands, and a bare cursor has neither.
-/
namespace Lowering.Session

private def tree : Run TreeFrame := return (← get).state.tree

private def modifyTree (f : TreeFrame → TreeFrame) : Run Unit := emit (Lower.modifyTree f)

/-! ### What every lowering of a function has -/

private def codeOf : Run Value := do
  match (← emit (Emit.implOf (← get).impl)).code with
  | some f => return .func f
  | none => throw .noCodeFunction

private def entryVar (type : Value) (nulled : Bool) : Run Value := do
  let s ← stateNow
  let here ← hereValue
  emit (Emit.setBlock (if s.lowerer = .tree then s.tree.entry else s.stack.entry))
  let address ← place "alloca" [type]
  if nulled then
    let null ← place "null" [type]
    discard (place "store" [null, address])
  discard (moveToBlock here)
  return address

/-- The variable of a name, made if there is none, or the one at a place. -/
private def variableFor (key : Value) : Run Value := do
  match ← variableBy (← emit Lower.lookupScope) key with
  | .constant .none =>
    match key.text? with
    | some name => return .variable (← perform (Lower.variableFor name))
    | none => return .none
  | v => return v

/-! ### Trees -/

/-- A value in the place of a tree. Anything can be found again by its number. -/
private def treeOf (v : Value) : Run Node := do
  match v with
  | .node n => return n
  | .operator op => return .leaf op.className
  | .constant .none => return .absent
  | v =>
    let key ← modifyGet fun s => (nowhere + s.others.size, { s with others := s.others.push v })
    return .mk { key } (.plain (← classOf v).path (← labelOf v))

private def treesOf (v : Value) : Run Node := do
  match ← listItems? v with
  | some items =>
    let items ← items.mapM treeOf
    return .mk (← treeOf v).mark (.suite items)
  | none => treeOf v

/-- Forgets objects that stood for types which the lowering has replaced. -/
private def settle : Run Unit := do
  let f ← tree
  for (aspect, held) in [(Aspect.assignedType, f.assigned.type), (.lastType, f.last.type)] do
    match ← detail? .frame aspect with
    | some v => unless ← showsType v held do dropDetail .frame aspect
    | none => pure ()

private def lowerTree (v : Value) : Run Unit := do
  let n ← treesOf v
  try perform (Lower.visit n)
  finally settle

private def lowerToTerm (v : Value) : Run Value := do
  lowerTree v
  let last := (← tree).last
  let type ← typeAspect .frame .lastType last.type
  return .tuple [type, ← valueOf last.value]

private def currentNode : Run Value := do
  match (← tree).current with
  | some n =>
    if n.mark.key ≥ nowhere then return ((← get).others[n.mark.key - nowhere]?).getD .none
    match n.form with
    | .suite items => newList (items.map .node)
    | _ => return .node n
  | none => return .none

/-! ### Frames of trees -/

private def handlerOf : Option (Option BlockRef) → Run Value
  | some (some ref) => ofBlockRef ref
  | _ => return .none

private def pushHandler (v : Value) : Run Unit := do
  let handler ← if v.isNone then pure none else some <$> targetOf v
  modifyTree fun f => { f with handlers := handler :: f.handlers }

private def popHandler : Run Value := do
  match (← tree).handlers with
  | [] => throw .outOfRange
  | handler :: rest =>
    modifyTree fun f => { f with handlers := rest }
    handlerOf (some handler)

private def pushExit (v : Value) : Run Unit := do
  let target ← targetOf v
  modifyTree fun f => { f with exits := target :: f.exits }

private def popExit : Run Unit := do
  match (← tree).exits with
  | [] => throw .outOfRange
  | _ :: rest => modifyTree fun f => { f with exits := rest }

private def resetLast : Run Unit := do
  dropDetail .frame .lastType
  emit Lower.resetLast

private def keepAssigned : Run Unit := do
  let assigned := (← tree).assigned
  let type ← typeAspect .frame .assignedType assigned.type
  modifyTree fun f => { f with last := assigned }
  setDetail .frame .lastType type

/-- Forgets what was lowered so far. It stops before the blocks of the function, which stay. -/
private def reset : Run Unit := do
  let blank : Term := ⟨some .unknown, .absent⟩
  dropDetail .frame .lastType
  dropDetail .frame .assignedType
  modifyTree fun f => { f with
    assigned := blank
    last := blank
    current := none
    assignDepth := 0
    exits := []
    handlers := [] }
  let impl ← emit (Emit.implOf (← get).impl)
  for i in ← emit (Emit.scopeVars impl.scope) do
    emit (Emit.modifyVariable i fun v => { v with slot := .empty })
  discard codeOf
  throw .noMember

def commonMethods : Commands :=
  [("program", plainly (return .program)),
    ("cursor", plainly (return .cursor (← get).state.cursor))]

/-- What the lowering of a function can be asked for, from a tree or from stack code. -/
def functionMethods : Commands :=
  [("impl", plainly (return .impl (← get).impl)), ("variable", command "varName" variableFor)]

def treeMethods : Commands :=
  [("code", plainly codeOf), ("data", plainly (return .catalog 0)),
    ("compiler", plainly (return .compiler)), ("node", plainly currentNode),
    ("handler", plainly (do handlerOf (← tree).handlers.head?)),
    ("entry", plainly (return .block (← tree).entry)),
    ("entryVar", (command "machine needToBeNulled" entryVar).withDefaults [.bool false]),
    ("pushHandler", command "block" pushHandler), ("pushExit", command "block" pushExit),
    ("popHandler", plainly popHandler), ("popExit", command "" popExit),
    ("resetLast", command "" resetLast),
    ("setAssignedType", command "assignType" fun (t : Value) => setAspect .frame .assignedType t),
    ("setAssignedValue", command "assignValue" fun (v : Operand) =>
      modifyTree fun f => { f with assigned := { f.assigned with value := v } }),
    ("keepAssigned", command "" keepAssigned), ("bindDefaults", plainly (throw .noMember)),
    ("reset", command "" reset),
    ("findVariable", command "varName" fun (name : Value) => (do
      variableNamed (← emit Lower.lookupScope) name anyVariable : Run Value)),
    ("lower", command "node" lowerTree), ("lowerTerm", command "node" lowerToTerm)]

/-! ### Operands -/

/-- An operand with the type it was given, as long as it is the same operand. -/
private def operandValue (place : Nat) (t : Term) : Run Value := do
  let type ← typeAspect (.operand place t.value) .type t.type
  return .tuple [type, ← valueOf t.value]

private def giveOperand (rest : List Term) (type : Value) (value : Operand) : Run Unit := do
  emit (Stack.setOperands (⟨← type? type, value⟩ :: rest))
  setDetail (.operand rest.length value) .type type

private def pushOperand (type v : Value) : Run Unit := do
  match v.toInt? with
  | none => throw (.stackValue (← text v))
  | some _ =>
    let type ← if type.isNone then newType .python else pure type
    giveOperand (← emit Stack.operands) type (← operandOf v)

private def popOperand : Run Value := do
  let t ← emit Stack.pop
  operandValue (← emit Stack.operands).length t

private def setTopOperand (type v : Value) : Run Unit := do
  match ← emit Stack.operands with
  | [] => throw .outOfRange
  | _ :: rest => giveOperand rest type (← operandOf v)

private def operandBelow (n : Int) : Run Value := do
  let operands ← emit Stack.operands
  let t ← emit (Stack.operandAt (-n - 1))
  match Operands.depth? operands (-n - 1) with
  | some depth => operandValue (operands.length - 1 - depth) t
  | none => throw .outOfRange

private def peekOperand (index : Value) : Run Value := do
  match index.toInt? with
  | some n => operandBelow n
  | none => throw .misuse

/-- The block at a number of an instruction, of which there are none here. -/
private def blockReached (shown : Value) : Run Value := do throw (.offsetUnreached (← text shown))

private def jumpTo (x : Value) : Run Value := do
  discard (product x (.int 2))
  blockReached x

private def jumpBy (offset x : Value) : Run Value := do
  blockReached (← sum (← sum offset (← product x (.int 2))) (.int 2))

/-- The handler of a line; without a table of handlers no line can be looked up. -/
private def handlerAt (line : Value) : Run Value :=
  if line.isNone then return .none else throw .misuse

private def callBinary (name : Value) : Run Unit := do
  match name.text? with
  | some s => perform (Stack.binaryCall s)
  | none =>
    let right ← emit Stack.pop
    let left ← emit Stack.pop
    let type ← newMachine (← build Program.objectPtr)
    match ← declare name type (← newList [type, type]) (.member .linkage 2) with
    | .func f => perform (do Stack.pushObject (← Emit.call f [left.value, right.value]))
    | _ => throw .misuse

/-- Unpacks the operand on top, as many items as an instruction says. -/
private def unpackTop (expected : ValueType → Bool) (instr : Value) : Run Unit := do
  match instr with
  | .opcode _ =>
    let op ← Argument.read instr
    perform (Stack.unpackExpected expected op)
  | _ =>
    unless expected (← need (← emit Stack.top).type) do discard (emit Stack.pop)
    throw .noMember

def stackMethods : Commands :=
  let ignoring (act : Emit Unit) : Command := command "instr" fun (_ : Value) => act
  [("function", plainly codeOf),
    ("entryVar", command "allocaType" fun (t : Value) => entryVar t false),
    ("push", command "type value" pushOperand), ("pop", plainly popOperand),
    ("top", plainly (operandBelow 0)), ("setTop", command "newType newValue" setTopOperand),
    ("peek", command "index" peekOperand),
    ("depth", command "" (return (← emit Stack.operands).length : Run Nat)),
    ("jumpTo", command "x" jumpTo), ("jumpBy", command "currentOffset x" jumpBy),
    ("handlerBlock", plainly (return .none)), ("handlerAt", command "line" handlerAt),
    ("bindParameters", command "" Stack.bindParameters), ("callBinary", command "opType" callBinary),
    ("pushLength", ignoring Stack.getLen), ("dropTop", ignoring (discard Stack.pop)),
    ("negateTop", ignoring Stack.notOperator),
    ("storeCell", ignoring (do discard Stack.pop; throw .noMember)),
    ("unpackTuple", command "instr" (unpackTop ValueType.isTuple)),
    ("unpackList", command "instr" (unpackTop ValueType.isList))]

def lowererMethods : Lowerer → Commands
  | .tree => commonMethods ++ functionMethods ++ treeMethods
  | .stack => commonMethods ++ functionMethods ++ stackMethods
  | .bare => commonMethods

end Lowering.Session
