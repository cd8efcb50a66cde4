import Lowering.Builtins
import Lowering.Emit.Operator

/-!
What the lowering of a tree keeps while it walks: the last value, the value being assigned, the
variables of the function, and the frame of code that every function starts with.
-/
namespace Lowering.Lower

open Emit

structure Recur where
  visit : Node → Emit Unit

def Recur.term (r : Recur) (n : Node) : Emit Term := do
  r.visit n
  return (← get).tree.last

def modifyTree (f : TreeFrame → TreeFrame) : Emit Unit :=
  modify fun s => { s with tree := f s.tree }

def setLast (t : Term) : Emit Unit := modifyTree fun f => { f with last := t }

def setLastType (t : Option ValueType) : Emit Unit :=
  modifyTree fun f => { f with last := { f.last with type := t } }

def setLastValue (v : Operand) : Emit Unit :=
  modifyTree fun f => { f with last := { f.last with value := v } }

def resetLast : Emit Unit := setLast ⟨none, .absent⟩

def setAssigned (t : Term) : Emit Unit := modifyTree fun f => { f with assigned := t }

def assigned : Emit Term := return (← get).tree.assigned

/-- The usage of a token, which an augmented assignment may have replaced. -/
def usageUnder (replaced : Option (Nat × Option Usage)) (n : Node) : Option Usage :=
  match replaced with
  | some (key, usage) => if key = n.mark.key then usage else n.usage
  | none => n.usage

def replaced : Emit (Option (Nat × Option Usage)) := return (← get).tree.replaced

def setReplaced (token : Option (Nat × Option Usage)) : Emit Unit :=
  modifyTree fun f => { f with replaced := token }

def usageOf (n : Node) : Emit (Option Usage) := return usageUnder (← replaced) n

def each (n : Node) : Emit (List Node) :=
  match n.items? with
  | some items => return items
  | none => throw .misuse

def slotOperand : Slot → Operand
  | .value v => v
  | _ => .absent

def addVariable (scope : Nat) (name : String) (type : Option ValueType) : Emit Nat := do
  let t ← known type
  modifyGet fun s =>
    let i := s.vars.size
    let id : Int := (s.scopes[scope]?.getD #[]).size
    (i, { s with
      vars := s.vars.push { id, name, type := t.stored, scope := some scope }
      scopes := s.scopes.modify scope (·.push i) })

def findVariable (scope : Nat) (name : String) : Emit (Option Nat) := do
  let s ← get
  return ((s.scopes[scope]?.getD #[]).toList.find? fun i =>
    (s.vars[i]?.map (·.name)) == some name)

def lookupScope : Emit Nat := do
  let s ← get
  match s.lowerer with
  | .tree => return s.tree.scope
  | .stack => return s.stack.scope
  | .bare => throw .noMember

/-- The variable at a place of a scope; a negative one counts from the end. -/
def variableAt (scope : Nat) (place : Int) : Emit Nat := do
  let vars := (← get).scopes[scope]?.getD #[]
  match vars[(if place < 0 then place + vars.size else place).toNat]? with
  | some i => if place + vars.size < 0 then throw .outOfRange else return i
  | none => throw .outOfRange

/-- The variable of a name, made in the entry block at its first use. A number in the place of the
name stands for the variable at that place. -/
def variableFor (name : Label) : Emit Nat := do
  let scope ← lookupScope
  match name.text?, name.number? with
  | some name, _ =>
    match ← findVariable scope name with
    | some i => return i
    | none =>
      let i ← addVariable scope name (some .python)
      let address ← entryVar (← objectPtr)
      modifyVariable i fun v => { v with slot := .value address }
      return i
  | none, some place => variableAt scope place
  | none, none => throw .misuse

def slotFor (name : Label) : Emit Operand := do
  return slotOperand (← varAt (← variableFor name)).slot

def globalObject (name : Label) : Emit Operand := do
  let name ← lift name.required
  let dict ← if isBuiltin name then functionBuiltins 0 else functionGlobals 0
  let text ← loadText name
  dictGet dict text

def signature (impl : Impl) : Emit (List MachineType) := do
  match impl.convention with
  | .tuple =>
    let ptr ← objectPtr
    return [ptr, ptr, ptr]
  | .vector => build Program.vectorParams
  | _ => throw .signatureUnknown

def definitionName (i : Nat) : Emit String := do
  let d := (← get).definitions[i]?.getD default
  match d.node.form with
  | .functionDef name .. => return "@global@module@" ++ (← lift name.required)
  | _ => throw .noMember

def fullName (impl : Impl) : Emit String := do
  let ending ← match impl.convention with
    | .tuple => pure "@tp@"
    | .vector => pure "@vec@"
    | .specialized => pure "@spec@"
    | .none => throw .suffixUnknown
  match impl.parent with
  | some d => return (← definitionName d) ++ ending
  | none => throw .noMember

def parameters (i : Nat) : Emit (List Node) := do
  let d := (← get).definitions[i]?.getD default
  match d.node.form with
  | .functionDef _ args .. =>
    match args.form with
    | .arguments _ args .. => each args
    | _ => throw .noMember
  | _ => throw .noMember

def parameterName (n : Node) : Emit Label :=
  match n.form with
  | .arg name _ | .keyword name _ => return name
  | _ => throw .noMember

def declare (i : Nat) : Emit Nat := do
  let impl ← implOf i
  let params ← signature impl
  let name ← fullName impl
  let result ← objectPtr
  let f ← build (Program.func name result params internalLinkage)
  modify fun s => { s with impls := s.impls.modify i fun impl => { impl with code := some f } }
  return f

/-- Adds the first two blocks to a function and enters the second. Gives the entry block and the block
where the code of the function begins. -/
def enter (f : Nat) : Emit (BlockRef × BlockRef) := do
  let entry ← addBlock f (some "Entry block")
  let cursor := ((← get).program.funcs[f]?.map (·.cursor)).getD 0
  modify fun s => { s with cursor := cursor }
  let content ← createBlock
  setBlock content
  return (entry, content)

/-- Declares the function of an implementation and enters its first block. -/
def openFunction (i : Nat) : Emit (BlockRef × BlockRef) := do
  enter (← declare i)

/-- Binds the parameters to the places where a caller puts the arguments. -/
def bindArguments (convention : Convention) (params : List Node) : Emit Unit := do
  for (param, i) in params.zipIdx do
    let v ← variableFor (← parameterName param)
    let place ← match convention with
      | .tuple => do
        let index ← int64 i
        tupleItemPtr 1 index
      | _ => do
        let ptr ← objectPtr
        let index ← int64 i
        element 1 ptr [index]
    modifyVariable v fun v => { v with slot := .value place }

/-- Looks parameters up one after the other; what is found goes to a block of its own. -/
def lookUpKeywords (keywords zero : Operand) (after : BlockRef) :
    List (Node × BlockRef) → Emit Unit
  | [] => return ()
  | (param, change) :: rest => do
    let text ← loadText (← parameterName param)
    let found ← dictGet keywords text
    let there ← ne found zero
    match rest with
    | [] => condBranch there change after
    | (_, next) :: _ =>
      condBranch there change next
      setBlock next
    lookUpKeywords keywords zero after rest

def matchKeywords (keywords : Operand) (params : List Node) : Emit Unit := do
  let some_ ← createBlock
  let after ← createBlock
  let changes ← params.mapM fun param => return (param, ← createBlock)
  let zero ← null (← objectPtr)
  let present ← ne zero keywords
  condBranch present some_ after
  setBlock some_
  let keys ← dictKeys keywords
  let current ← entryVar .int64
  discard (listLength keys)
  let start ← int64 0
  discard (store start current)
  lookUpKeywords keywords zero after changes
  branch after
  setBlock after

def bindParameters (i : Nat) : Emit Unit := do
  let impl ← implOf i
  let d ← expect impl.parent .noParentFunction
  let params ← parameters d
  bindArguments impl.convention params
  matchKeywords (match impl.convention with | .tuple => 2 | _ => 3) params

def start (i : Nat) : Emit Unit := do
  let impl ← implOf i
  modify fun s => { s with
    lowerer := .tree
    tree := { impl := i, scope := impl.scope } }
  let (entry, content) ← openFunction i
  let cursor := (← get).cursor
  modifyTree fun f => { f with entry, content, cursor }
  bindParameters i

/-- Ends a block that goes nowhere; what it returns is nothing. -/
def closeBlock (cursor : Nat) (result : MachineType) (ref : BlockRef) : Emit Unit := do
  if (← block ref).needsEnd then
    withCursor cursor (setBlock ref)
    releaseVariables
    if result.same .void then withCursor cursor retVoid
    else
      let nothing ← globalVar (← build (Program.known! (·.noneVar)))
      retain (some .python) nothing
      retain (some .python) nothing
      ret nothing

/-- Ends every block of the function that goes nowhere. The blocks that this adds are ended as they
are made. -/
def closeBlocks : Emit Unit := do
  let i ← currentImpl
  let impl ← implOf i
  let f ← expect impl.code .noCodeFunction
  let func := (← get).program.funcs[f]?.getD default
  for k in List.range func.blocks.size do
    if func.dropped ≤ k then closeBlock func.cursor func.result ⟨f, k⟩

attribute [reducible] slotFor globalObject resetLast

end Lowering.Lower
