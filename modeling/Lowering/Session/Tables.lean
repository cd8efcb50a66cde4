import Lowering.Session.Cursor

/-!
Commands on the program and on the entries of its tables: functions and their blocks, global
variables, structures and constants.
-/
namespace Lowering.Session

private def modifyProgram (f : Program → Program) : Run Unit :=
  modify fun s => { s with state := { s.state with program := f s.state.program } }

/-! ### Functions and blocks -/

def liveBlocks (i : Nat) : Run (List Value) := do
  let f ← funcAt i
  return ((List.range f.blocks.size).drop f.dropped).map fun k => .block ⟨i, k⟩

def listIterator (items : List Value) : Value := .iterator "list_iterator" items

private def addParam (i : Nat) (v : Value) : Run Unit := do
  let k := (← funcAt i).params.size
  emit (Emit.modifyFunc i (·.addParam {}))
  setAspect (.func i) (.item k) v

private def clearFunc (i : Nat) : Run Unit := do
  let cursor ← build (Program.newCursor i)
  dropDetail (.func i) .result
  emit (Emit.modifyFunc i fun f => { f with
    nextValue := 0
    result := .void
    dropped := f.blocks.size
    cursor })

private def nextNumber (i : Nat) : Run Nat := do
  let n := (← funcAt i).nextValue
  emit (Emit.modifyFunc i fun f => { f with nextValue := f.nextValue + 1 })
  return n

private def branchesInto (ref : BlockRef) (v : Value) : Run Bool := do
  isAmong v (← branchValues ref)

private def predecessors (i : Nat) (v : Value) : Run Value := do
  let f ← funcAt i
  let refs := ((List.range f.blocks.size).drop f.dropped).map fun k => (⟨i, k⟩ : BlockRef)
  newList ((← refs.filterM fun ref => branchesInto ref v).map .block)

def funcMethods (i : Nat) : Commands :=
  let part (a : Aspect) : Command := plainly (funcPart i a)
  let setPart (name : String) (a : Aspect) : Command :=
    command name fun (v : Value) => setAspect (.func i) a v
  [("id", part .id), ("name", part .name), ("linkage", part .linkage), ("returnType", part .result),
    ("setId", setPart "id_" .id), ("setLinkage", setPart "link" .linkage),
    ("setReturnType", setPart "type" .result), ("addArg", command "arg" (addParam i)),
    ("arg", command "index" fun (n : Value) => (do itemAt (← funcParams i) n : Run Value)),
    ("args", plainly (do newList (← funcParams i))),
    ("argCount", command "" (return (← funcAt i).params.size : Run Nat)),
    ("addBlock", (command "label" fun (label : Value) => newBlock i label).withDefaults [.none]),
    ("block", command "index" fun (n : Value) => (do itemAt (← liveBlocks i) n : Run Value)),
    ("blocks", plainly (return listIterator (← liveBlocks i))),
    ("blockCount", command "" (return (← funcAt i).blockCount : Run Nat)),
    ("cursor", plainly (return .cursor (← funcAt i).cursor)),
    ("nextValue", command "" (nextNumber i)), ("clear", command "" (clearFunc i)),
    ("clearBlocks", plainly (throw .noMember)), ("predecessors", command "block" (predecessors i)),
    ("writeTo", writing (.func i))]

private def addBranch (ref : BlockRef) (v : Value) : Run Unit := do
  let target ← targetOf v
  emit (Emit.modifyBlock ref fun b => { b with branches := b.branches.push target })

private def clearBlock (ref : BlockRef) : Run Unit := do
  dropDetail (.block ref) .returns
  emit (Emit.modifyBlock ref fun b => { b with branches := #[], returns := false })

def blockMethods (ref : BlockRef) : Commands :=
  let now : Run Block := emit (Emit.block ref)
  [("length", command "" (return (← now).bytes.length : Run Nat)),
    ("id", command "" (return (← now).id : Run Nat)), ("addBranch", command "block" (addBranch ref)),
    ("branchesInto", command "block" (branchesInto ref)), ("clear", command "" (clearBlock ref)),
    ("branches", plainly (return .branchesOf ref)),
    ("name", command "" (return (← now).name : Run String)),
    ("hasBranch", command "" (return !(← now).branches.isEmpty : Run Bool)),
    ("hasReturn", plainly (blockPart ref .returns)),
    ("needsEnd", command "" (return (← now).needsEnd : Run Bool)),
    ("setHasReturn", command "ret" fun (v : Value) => setAspect (.block ref) .returns v),
    ("writer", plainly (return .blockWriter ref)), ("text", command "" (text (.block ref))),
    ("writeTo", writing (.block ref))]

/-! ### Variables and structures -/

private def moduleName (i : Nat) : Run Value := do
  let v ← globalPart i .module
  if ← isTruthy v then return v else return .text ""

def globalMethods (i : Nat) : Commands :=
  let part (a : Aspect) : Command := plainly (globalPart i a)
  [("id", part .id), ("name", part .name), ("type", part .type),
    ("belongsToModule", command "" (return !(← globalPart i .module).isNone : Run Bool)),
    ("moduleName", plainly (moduleName i)),
    ("setInitializer", command "data" fun (_ : Value) => (return () : Run Unit)),
    ("text", command "" (text (.global i))), ("writeTo", writing (.global i))]

private def addMember (i : Nat) (v : Value) : Run Unit := do
  let k := (← structAt i).members.size
  build (Program.addMembers i #[{}])
  setAspect (.struct i) (.item k) v

def structMethods (i : Nat) : Commands :=
  [("id", plainly (structPart i .id)), ("name", plainly (structPart i .name)),
    ("addType", command "type" (addMember i)),
    ("type", command "index" fun (n : Value) => (do itemAt (← structMembers i) n : Run Value)),
    ("typeCount", command "" (return (← structAt i).members.size : Run Nat)),
    ("types", plainly (return listIterator (← structMembers i))),
    ("toMachine", plainly (do newLayout (.member .primitive 8) (← structPart i .id))),
    ("writeTo", writing (.struct i))]

private def setName (owner : Owner) (name : Value) : Run Unit := do
  if name.text?.isNone then setDetail owner .name name

private def enterGlobal (name type linkage module : Value) : Run Nat := do
  let i ← build (Program.newGlobal {
    name := ← nameText name
    type := (← machine? type).getD {}
    linkage := linkage.toInt?.getD 0
    module := module.text? })
  setName (.global i) name
  setAspect (.global i) .type type
  setAspect (.global i) .linkage linkage
  setAspect (.global i) .module module
  return i

private def enterFunc (name : Value) (f : Func) : Run Nat := do
  let i ← build (Program.newFunc { f with name := ← nameText name })
  setName (.func i) name
  return i

private def newStruct (name : Value) : Run Value := do
  let i ← build (Program.newStruct (← nameText name) #[])
  setName (.struct i) name
  return .struct i

def newEntries : Commands :=
  [("global", (command "name type linkage containingModule" fun (n t l m : Value) =>
      (return .global (← enterGlobal n t l m) : Run Value)).withDefaults
        [.member .linkage 1, .none]),
    ("struct", command "name" newStruct),
    ("function", command "name" fun (name : Value) =>
      (return .func (← enterFunc name { name := "" }) : Run Value)),
    ("cursor", command "func" fun (f : Value) => (return .cursor (← newCursor f) : Run Value)),
    ("tracer", command "func" fun (f : Value) =>
      (do store (.tracer { cursor := ← newCursor f }) : Run Value)),
    ("writer", plainly (store (.writer {}))),
    ("initializer", plainly (return .initializer none)),
    ("textInitializer", command "value" fun (v : Value) =>
      (return .initializer (some v) : Run Value))]

/-! ### The program -/

private def knownEntry (field : Known → Option Nat) : Run Nat := build (Program.known! field)

private def knownVar (field : Known → Option Nat) : Command :=
  plainly (return .global (← knownEntry field))

private def knownStruct (field : Known → Option Nat) : Command :=
  plainly (return .struct (← knownEntry field))

private def functionTypeVar : Run Value := do
  match (← programNow).known.functionType with
  | some i => return .global i
  | none => throw .noMember

private def functionStructNow : Run Value := do
  match (← programNow).known.functionStruct with
  | some i => return .struct i
  | none => return .fault .setupMissing

private def listed (name : Value) : Run String := do
  discard (keyOf name)
  nameText name

mutual

/-- The variable of a constant of the pool. Only what can be a key is looked up. -/
def constantVar : Nat → Value → Run Value
  | 0, _ => throw .misuse
  | fuel + 1, v => do
    match constantOf? v with
    | some c => return .global (← build (Program.constantVar c))
    | none =>
      discard (keyOf v)
      match v with
      | .tuple items =>
        memberVars fuel items
        throw .misuse
      | v => throw (.constantRejected (← classOf v).text)

def memberVars (fuel : Nat) : List Value → Run Unit
  | [] => return ()
  | v :: rest => do
    discard (constantVar fuel v)
    memberVars fuel rest

end

def declare (name result params linkage : Value) : Run Value := do
  let key ← listed name
  match Program.lookup (← programNow).funcTable key with
  | some i => return .func i
  | none =>
    let params ← if params.isNone then pure [] else itemsOf params
    let i ← enterFunc name {
      name := ""
      id := (← programNow).funcTable.size
      nextValue := params.length
      params := params.toArray.map fun _ => {} }
    setAspect (.func i) .linkage linkage
    setAspect (.func i) .result result
    for (v, k) in params.zipIdx do setAspect (.func i) (.item k) v
    modifyProgram fun p => { p with funcTable := p.funcTable.push (key, i) }
    return .func i

private def declareGlobal (name type linkage : Value) : Run Value := do
  match Program.lookup (← programNow).globalTable (← listed name) with
  | some i => return .global i
  | none =>
    let i ← enterGlobal name type linkage .none
    build (Program.listGlobal i)
    return .global i

private def globalNamed (name : Value) : Run Value := do
  return .ofOption .global (Program.lookup (← programNow).globalTable (← listed name))

private def addGlobalVar (v : Value) : Run Value := do
  match v with
  | .global i =>
    let n := (← programNow).globalTable.size
    modifyProgram fun p => { p with globals := p.globals.modify i fun g => { g with id := n } }
    discard (keyOf (← globalPart i .name))
    build (Program.listGlobal i)
    return v
  | _ => throw .noMember

private def addStruct (v : Value) : Run Unit := do
  match v with
  | .struct i => build (Program.listStruct i)
  | _ => throw .noMember

private def cText (v : Value) : Run Value := do
  match v.text? with
  | some s => return .ofOption .global (← build (Program.cText s))
  | none => throw .misuse

/-- Forgets the entries of the tables; the constants cannot be forgotten. -/
private def clearProgram : Run Unit := do
  modifyProgram fun p => { p with globalTable := #[], funcTable := #[], structTable := #[] }
  throw .noMember

private def isEnabled (name : String) : Run Bool := do
  return (← get).flags.any fun f => f.name == some name && f.flag.enabled

private def streamStruct (i : Nat) : Run (List Field) := do
  let name := match (← structPart i .name).text? with
    | some s => Field.text ("FlyableStruct@" ++ s)
    | none => .defect .misuse
  let members ← structMembers i
  return name :: .count members.length :: (← members.mapM fieldsOf).flatten

/-- Writes the stream; its header tells which tracing is switched on. -/
private def writeStream : Run Unit := do
  let mode ←
    if ← isEnabled "FLAG_SHOW_OPCODE_ON_EXEC" then pure 1
    else if ← isEnabled "FLAG_SHOW_OPCODE_ON_GEN" then pure 2
    else pure 0
  let p ← programNow
  let structs ← p.structTable.toList.mapM streamStruct
  let globals ← p.globalTable.toList.mapM fun e => fieldsOf (.global e.2)
  let funcs ← p.funcTable.toList.mapM fun e => fieldsOf (.func e.2)
  let fields := Program.streamOf mode structs globals funcs
  match Field.writeAll false fields with
  | (_, some fault) => throw fault
  | (bytes, none) => modify fun s => { s with stream := some bytes }

def nameOf? (v : Value) : Run (Option Value) := do
  match v with
  | .func i => return some (← funcPart i .name)
  | .global i => return some (← globalPart i .name)
  | .struct i => return some (← structPart i .name)
  | .variable i => return some (← variablePart i .name)
  | .block ref => return some (.text (← emit (Emit.block ref)).name)
  | .parameter name _ => return some name
  | .definition i => return some (.text (← emit (Lower.definitionName i)))
  | v =>
    match ← object? v with
    | some (.member _ name _) => return some name
    | _ => return none

private def declareClass (v : Value) : Run Unit := do
  match ← nameOf? v with
  | some (.constant (.text _)) | none => throw .noMember
  | some _ => throw .misuse

/-- An implementation cannot be declared for lack of a class around it. -/
private def declareImpl (v : Value) : Run Unit := do
  match v with
  | .impl i =>
    if (← implPart i .parent).isNone then throw .noParentFunction
    throw .noMember
  | _ => throw .noMember

def programMethods : Commands :=
  [("setup", command "" Program.setup), ("clear", command "" clearProgram),
    ("data", plainly (return .catalog 0)), ("cString", command "str" cText),
    ("true", knownVar (·.trueVar)), ("false", knownVar (·.falseVar)), ("none", knownVar (·.noneVar)),
    ("functionType", plainly functionTypeVar), ("tupleType", knownVar (·.tupleType)),
    ("methodType", knownVar (·.methodType)), ("builtins", knownVar (·.builtins)),
    ("objectStruct", knownStruct (·.objectStruct)), ("listStruct", knownStruct (·.listStruct)),
    ("tupleStruct", knownStruct (·.tupleStruct)), ("callableStruct", knownStruct (·.callableStruct)),
    ("typeStruct", knownStruct (·.typeStruct)), ("functionStruct", plainly functionStructNow),
    ("func", (command "name returnType argsType link" declare).withDefaults
      [.none, .member .linkage 1]),
    ("global", command "name type link" declareGlobal),
    ("constant", command "value" (constantVar 100)), ("text", command "value" (constantVar 100)),
    ("struct", command "index" fun (n : Value) =>
      (return .struct (← itemAt (← programNow).structTable.toList n) : Run Value)),
    ("addStruct", command "struct" addStruct), ("addGlobal", command "var" addGlobalVar),
    ("globalNamed", command "variableName" globalNamed),
    ("declareClass", command "class_" declareClass), ("declareImpl", command "impl" declareImpl),
    ("closeBlocks", lowering "" Lower.closeBlocks), ("write", command "" writeStream),
    ("emitMain", command "" Entry.emitMain)]

/-! ### Library functions -/

def libraryCommands : Commands :=
  [("find", command "name" fun (name : Value) => (do
    for (s, _) in libraryFunctions do
      if ← equal (.text s) name then return .library s
    return .none : Run Value))]

def libraryMethods (name : String) : Commands :=
  [("declare", onProgram "" (do
      return .func (← emit (Emit.external name .void (libraryParams name))) : Run Value)),
    ("call", command "values caller" fun (_ _ : Value) => (throw .unknownName : Run Value))]

end Lowering.Session
