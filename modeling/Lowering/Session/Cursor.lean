import Lowering.Session.Typing

/-!
Commands that place single instructions with a cursor. An instruction that is given something
unusable is written up to there.
-/
namespace Lowering.Session

open Emit

def idOf? (v : Value) : Run (Option Value) := do
  match v with
  | .block ref => return some (.int (← emit (block ref)).id)
  | .func i => return some (← funcPart i .id)
  | .global i => return some (← globalPart i .id)
  | .struct i => return some (← structPart i .id)
  | .variable i => return some (← variablePart i .id)
  | .impl i => return some (← implPart i .id)
  | .definition i => return some (← definitionId i)
  | v =>
    match ← object? v with
    | some (.type _ id _) => return some id
    | some (.member id _ _) => return some id
    | _ => return none

private def idField (v : Value) : Run Field := do
  match ← idOf? v with
  | some id => wordField id
  | none => return .defect .noMember

/-- Items with their count, asked for before anything is written. -/
private def counted (v : Value) : Run (List Field) := do
  let n ← sizeOf v
  let items ← itemsOf v
  return .count n :: (← items.mapM wordField)

private def countedLate (v : Value) (field : Value → Run Field) : Run (List Field) := do
  match ← size? v, ← items? v with
  | some n, some items => return .count n :: (← items.mapM field)
  | some n, none => return [.count n, .defect .misuse]
  | none, _ => return [.defect .misuse]

/-- What follows the fields of an instruction. -/
inductive Ending
  | value
  | nothing
  /-- The block is left for good. -/
  | leave
  /-- The block goes on in others, which are the arguments from a place on. -/
  | branch (place : Nat)

/-- A way to place an instruction. -/
structure Placement where
  name : String
  opcode : Nat
  params : String
  defaults : List Value := []
  ending : Ending := .value
  fields : List Value → Run (List Field)

private def words (args : List Value) : Run (List Field) := args.mapM wordField

private def ofWords (name : String) (opcode : Nat) (params : String) : Placement :=
  { name, opcode, params, fields := words }

private def binaries : List Placement :=
  [("add", Binary.add), ("sub", .sub), ("mul", .mul), ("div", .div), ("eq", .eq), ("ne", .ne),
    ("lt", .lt), ("lte", .lte), ("gt", .gt), ("gte", .gte), ("and", .and), ("or", .or),
    ("mod", .mod)].map fun (name, op) => ofWords name op.opcode "v1 v2"

private def casts : List Placement :=
  [("ptrCast", Cast.pointer, "typed"), ("intCast", .int, "typed"), ("floatCast", .float, "typed"),
    ("intToPtr", .intToPointer, "ptrType"), ("bitCast", .bits, "castType"),
    ("zeroExtend", .zeroExtend, "castType")].map fun (name, sort, type) =>
      { name, opcode := sort.opcode, params := "value " ++ type, fields := fun
        | [value, type] => return (← wordField value) :: (← fieldsOf type)
        | _ => throw .misuse }

private def ofTypes : List Placement :=
  [("null", 1006), ("alloca", 1050), ("sizeOf", 9998), ("sizeOfElement", 9999)].map
    fun (name, opcode) => { name, opcode, params := "typed", fields := fun
      | [type] => fieldsOf type
      | _ => throw .misuse }

private def ofNumbers : List Placement :=
  [("globalVar", 3000, "var"), ("funcPtr", 3002, "func")].map fun (name, opcode, params) =>
    { name, opcode, params, fields := fun
      | [v] => return [← wordField (← need (← idOf? v))]
      | _ => throw .misuse }

private def branches : List Placement :=
  [{ name := "branch", opcode := 150, params := "block", ending := .branch 0, fields := fun
      | [target] => return [← idField target]
      | _ => throw .misuse },
    { name := "condBranch", opcode := 151, params := "value blockTrue blockFalse",
      ending := .branch 1, fields := fun
      | [value, yes, no] => return [← wordField value, ← idField yes, ← idField no]
      | _ => throw .misuse }]

private def calls : List Placement :=
  [{ name := "call", opcode := 170, params := "func args", fields := fun
      | [func, args] => return (← wordField (← need (← idOf? func))) :: (← counted args)
      | _ => throw .misuse },
    { name := "callPtr", opcode := 171, params := "ptr args callConv", defaults := [.none],
      fields := fun
      | [ptr, args, convention] => do
        let convention := if convention.isNone then .member .calling 1 else convention
        return (← wordField ptr) :: (← wordField convention) :: (← counted args)
      | _ => throw .misuse }]

private def constants : List Placement :=
  [{ name := "int64", opcode := 1000, params := "value", fields := fun
      | [v] => return [← longField v]
      | _ => throw .misuse },
    { name := "int1", opcode := 1007, params := "value", fields := fun
      | [v] => return [.word (.id (← integerOf v))]
      | _ => throw .misuse },
    { name := "float32", opcode := 1004, params := "value", fields := fun
      | [v] => return [.single (double? v)]
      | _ => throw .misuse },
    { name := "float64", opcode := 1005, params := "value", fields := fun
      | [v] => return [.double (double? v)]
      | _ => throw .misuse },
    { name := "globalText", opcode := 3001, params := "value", fields := fun
      | [v] => textFields v
      | _ => throw .misuse }]

private def elementFields : List Value → Run (List Field)
  | [value, type, indices] => do
    return (← fieldsOf type) ++ (← wordField value) :: (← countedLate indices wordField)
  | _ => throw .misuse

def placements : List Placement :=
  binaries ++ casts ++ ofTypes ++ ofNumbers ++ branches ++ calls ++ constants ++
    [ofWords "neg" 11 "value", ofWords "not" 15 "value", ofWords "floor" 17 "v",
      ofWords "store" 100 "value store", ofWords "load" 101 "value",
      ofWords "member" 152 "value firstIndex secondIndex",
      { name := "element", opcode := 153, params := "value typed arrayIndices",
        fields := elementFields },
      ofWords "int32" 1001 "value", ofWords "int16" 1002 "value", ofWords "int8" 1003 "value",
      { ofWords "ret" 2000 "value" with ending := .leave },
      { ofWords "retVoid" 2001 "" with ending := .leave },
      { ofWords "retNull" 2002 "" with ending := .leave },
      { ofWords "printType" 10000 "value" with ending := .nothing },
      { ofWords "debugOp" 10001 "" with ending := .nothing },
      { ofWords "debugOp2" 10002 "" with ending := .nothing }]

private def phiFields : List Value → Run (List Field)
  | [type, values, preds] => do
    let n ← sizeOf values
    let m ← sizeOf preds
    if n ≠ m then throw (.phiArity n m)
    return (← fieldsOf type) ++ (← countedLate values wordField) ++ (← countedLate preds idField)
  | _ => throw .misuse

/-- Where several ways meet; a tracing cursor does not show it. -/
private def phiPlacement : Placement :=
  { name := "phi", opcode := 9997, params := "typed values predBlock", fields := phiFields }

/-! ### Placing -/

def targetOf (v : Value) : Run BlockRef := do
  match v with
  | .block ref => return ref
  | v => modifyGet fun s => (⟨nowhere, s.others.size⟩, { s with others := s.others.push v })

private def placeWords (fields : List Field) : Run BlockRef := do
  let ref ← emit hereBlock
  match fields with
  | .word (.id n) :: _ => announce ref (toString n)
  | _ => pure ()
  emit (placeFields fields)
  return ref

private def nextValue : Run Value := do
  let func := (← emit here).func
  match (← programNow).funcs[func]? with
  | none => throw .noMember
  | some f =>
    emit (modifyFunc func fun f => { f with nextValue := f.nextValue + 1 })
    emit (placeFields [.count f.nextValue])
    return .int f.nextValue

private def Placement.run (p : Placement) (args : List Value) : Run Value := do
  match p.ending with
  | .branch _ => if (← emit hereBlock?).isNone then throw .noBranchSource
  | _ => pure ()
  let fields ← p.fields args
  let ref ← placeWords (.count p.opcode :: fields)
  match p.ending with
  | .value => nextValue
  | .nothing => return .none
  | .leave =>
    dropDetail (.block ref) .returns
    emit (modifyBlock ref fun b => { b with returns := true, locked := true })
    return .none
  | .branch place =>
    let targets ← (args.drop place).mapM targetOf
    emit (modifyBlock ref fun b => { b with
      branches := b.branches ++ targets.toArray, locked := true })
    return .none

private def Placement.command (p : Placement) : Command :=
  { params := (Session.command p.params (pure () : Run Unit)).params
    defaults := p.defaults
    run := p.run }

/-! ### Cursors -/

def newBlock (func : Nat) (label : Value) : Run Value := do
  if func < (← programNow).funcs.size then
    let ref ← emit (addBlock func label.text?)
    if label.text?.isNone && !label.isNone then setAspect (.block ref) .label label
    return .block ref
  else throw .noMember

def moveToBlock (v : Value) : Run BlockRef := do
  match v with
  | .block ref =>
    emit (setBlock ref)
    return ref
  | _ => throw .noMember

def hereValue : Run Value := return .ofOption .block (← emit hereBlock?)

def cursorCommands : Commands :=
  [("createBlock", (command "label" fun (label : Value) => (do
      newBlock (← emit here).func label : Run Value)).withDefaults [.none]),
    ("moveTo", command "block" fun (v : Value) => (do discard (moveToBlock v) : Run Unit)),
    ("currentBlock", plainly hereValue), ("totalBlock", plainly hereValue),
    ("totalValue", plainly (throw .noMember)),
    ("writer", plainly (return .blockWriter (← emit hereBlock))),
    ("bytes", plainly (return .bytesOf (.blockWriter (← emit hereBlock)))),
    ("phi", phiPlacement.command)]

def findPlacement (name : String) : Option Placement := placements.find? (·.name == name)

def place (name : String) (args : List Value) : Run Value := do
  match findPlacement name with
  | some p => p.run args
  | none => throw .noMember

def cursorMethod (name : String) : Option Command :=
  match findPlacement name with
  | some p => some p.command
  | none => cursorCommands.lookup name

def newCursor (func : Value) : Run Nat :=
  build (Program.newCursor (match func with | .func i => i | _ => nowhere))

/-- A command of a tracing cursor. An instruction arms it before its arguments are looked at. -/
def tracerMethod (i : Nat) (t : Tracer) (name : String) : Option Command :=
  match findPlacement name with
  | some p => some <| freely fun a => atCursor t.cursor do
      arm i t ((titles.lookup p.opcode).getD "")
      let result ← p.command.call a
      traceEnd a.given result
      return result
  | none =>
    match name with
    | "moveTo" => some <| command "block" fun (v : Value) => atCursor t.cursor do
        let ref ← moveToBlock v
        setObject i (.tracer { t with watched := ref :: t.watched.erase ref })
    | name => (cursorCommands.lookup name).map fun c =>
        { c with run := fun args => atCursor t.cursor (c.run args) }

end Lowering.Session
