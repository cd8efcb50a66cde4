import Lowering.Emit.Debug
import Lowering.Session.Tables

/-!
Commands that emit code for the operations of the compiled language: collections, calls, operators,
exceptions and reference counts. What is given instead of a name, a list or a lowering is a fault
only where it is used.
-/
namespace Lowering.Session

open Emit

/-! ### Arguments -/

def labelOf (v : Value) : Run Label := do
  let size : Except Fault Nat := match ← size? v with
    | some n => .ok n
    | none => .error .misuse
  match constantOf? v with
  | some c => return ⟨v.text?, .ok c, size⟩
  | none =>
    try
      discard (keyOf v)
      return ⟨none, .error (.constantRejected (← classOf v).text), size⟩
    catch e => return ⟨none, .error e, size⟩

instance : Argument Label := ⟨labelOf⟩

private def batchOf {α : Type} (read : Value → Run α) (v : Value) : Run (Batch α) := do
  match ← items? v with
  | none => return .single
  | some items =>
    let read ← items.mapM read
    match ← listItems? v, ← size? v with
    | some _, _ => return .list read
    | none, some _ => return .fixed read
    | none, none => return .stream read

instance {α : Type} [Argument α] : Argument (Batch α) := ⟨batchOf Argument.read⟩

instance : Argument Keywords := ⟨fun v => do
  match v with
  | .dict keys values =>
    let keys ← keys.mapM operandOf
    return .pairs (keys.zip (← values.mapM operandOf))
  | v =>
    match ← size? v with
    | some n => return .names n
    | none => return .unsized (← isTruthy v)⟩

def nodeOf : Value → Node
  | .node n => n
  | _ => .absent

instance : Argument Node := ⟨fun v => return nodeOf v⟩

private def operatorOf : Value → Operator
  | .operator op => op
  | .node n => Operator.ofClassName n.className
  | _ => .other ""

instance : Argument Operator := ⟨fun v => return operatorOf v⟩

instance : Argument Opcode := ⟨fun
  | .opcode arg => return { name := "", arg := arg.toInt?, offset := 0, isTarget := false, line := none }
  | _ => throw .noMember⟩

private def given? (o : Operand) : Option Operand := if o = .absent then none else some o

private def isLowerer : Value → Bool
  | .lowerer => true
  | _ => false

/-! ### Collections -/

def listCommands : Commands :=
  [("new", building "len" Emit.newList), ("set", lowering "list index item" listSet),
    ("append", lowering "list itemType item" listAppend),
    ("capacityPtr", lowering "list" listCapacityPtr), ("contentPtr", lowering "list" listContentPtr),
    ("item", lowering "listType list index" listItem),
    ("itemUnchecked", lowering "listType list index" listItemUnchecked),
    ("itemPtr", lowering "listType list index" listItemPtr),
    ("lengthPtr", lowering "list" listLengthPtr), ("length", lowering "list" listLength)]

def tupleCommands : Commands :=
  [("new", building "size" newTuple), ("newOnStack", lowering "size" newStackTuple),
    ("set", building "tuple index item" tupleSet), ("fill", lowering "tuple index item" tupleFill),
    ("contentPtr", lowering "tuple" tupleContentPtr),
    ("item", lowering "tupleType tuple index" fun (_ : Value) => tupleItem),
    ("itemPtr", lowering "tupleType tuple index" fun (_ : Value) => tupleItemPtr),
    ("sizePtr", lowering "tuple" tupleSizePtr), ("length", lowering "tuple" tupleLength)]

def dictCommands : Commands :=
  [("new", lowering "" newDict), ("set", lowering "dict key value" dictSet),
    ("get", lowering "dict key" dictGet), ("delete", lowering "dict key" dictDelete),
    ("length", lowering "dict" dictLength), ("keys", lowering "dict" dictKeys)]

def setCommands : Commands :=
  [("new", lowering "obj" newSet), ("add", lowering "setObj item" setAdd),
    ("length", lowering "setObj" setLength)]

def sliceCommands : Commands := [("new", lowering "start stop step" newSlice)]

/-! ### Numbers -/

/-- Whether a value is among names; it has to be one that can be looked up. -/
private def isListed (p : String → Bool) (v : Value) : Run Bool := do
  discard (keyOf v)
  return v.text?.any p

private def isNamed (s : String) (v : Value) : Run Bool := equal v (.text s)

private def isInquiryName (v : Value) : Run Bool := isNamed "__bool__" v

private def isCount (k : Nat) (n : Value) : Run Bool := equal n (.int k)

private def both (x y : Run Bool) : Run Bool := do if ← x then y else return false

private def either (x y : Run Bool) : Run Bool := do if ← x then return true else y

private def isProtocolName (v : Value) : Run Bool :=
  either (isListed isNumberBinary v) (either (isInquiryName v) (isListed isNumberTernary v))

private def fitsProtocol (v n : Value) : Run Bool :=
  either (both (isListed isNumberTernary v) (isCount 2 n)) <|
    either (both (isInquiryName v) (isCount 0 n)) <|
      either (both (isListed isNumberUnary v) (isCount 0 n))
        (both (isListed isNumberBinary v) (isCount 1 n))

private def slotNamed (v : Value) : Run Nat := do
  discard (keyOf v)
  match v.text?.bind numberSlot? with
  | some n => return n
  | none => throw .noKey

/-- A call of the number protocol; a wrong number of arguments shows them as they were given. -/
private def callNumberWith (name : Label) (type : Option ValueType) (object instanceType : Operand)
    (types : Batch (Option ValueType)) (args : Value) : Run Operand := do
  let operands ← Argument.read args
  try perform (callNumber name type object instanceType types operands)
  catch
    | .argumentCount _ name => throw (.argumentCount (← text args) name)
    | e => throw e

private def grow (v item : Value) : Run Unit := do
  match v, ← list? v with
  | .object i, some items => setObject i (.list (items ++ [item]))
  | _, _ => return ()

/-- Completes the arguments of a power in the lists that were given. -/
private def completeGiven (name args types target : Value) : Run Bool := do
  unless ← isNamed "__pow__" name do return false
  let n ← sizeOf args
  if n = 1 then
    unless isLowerer target do throw .noMember
    let completed ← perform (completePower "__pow__" (← Argument.read args) .empty)
    match completed with
    | some (.list operands, _) =>
      grow args (← valueOf (operands.getLastD .absent))
      match ← listItems? types with
      | some _ => grow types (← newOfKind .none)
      | none => throw .noMember
    | _ => pure ()
  return (← sizeOf args) = 2

def numberCommands : Commands :=
  [("call", lowering "funcName objType obj instanceType argsTypes args" callNumberWith),
    ("isProtocol", command "funcName" isProtocolName),
    ("isBinary", command "funcName" (isListed isNumberBinary)),
    ("isInquiry", command "funcName" isInquiryName),
    ("isTernary", command "funcName" (isListed isNumberTernary)),
    ("isUnary", command "funcName" (isListed isNumberUnary)),
    ("fits", command "funcName argsCount" fitsProtocol),
    ("isBinaryCall", command "funcName lenArgs" fun (v n : Value) =>
      both (isListed isNumberBinary v) (isCount 1 n)),
    ("isTernaryCall", command "funcName lenArgs" fun (v n : Value) =>
      both (isListed isNumberTernary v) (isCount 2 n)),
    ("isInquiryCall", command "funcName lenArgs" fun (v n : Value) =>
      both (isInquiryName v) (isCount 0 n)),
    ("slot", command "funcName" slotNamed),
    ("table", (lowering "objType obj instanceType" fun (_ : Value) => numberTable).withDefaults
      [.none]),
    ("completePower", command "funcName args argsType lowering" completeGiven)]

/-- A call of the iterator protocol. The name is looked at first. -/
private def iterateBy (target name : Value) (object : Operand) : Run Operand := do
  let isKnown ← either (isNamed "__next__" name) (isNamed "__iter__" name)
  if isKnown && !isLowerer target then throw .noMember
  perform (callIterator (← labelOf name) object)

def iteratorCommands : Commands :=
  [("isName", command "name" fun (v : Value) =>
      either (isNamed "__next__" v) (isNamed "__iter__" v)),
    ("call", command "lowering name obj" iterateBy),
    ("next", lowering "obj" callNextSlot)]

def comparisonCommands : Commands :=
  [("isName", command "funcName" (isListed fun s => (compareCode? s).isSome)),
    ("code", command "funcName" fun (v : Value) => (do
      discard (keyOf v)
      return v.text?.bind compareCode? : Run (Option Nat))),
    ("call", lowering "funcName objType obj instanceType argsTypes args" callCompare)]

/-! ### Operators -/

private def functionOf (f : Operator → Option String) (op : Operator) : Except Fault String :=
  match f op with
  | some name => .ok name
  | none => .error .noKey

private def onTerms {β : Type} [Answer β] (params : String) (f : Operator → Term → Term → Emit β) :
    Command :=
  lowering params fun (op : Operator) (leftType : Option ValueType) (left : Operand)
    (rightType : Option ValueType) (right : Operand) => f op ⟨leftType, left⟩ ⟨rightType, right⟩

private def isObjectType (t : ValueType) : Bool := t.isObj || t.isPython || t.isCollection

/-- Brings two values to one type; the lowering is needed only where one is converted. -/
private def unified (target : Value) (leftType : Option ValueType) (left : Operand)
    (rightType : Option ValueType) (right : Operand) (l r : Value) : Run Value := do
  let x := perform (unify ⟨leftType, left⟩ ⟨rightType, right⟩)
  let (a, b) ← if isLowerer target then x else withoutCursor x
  let type (before after : Option ValueType) (v : Value) : Run Value := do
    if before.map ValueType.kind = after.map ValueType.kind then return v else answer after
  let leftType ← type leftType a.type l
  let rightType ← type rightType b.type r
  return .tuple [leftType, ← valueOf a.value, rightType, ← valueOf b.value]

private def unifiedGiven (target l : Value) (left : Operand) (r : Value) (right : Operand) :
    Run Value := do
  unified target (← type? l) left (← type? r) right l r

/-- A connective; the lowering is needed only for values that can be connected. -/
private def connected (target op : Value) (leftType : Option ValueType) (left : Operand)
    (rightType : Option ValueType) (right : Operand) : Run Term := do
  match operatorOf op with
  | .and | .or =>
    let t ← need leftType
    if isLowerer target || !(isObjectType t || t.isPrimitive) then
      perform (connective (some (operatorOf op)) ⟨leftType, left⟩ ⟨rightType, right⟩)
    else throw .noMember
  | _ => throw (.operatorNotDone (← text op))

/-- A comparison that is no method; identity is announced with the types as they were given. -/
private def specially (op : Operator) (leftType : Value) (left : Operand) (rightType : Value)
    (right : Operand) : Run Term := do
  let l : Term := ⟨← type? leftType, left⟩
  let r : Term := ⟨← type? rightType, right⟩
  match op with
  | .is | .isNot =>
    print ("using is for " ++ (← text leftType) ++ " and " ++ (← text rightType) ++ "\n")
    perform (identity (op = .isNot) l r)
  | op => perform (specialComparison op l r)

/-- An operator on one value. Without a lowering only values that stay as they are have a result. -/
private def onTerm (target : Value) (type : Option ValueType) (value : Operand)
    (needed : ValueType → Bool) (f : Term → Emit (Option Term)) : Run (Option Term) := do
  let t ← need type
  if isLowerer target || !(isObjectType t || needed t) then perform (f ⟨type, value⟩)
  else throw .noMember

/-- A term as a value. A type that is passed on unchanged stays the same object. -/
private def passingOn (type : Value) (unchanged : ValueType → Bool) (t : Option Term) :
    Run (Option Value) := do
  match t with
  | none => return none
  | some t =>
    if (← type? type).any unchanged then return some (.tuple [type, ← valueOf t.value])
    else return some (← answer t)

private def isNumber (t : ValueType) : Bool := t.isInt || t.isDec

private def plusOf (target type : Value) (value : Operand) : Run (Option Value) := do
  passingOn type isNumber (← onTerm target (← type? type) value ValueType.isBool plus)

private def minusOf (target : Value) (type : Option ValueType) (value : Operand) :
    Run (Option Term) :=
  onTerm target type value ValueType.isPrimitive minus

private def complementOf (target : Value) (type : Option ValueType) (value : Operand) (node : Node) :
    Run (Option Term) :=
  onTerm target type value ValueType.isPrimitive fun t => complement t node

private def unaryOf (target shownType : Value) (value : Operand) (node : Node) :
    Run (Option Value) := do
  let type ← type? shownType
  let t ← need type
  if isLowerer target then
    let isPlus := match node.form with
      | .unaryOp (some .uAdd) _ => true
      | _ => false
    passingOn shownType (fun t => isPlus && isNumber t) (← perform (unaryOperator ⟨type, value⟩ node))
  else
    let op ← emit (Emit.operatorOf node)
    if isObjectType t then
      discard (lift ((op.map Operator.methodName).getD (.ok "")))
      throw .noMember
    match op with
    | some .not => throw .noMember
    | some .invert => passingOn shownType (fun _ => false) (← complementOf target type value node)
    | some .uAdd => plusOf target shownType value
    | some .uSub => passingOn shownType (fun _ => false) (← minusOf target type value)
    | _ => return none

private def comparisonChain (n : Node) : Emit (Option Term) := do
  match n.form with
  | .compare left ops comparators =>
    requireTree
    Lower.compareTerm (Lower.recur n.depth) left ops comparators
  | _ => throw .noMember

def operatorCommands : Commands :=
  [("method", command "op" Operator.methodName),
    ("isComparison", command "op" fun (op : Operator) => (return op.isComparison : Run Bool)),
    ("isSpecial", command "op" fun (op : Operator) => (return op.isSpecialComparison : Run Bool)),
    ("function", command "op" (functionOf Operator.binaryFunction?)),
    ("inPlaceFunction", command "op" (functionOf Operator.inPlaceFunction?)),
    ("unify", command "lowering typeLeft valueLeft typeRight valueRight" unifiedGiven),
    ("arithmetic", lowering "op typeLeft valueLeft typeRight valueRight"
      fun (_ _ _ _ _ : Value) => arithmetic),
    ("connective", command "lowering op leftType leftValue rightType rightValue" connected),
    ("comparison", onTerms "op typeLeft firstValue typeRight secondValue" fun op =>
      comparison (some op)),
    ("specialComparison", lowering "op typeLeft firstValue typeRight secondValue" specially),
    ("unary", command "lowering type value node" unaryOf),
    ("complement", command "lowering type value node" complementOf),
    ("negation", lowering "type value" fun (type : Option ValueType) (value : Operand) =>
      negation ⟨type, value⟩),
    ("plus", command "lowering type value" plusOf), ("minus", command "lowering type value" minusOf),
    ("chain", lowering "node" comparisonChain)]

private def conditionOf (type : Value) (value : Operand) : Run (Option Value) := do
  passingOn type ValueType.isBool (← perform (condition? (← type? type) value))

def conditionCommands : Commands :=
  [("isTrue", lowering "valueType value" Emit.isTrue), ("of", lowering "valueType value" conditionOf)]

/-! ### Calls -/

private def callNamed (name : Label) (object : Operand) (type : Option ValueType)
    (args : Batch Operand) (types : Batch (Option ValueType)) (keywords : Keywords)
    (_isOptional protocols _shortcuts : Bool) : Emit Term :=
  if protocols then callMethod name object type args types keywords
  else callDirect name object type args types keywords

def callCommands : Commands :=
  [("method", (lowering "funcName obj objType args argsType kwargs optional protocol shortcuts"
      callNamed).withDefaults [.dict [] [], .bool false, .bool true, .bool true]),
    ("callable", lowering "obj callable args kwargs" callCallable),
    ("attribute", lowering "obj funcName args kwargs" callAttribute)]

def objectCommands : Commands :=
  [("attribute", (lowering "obj name objType" fun (object : Operand) (name : Label)
      (type : Operand) => getAttribute object name (given? type)).withDefaults [.none]),
    ("setAttribute", (lowering "obj name objSet objType" fun (object : Operand) (name : Label)
      (value type : Operand) => setAttribute object name value (given? type)).withDefaults [.none]),
    ("deleteAttribute", lowering "obj name" deleteAttribute),
    ("attributeStart", command "" (return attributeStart : Run Nat)),
    ("typePtr", placing "obj" typePtr), ("type", placing "obj" typeOf),
    ("getterPtr", lowering "obj" fun (o : Operand) => slotPtr o getAttrSlot),
    ("objectGetterPtr", lowering "obj" fun (o : Operand) => slotPtr o getAttrObjectSlot),
    ("setterPtr", lowering "obj" fun (o : Operand) => slotPtr o setAttrSlot),
    ("objectSetterPtr", lowering "obj" fun (o : Operand) => slotPtr o setAttrObjectSlot),
    ("allocate", lowering "langClass" fun (_ : Value) => (throw .noMember : Run Value))]

def typeCommands : Commands :=
  [("isOf", onProgram "cursor type value valueToBe" fun (_ _ _ _ : Value) =>
      (throw .unknownName : Run Value)),
    ("deallocPtr", lowering "type" fun (o : Operand) => slotPtr o deallocSlot),
    ("numberPtr", lowering "type" fun (o : Operand) => slotPtr o numberSlot),
    ("comparePtr", lowering "type" fun (o : Operand) => slotPtr o compareSlot),
    ("iterNextPtr", lowering "type" fun (o : Operand) => slotPtr o iterNextSlot),
    ("iterPtr", lowering "type" fun (o : Operand) => slotPtr o iterSlot),
    ("vectorOffsetPtr", lowering "type" fun (o : Operand) => slotPtr o vectorOffsetSlot)]

def functionCommands : Commands :=
  [("isFunction", lowering "funcToCall" isFunction),
    ("vectorCallPtr", lowering "pythonCallable" vectorCallPtr),
    ("callByVector", lowering "obj funcToCall args kwargs vectorCallPtr" callByVector),
    ("callByTuple", lowering "obj funcToCall args kwargs" fun (_ : Value) => callByTuple),
    ("vectorPtr", lowering "func" functionVectorPtr),
    ("tupleCallPtr", lowering "funcType" tupleCallPtr), ("flagsPtr", lowering "funcType" flagsPtr),
    ("isMethod", (command "obj" isMethod).onLowerer "visit"),
    ("globals", lowering "funcObj" functionGlobals),
    ("builtins", lowering "funcObj" functionBuiltins), ("dictGet", lowering "d k" dictGet)]

/-! ### The run-time library -/

/-- A function on the program, a cursor and a text, which is written before the program is asked. -/
private def onText (params : String) (whole : Label → Emit Operand) (start : Label → Emit Operand) :
    Command :=
  command ("program cursor " ++ params) fun (source cursor : Value) (l : Label) =>
    usingCursor cursor (match source with
      | .program => perform (whole l)
      | _ => do
        discard (perform (start l))
        throw .noMember)

private def textPtr (l : Label) : Emit Operand := do ptrCast (← globalText l) .int8Ptr

private def loadedText (l : Label) : Emit Operand := do
  let text ← globalText l
  discard (load text)
  ptrCast text .int8Ptr

private def decoded (v : Value) : Run String := do
  let bytes ← match v with
    | .constant (.bytes bs) => pure bs
    | .bytesOf w => pure ((← writtenBytes w).getD [])
    | _ => throw .noMember
  match String.fromUTF8? ⟨bytes.toArray⟩ with
  | some s => return s
  | none => throw .undecodable

private def newBytesOf (source cursor v : Value) : Run Operand := do
  unless ← isCursor cursor do throw .noMember
  usingCursor cursor do
    let s ← decoded v
    match source with
    | .program => perform (newBytes s.toUTF8.toList)
    | _ =>
      discard (perform (textPtr s))
      throw .noMember

def runtimeCommands : Commands :=
  [("newBytes", command "program cursor byteStr" newBytesOf),
    ("newTextFrom", building "str" newTextFrom), ("dictGet", building "d k" dictGet),
    ("allocate", building "valueSize" allocate), ("free", building "memoryToFree" free),
    ("newText", onText "value" newText textPtr), ("start", building "" startRuntime),
    ("box", lowering "value valueType" box)]

def generatorCommands : Commands := [("new", building "" newGenerator)]

def moduleCommands : Commands := [("load", onText "name" importModule loadedText)]

def exceptionCommands : Commands :=
  [("print", building "" printError), ("clear", building "" clearError),
    ("pending", building "" pendingError),
    ("raise", (lowering "type value" fun (type value : Operand) => raise type value).withDefaults
      [.none]),
    ("raiseIndexError", lowering "" raiseIndexError),
    ("raiseAssertionError", lowering "obj" fun (_ : Value) => raiseAssertionError),
    ("check", lowering "valueToCheck" checkException), ("toHandler", lowering "" toHandler)]

def debugCommands : Commands :=
  [("distance", lowering "v1 v2" showDistance), ("vectorSupport", lowering "callable" showVectorSupport),
    ("vector", lowering "callable ptr" showVector), ("int", building "value" showInt),
    ("bool", lowering "value" showBool), ("count", building "value" showCount),
    ("ptr", building "value" showPtr)]

/-! ### Reference counts -/

private def firstType : List Value → Run (Option Value)
  | [] => return none
  | v :: rest => do
    match ← typeParts? v with
    | some _ => return some v
    | none => firstType rest

/-- Whether the first type among values is one of counted values. -/
private def isCountedAmong (vs : List Value) : Run Bool := do
  match ← firstType vs with
  | some v => (← typeParts v).isCounted
  | none => return false

/-- Takes a command that does nothing, whatever it is given, unless the type among its arguments is
one of counted values. -/
private def ifCounted (c : Command) : Command := freely fun a => do
  let named ← match a.named.lookup "valueType" with
    | some v => if ← isTruthy v then pure (some v) else pure none
    | none => pure none
  let type ← match named with
    | some v => pure (some v)
    | none => firstType a.given
  match type with
  | some v => if ← (← typeParts v).isCounted then c.call a else return .none
  | none => return .none

private def countPtrOf (_ : Value) (value : Operand) : Emit (Option Operand) :=
  countPtr (some .python) value

private def retainGiven (cursor type value : Value) : Run Unit := do
  if ← isCountedAmong [cursor, type, value] then
    let o ← operandOf value
    usingCursor cursor (perform (Emit.retain (some .python) o))

/-- What is asked of a count. A type in the place of the cursor is taken for that of the object. -/
private def countOf (cursor : Value) (x : Emit (Option Operand)) : Run (Option Operand) := do
  match ← typeParts? cursor with
  | some t => if ← t.isCounted then throw .noMember else return none
  | none => usingCursor cursor (perform x)

private def releaseUnlessNull (type : Option ValueType) (value : Operand) : Emit Unit := do
  match type with
  | some _ => releaseNullable type value
  | none =>
    discard (createBlock (some "Value Not Null"))
    discard (createBlock (some "After Ref Decrement"))
    throw .noMember

private def isIncremented (v : Value) : Run Bool := do
  for h in ← listAt (← typeParts v).hints do
    match ← object? h with
    | some (.hint .refIncr _) => return true
    | _ => pure ()
  return false

private def releaseAll (_ types values : Value) : Run Unit := do
  for (_, i) in (← itemsOf values).zipIdx do
    discard (itemOf types (.int i))
    discard (itemOf values (.int i))

private def releaseAllRetained (_ types values : Value) : Run Unit := do
  for (_, i) in (← itemsOf values).zipIdx do
    if ← isIncremented (← itemOf types (.int i)) then discard (itemOf values (.int i))

def countingCommands : Commands :=
  [("ptr", ifCounted (placing "valueType value" countPtrOf)),
    ("retain", ifCounted (command "cursor valueType value" retainGiven)),
    ("release", ifCounted (command "lowering valueType value" fun (_ _ _ : Value) =>
      (return () : Run Unit))),
    ("releaseNullable", ifCounted (lowering "valueType value" releaseUnlessNull)),
    ("isCounted", command "valueType" fun (v : Value) => (do
      (← typeParts v).isCounted : Run Bool)),
    ("count", command "cursor value" fun (cursor : Value) (v : Operand) => countOf cursor (count v)),
    ("setCount", command "cursor obj value" fun (cursor : Value) (o v : Operand) =>
      countOf cursor (setCount o v)),
    ("releaseRetained", command "lowering type value" fun (_ v _ : Value) =>
      (do discard (isIncremented v) : Run Unit)),
    ("releaseAll", command "lowering types values" releaseAll),
    ("releaseAllRetained", command "lowering types values" releaseAllRetained),
    ("releaseVariables", lowering "" releaseVariables)]

/-! ### Unpacking -/

private def targetsOf (v : Value) : Run (List Node) := return (← itemsOf v).map nodeOf

/-- Where the starred target is; the lowering is needed only if there are two. -/
private def starredIn (target targets : Value) : Run (Nat × Int) := do
  let targets ← targetsOf targets
  unless isLowerer target || (targets.filter Lower.isStarred).length < 2 do throw .noMember
  perform (Lower.starredPlaces targets)

private def assignEach (target targets : Value) (type : Option ValueType) (value : Operand)
    (node : Node) : Run Unit := do
  let targets ← targetsOf targets
  unless isLowerer target do throw .noMember
  perform (Lower.unpack (Lower.recur (Node.listDepth targets)) targets ⟨type, value⟩ node)

private def unpackBy (type : Option ValueType) (value : Operand) (before after : Value) :
    Run Unit := do
  let after ← match place? after with
    | some p => if p.same (.finite (-1) 0) then pure (.id (-1)) else operandOf after
    | none => operandOf after
  match before.toInt? with
  | some n => perform (Stack.unpackIterable ⟨type, value⟩ n after)
  | none =>
    match place? before with
    | some p =>
      if p.isBelow (.finite 0 0) || p.same (.finite 0 0) then
        return ← perform (Stack.unpackIterable ⟨type, value⟩ 0 after)
    | none => pure ()
    perform do
      discard (createBlock (some "After Unpack"))
      discard (callMethod "__iter__" value type .empty .empty)
    if (place? before).isSome then discard (perform (createBlock (some "Test Next")))
    throw .misuse

def unpackCommands : Commands :=
  [("assign", command "lowering targets valueType value node" assignEach),
    ("starredPlaces", command "lowering targets" starredIn),
    ("assignOne", lowering "target valueType value node" fun (target : Node)
        (type : Option ValueType) (value : Operand) (node : Node) =>
      Lower.assignTo (Lower.recur target.depth) node target.depth target ⟨type, value⟩),
    ("sized", lowering "seqType seq instr" fun (type : Option ValueType) (value : Operand)
      (op : Opcode) => Stack.unpackSized ⟨type, value⟩ op),
    ("iterable", lowering "seqType seq argCount argCountAfter" unpackBy)]

/-! ### Shortcuts -/

private def shortcutOf (type : Option ValueType) (args : Batch (Option ValueType)) (name : Label) :
    Run Value := do
  match ← perform (findShortcut type args name) with
  | some s => return .shortcut s
  | none => return .none

def shortcutCommands : Commands := [("find", command "typeToTest argsToTest name" shortcutOf)]

end Lowering.Session
