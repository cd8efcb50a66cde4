import Lowering.Emit.Condition
import Lowering.Emit.Method

/-!
Operators. Between objects an operator is a call; a comparison ends as the truth value that the
built-in conversion gives.
-/
namespace Lowering.Operator

def binaryFunction? : Operator → Option String
  | add => some "PyNumber_Add"
  | and => some "PyNumber_And"
  | floorDiv => some "PyNumber_FloorDivide"
  | lShift => some "PyNumber_Lshift"
  | matMult => some "PyNumber_MatrixMultiply"
  | mult => some "PyNumber_Multiply"
  | or => some "PyNumber_Or"
  | pow => some "_PyNumber_PowerNoMod"
  | rShift => some "PyNumber_Rshift"
  | sub => some "PyNumber_Subtract"
  | div => some "PyNumber_TrueDivide"
  | bitXor => some "PyNumber_Xor"
  | _ => none

def inPlaceFunction? : Operator → Option String
  | add => some "PyNumber_InPlaceAdd"
  | and => some "PyNumber_InPlaceAnd"
  | floorDiv => some "PyNumber_InPlaceFloorDivide"
  | lShift => some "PyNumber_InPlaceLshift"
  | matMult => some "PyNumber_InPlaceMatrixMultiply"
  | mult => some "PyNumber_InPlaceMultiply"
  | or => some "PyNumber_InPlaceOr"
  | pow => some "_PyNumber_InPlacePowerNoMod"
  | rShift => some "PyNumber_InPlaceRshift"
  | sub => some "PyNumber_InPlaceSubtract"
  | div => some "PyNumber_InPlaceTrueDivide"
  | bitXor => some "PyNumber_InPlaceXor"
  | _ => none

def isComparison : Operator → Bool
  | eq | notEq | lt | ltE | gt | is | isNot | isIn | notIn => true
  | _ => false

def isSpecialComparison : Operator → Bool
  | notIn | is | isNot => true
  | _ => false

/-- The method that an operator calls; empty for those that have none. -/
def methodName (op : Operator) : Except Fault String :=
  match op with
  | notIn | is | isNot => .error (.operatorWithoutMethod op.className)
  | add => .ok "__add__"
  | sub => .ok "__sub__"
  | div => .ok "__div__"
  | floorDiv => .ok "__floordiv"
  | and => .ok "and_"
  | bitAnd => .ok "__and__"
  | or => .ok "or_"
  | bitOr => .ok "__or__"
  | bitXor => .ok "__xor__"
  | pow => .ok "__pow__"
  | lShift => .ok "__lshift__"
  | rShift => .ok "__rshift__"
  | mod => .ok "__mod__"
  | mult => .ok "__mul__"
  | matMult => .ok "__mul__"
  | eq => .ok "__eq__"
  | notEq => .ok "__ne__"
  | lt => .ok "__lt__"
  | ltE => .ok "__le__"
  | gt => .ok "__gt__"
  | gtE => .ok "__ge__"
  | isIn => .ok "__contains__"
  | _ => .ok ""

def text (op : Operator) : String := "<ast." ++ op.className ++ " object>"

end Lowering.Operator

namespace Lowering.Emit

def isObject (t : ValueType) : Bool := t.isObj || t.isPython || t.isCollection

def builtinBool (result : Term) : Emit Term := do
  let module ← load (← globalVar (← build (Program.known! (·.builtins))))
  callMethod "bool" module (some .python) [result.value] [result.type]

/-- Plain operands of an arithmetic operator are never brought together. -/
def arithmetic : Emit Term := throw .misuse

/-- Brings two plain operands to one type; a truth value counts as its negated integer. -/
def unify (left right : Term) : Emit (Term × Term) := do
  let l ← known left.type
  let toFloat (v : Operand) : Emit Term := return ⟨some .decimal, ← floatCast v .double⟩
  let toInt (v : Operand) : Emit Term := return ⟨some .integer, ← intCast v .int64⟩
  let negated (t : Term) : Emit Term := return ⟨t.type, ← unary .neg t.value⟩
  if l.isDec then
    let r ← known right.type
    if r.isInt || r.isBool then return (left, ← toFloat right.value) else return (left, right)
  else if l.isInt then
    let r ← known right.type
    if r.isDec then return (← toFloat left.value, right)
    else if r.isBool then
      let right ← toInt right.value
      return (left, ← negated right)
    else return (left, right)
  else if l.isBool then
    let r ← known right.type
    let (left, right) ←
      if r.isDec then do pure (← toFloat left.value, right)
      else if r.isInt then do pure (← toInt left.value, right)
      else if r.isBool then do
        let left ← toInt left.value
        let right ← toInt right.value
        pure (left, ← negated right)
      else pure (left, right)
    return (← negated left, right)
  else return (left, right)

def typeText (type : Option ValueType) : Emit String :=
  match type with
  | some t => lift t.text
  | none => return "None"

/-- Whether two values are the same object, or on request whether they are not. -/
def identity (negated : Bool) (left right : Term) : Emit Term := do
  let l ← box left.value left.type
  let r ← box right.value right.type
  let same ← eq l.value r.value
  return ⟨some .boolean, ← if negated then unary .not same else pure same⟩

/-- The comparisons that are no method: identity, and absence from a collection. -/
def specialComparison (op : Operator) (left right : Term) : Emit Term := do
  match op with
  | .notIn =>
    let result ← callMethod "__contains__" right.value right.type [left.value] [left.type]
    builtinBool result
  | .is | .isNot =>
    print ("using is for " ++ (← typeText left.type) ++ " and " ++ (← typeText right.type))
    identity (op = .isNot) left right
  | _ => throw .operatorNotSpecial

def methodComparison (name : String) (left right : Term) : Emit Term := do
  let result ← callMethod name left.value left.type [right.value] [right.type]
  builtinBool result

/-- A comparison of objects; the right side says whether it holds the left one. -/
def objectComparison (op : Operator) (left right : Term) : Emit Term := do
  if op.isSpecialComparison then specialComparison op left right
  else
    let name ← lift op.methodName
    if name = "__contains__" then methodComparison name right left
    else methodComparison name left right

def plainComparison (op : Operator) (left right : Term) : Emit Term := do
  match op with
  | .and | .bitAnd => return ⟨some .boolean, ← binary .and left.value right.value⟩
  | .or | .bitOr => return ⟨some .boolean, ← binary .or left.value right.value⟩
  | .is =>
    let l ← box left.value left.type
    let r ← box right.value right.type
    return ⟨some .boolean, ← eq l.value r.value⟩
  | .isNot =>
    let l ← box left.value left.type
    let r ← box right.value right.type
    return ⟨some .boolean, ← ne l.value r.value⟩
  | _ => throw .misuse

def anyObject (left right : Term) : Emit Bool := do
  if isObject (← known left.type) then return true
  else return isObject (← known right.type)

def comparison (op : Option Operator) (left right : Term) : Emit Term := do
  let op := op.getD (.other "NoneType")
  if ← anyObject left right then objectComparison op left right
  else plainComparison op left right

def connective (op : Option Operator) (left right : Term) : Emit Term := do
  match op with
  | some .and => both "__and__" .and
  | some .or => both "__or__" .or
  | some op => throw (.operatorNotDone op.text)
  | none => throw (.operatorNotDone "None")
where
  both (name : String) (plain : Binary) : Emit Term := do
    let l ← known left.type
    if isObject l then callMethod name left.value left.type [right.value] [right.type]
    else if l.isPrimitive then
      return ⟨some .boolean, ← binary plain left.value right.value⟩
    else throw .operationNotDone

def negation (operand : Term) : Emit Term := do
  let t ← known operand.type
  if isObject t then
    callMethod "__not__" operand.value operand.type [operand.value] [operand.type]
  else
    let zero ←
      if t.isInt then int64 0
      else if t.isDec then assign (.float64 (some ⟨0⟩))
      else if t.isBool then int1 false
      else throw .operandUnfit
    return ⟨some .boolean, ← eq operand.value zero⟩

/-- The complement of a value; of a float it is an error of the source. -/
def complement (operand : Term) (node : Node) : Emit (Option Term) := do
  let t ← known operand.type
  if isObject t then
    return some (← callMethod "__not__" operand.value operand.type [operand.value] [operand.type])
  else if t.isInt then
    discard (int64 1)
    return some (← arithmetic)
  else if t.isDec then
    requireTree
    match node.span with
    | none => throw .noMember
    | some span =>
      report "TypeError: bad operand type for unary ~: 'float'" span.line span.column
      return none
  else if t.isBool then
    let value ← intCast operand.value .int64
    discard (unary .neg value)
    discard (int64 1)
    return some (← arithmetic)
  else return none

def plus (operand : Term) : Emit (Option Term) := do
  let t ← known operand.type
  if isObject t then
    return some (← callMethod "__pos__" operand.value operand.type [operand.value] [operand.type])
  else if t.isInt || t.isDec then return some operand
  else if t.isBool then
    let value ← intCast operand.value .int64
    return some ⟨some .integer, ← unary .neg value⟩
  else return none

def minus (operand : Term) : Emit (Option Term) := do
  let t ← known operand.type
  if isObject t then
    return some (← callMethod "__neg__" operand.value operand.type [operand.value] [operand.type])
  else if t.isInt then return some ⟨some .integer, ← unary .neg operand.value⟩
  else if t.isDec then return some ⟨some .decimal, ← unary .neg operand.value⟩
  else if t.isBool then return some ⟨some .integer, ← intCast operand.value .int64⟩
  else return none

def operatorOf (node : Node) : Emit (Option Operator) :=
  match node.form with
  | .binOp _ op _ | .unaryOp op _ | .boolOp op _ | .augAssign _ op _ => return op
  | _ => throw .noMember

def unaryOperator (operand : Term) (node : Node) : Emit (Option Term) := do
  let t ← known operand.type
  if isObject t then
    let name ← match ← operatorOf node with
      | some op => lift op.methodName
      | none => pure ""
    return some (← callMethod name operand.value operand.type [operand.value] [operand.type])
  else
    match ← operatorOf node with
    | some .not => return some (← negation operand)
    | some .invert => complement operand node
    | some .uAdd => plus operand
    | some .uSub => minus operand
    | _ => return none

attribute [reducible] objectComparison methodComparison identity anyObject builtinBool

end Lowering.Emit
