import Lowering.Lower.Unpack

/-!
Lowering of expressions. Each leaves its value as the last value of the frame.
-/
namespace Lowering.Lower

open Emit

def operatorFunction (function? : Operator → Option String) (op : Option Operator) :
    Emit String :=
  expect (op.bind function?) .noKey

/-- A binary operator is a call of its library function, whatever the operands are. -/
def binOp (r : Recur) (left : Node) (op : Option Operator) (right : Node) : Emit Unit := do
  let l ← r.term left
  resetLast
  let v ← r.term right
  r.visit (match op with | some op => .leaf op.className | none => .absent)
  let name ← operatorFunction Operator.binaryFunction? op
  let result ← callObjects name [l.value, v.value]
  setLast ⟨some .python, result⟩
  releaseRetained l.type l.value
  releaseRetained v.type v.value

def unaryOp (r : Recur) (op : Option Operator) (operand : Node) : Emit Unit := do
  let o ← r.term operand
  let ptr ← objectPtr
  let (name, result) ← match op with
    | some .uAdd => pure ("PyNumber_Positive", ptr)
    | some .uSub => pure ("PyNumber_Negative", ptr)
    | some .invert => pure ("PyNumber_Invert", ptr)
    | some .not => pure ("PyObject_Not", MachineType.int32)
    | _ => throw .unassigned
  let f ← external name result [ptr]
  let value ← call f [o.value]
  setLast ⟨some .python, value⟩
  if op = some .not then
    let value ← intCast value .int1
    setLast (← box value (some .boolean))

/-- A connective evaluates all its operands, then joins them from the left. -/
def boolOp (r : Recur) (op : Option Operator) (values : Node) : Emit Unit := do
  let terms ← (← each values).mapM r.term
  match terms with
  | [] => throw .outOfRange
  | first :: rest =>
    let result ← rest.foldlM (fun current next => do
      let joined ← connective op current next
      releaseRetained current.type current.value
      return joined) first
    setLast result

/-- One link of a chain of comparisons, joined to the links before it. -/
def compareLink (before : Option Term) (left : Term) (op : Option Operator) (right : Term) :
    Emit (Option Term) := do
  let result ← comparison op left right
  match before with
  | none => return some result
  | some before =>
    let joined ← comparison (some .bitAnd) before result
    releaseRetained result.type result.value
    return some joined

def compareChain :
    Option Term → List (Option Operator) → List Term → Emit (Option Term)
  | before, _, [] => return before
  | before, _, [_] => return before
  | _, [], _ :: _ :: _ => throw .outOfRange
  | before, op :: ops, left :: right :: rest => do
    let result ← compareLink before left op right
    compareChain result ops (right :: rest)

def compareTerms (ops : List (Option Operator)) (terms : List Term) : Emit (Option Term) := do
  match ops, terms with
  | [op], a :: b :: _ => compareLink none a op b
  | [_], _ => throw .outOfRange
  | ops, terms =>
    if ops.length + 1 < terms.length then throw .outOfRange
    let result ← compareChain none ops terms
    let last ← expect terms.getLast? .outOfRange
    releaseRetained last.type last.value
    return result

/-- A chain of comparisons. All operands are evaluated before the first comparison. -/
def compareTerm (r : Recur) (left : Node) (ops : Option (List (Option Operator)))
    (comparators : Node) : Emit (Option Term) := do
  let terms ← (left :: (← each comparators)).mapM r.term
  compareTerms (← expect ops .misuse) terms

def compare (r : Recur) (left : Node) (ops : Option (List (Option Operator))) (comparators : Node) :
    Emit Unit := do
  match ← compareTerm r left ops comparators with
  | some result => setLast result
  | none => throw .misuse

def namedExpr (r : Recur) (target value : Node) : Emit Unit := do
  setAssigned (← r.term value)
  resetLast
  r.visit target

/-- A name is stored to or loaded from its variable, which is made if need be. -/
def name (n : Node) (id : Label) : Emit Unit := do
  match ← usageOf n with
  | some .store =>
    let v ← variableFor id
    let value := (← assigned).value
    discard (store value (slotOperand (← varAt v).slot))
  | some .load =>
    setLastType (some .python)
    let v ← variableFor id
    setLastValue (← load (slotOperand (← varAt v).slot))
  | _ => return ()

def memberOf (r : Recur) (n value : Node) (attr : Label) : Emit Unit := do
  resetLast
  let object ← r.term value
  match ← usageOf n with
  | some .load =>
    let text ← loadText attr
    let result ← callObjects "PyObject_GetAttr" [object.value, text]
    setLast ⟨some .python, result⟩
  | some .store => setAttribute object.value attr (← assigned).value
  | _ => return ()

def subscript (r : Recur) (n value slice : Node) : Emit Unit := do
  let sequence ← r.term value
  let index ← r.term slice
  match ← usageOf n with
  | some .load =>
    setLastValue (← callObjects "PyObject_GetItem" [sequence.value, index.value])
  | some .store =>
    let item := (← assigned).value
    setLastValue (← callObjects "PyObject_SetItem" [sequence.value, index.value, item])
  | _ => pure ()
  setLastType (some .python)

def slicePart (r : Recur) (part : Node) : Emit Operand := do
  if part.isAbsent then globalVar (← build (Program.known! (·.noneVar)))
  else
    let t ← r.term part
    return (← box t.value t.type).value

def slice (r : Recur) (lower upper step : Node) : Emit Unit := do
  let lower ← slicePart r lower
  let upper ← slicePart r upper
  let step ← slicePart r step
  setLastType (some .python)
  setLastValue (← newSlice lower upper step)

def constant (c : Constant) : Emit Unit := do
  setLastType (some .python)
  match c with
  | .none => setLastValue (← globalVar (← build (Program.known! (·.noneVar))))
  | c =>
    let i ← build (Program.constantVar c)
    setLastValue (← load (← globalVar i))

/-- The callee of a call: the name called, after the object whose member it is. -/
def callee (r : Recur) (func : Node) : Emit Label := do
  match func.form with
  | .memberOf value attr _ =>
    r.visit value
    return attr
  | .name id _ => return id
  | _ => throw .calleeShape

def keywordName (r : Recur) (name : Label) : Emit Term := do
  match name.constant with
  | .ok c => r.term (.mk {} (.constant c))
  | .error e =>
    print "<class 'ast.Constant'>"
    throw e

def keywordArg (r : Recur) (keyword : Node) : Emit (Operand × Operand) := do
  resetLast
  let name ← parameterName keyword
  let key ← keywordName r name
  match keyword.form with
  | .keyword _ value =>
    let value ← r.term value
    return (key.value, value.value)
  | _ => throw .noMember

/-- A call of a member: as a method with its object first if it is one, else without. -/
def callMember (object : Operand) (name : Label) (args : List Operand)
    (keywords : Keywords) : Emit Operand := do
  let ptr ← objectPtr
  let result ← entryVar ptr
  let found ← entryVar ptr
  let text ← loadText name
  let f ← external "_PyObject_GetMethod" .int32 [ptr, ptr, ptr.pointerTo]
  let isMethod ← call f [object, text, found]
  let method ← createBlock
  let plain ← createBlock
  let rest ← createBlock
  let zero ← int32 0
  let isMethod ← ne isMethod zero
  condBranch isMethod method plain
  setBlock method
  let callable ← load found
  let value ← callCallable object callable (object :: args) keywords
  discard (store value result)
  branch rest
  setBlock plain
  let value ← callCallable object object args keywords
  discard (store value result)
  branch rest
  setBlock rest
  load result

/-- A call. The object of a called member is whatever value the frame holds last. -/
def callExpr (r : Recur) (func args keywords : Node) : Emit Unit := do
  let name ← callee r func
  let object := (← get).tree.last
  let pairs ← (← each keywords).mapM (keywordArg r)
  let values ← (← each args).mapM fun a => do
    resetLast
    let t ← r.term a
    setLastType none
    return t.value
  setLast object
  if object.value = .absent then
    let callable ← globalObject name
    setLastType (some .python)
    setLastValue (← callCallable callable callable values (.pairs pairs))
  else
    let result ← callMember object.value name values (.pairs pairs)
    setLast ⟨some .python, result⟩

/-- A conditional expression; the values of its two sides have no common form. -/
def ifExp (r : Recur) (test body orelse : Node) : Emit Unit := do
  let yes ← createBlock (some "If True")
  let no ← createBlock (some "If False")
  let rest ← createBlock (some "Continue If")
  let t ← r.term test
  resetLast
  let c ← condition t.type t.value
  condBranch c.value yes no
  setBlock yes
  let a ← r.term body
  branch rest
  resetLast
  setBlock no
  let b ← r.term orelse
  let common ← known (← lift (ValueType.joinAll [a.type, b.type]))
  discard (entryVar (← machineType common))
  setBlock yes
  throw .noMember

def elements (r : Recur) (elts : Node) : Emit (List Term) := do
  (← each elts).mapM fun e => do
    let t ← r.term e
    setLastValue .absent
    return t

def list (r : Recur) (elts : Node) : Emit Unit := do
  let terms ← elements r elts
  let size ← int64 terms.length
  let list ← newList size
  setLast ⟨some .python, list⟩
  for (t, i) in terms.zipIdx do
    let item ← box t.value t.type
    let index ← int64 i
    discard (listSet list index item.value)
    retain item.type item.value

def tuple (r : Recur) (elts : Node) : Emit Unit := do
  let terms ← elements r elts
  let size ← int64 terms.length
  let tuple ← newTuple size
  setLast ⟨some (ValueType.python.addHint .refIncr), tuple⟩
  for (t, i) in terms.zipIdx do
    let item ← box t.value t.type
    retain item.type item.value
    let index ← int64 i
    tupleFill tuple index item.value

def set (r : Recur) (elts : Node) : Emit Unit := do
  let zero ← null (← objectPtr)
  let set ← newSet zero
  for e in ← each elts do
    let t ← r.term e
    let item ← box t.value t.type
    discard (setAdd set item.value)
  setLast ⟨some (ValueType.python.addHint .refIncr), set⟩

def dict (r : Recur) (keys values : Node) : Emit Unit := do
  let dict ← newDict
  for (value, i) in (← each values).zipIdx do
    let key ← expect (← each keys)[i]? .outOfRange
    let key ← r.term key
    let value ← r.term value
    let key ← box key.value key.type
    let value ← box value.value value.type
    discard (dictSet dict key.value value.value)
    setLastValue .absent
  setLast ⟨some .python, dict⟩

attribute [reducible] compareTerm namedExpr binOp compare slicePart slice ifExp elements list tuple set dict

end Lowering.Lower
