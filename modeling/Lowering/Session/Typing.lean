import Lowering.Session.Writing

/-!
Commands on types: the types of values with their hints, and the types of the output program.
-/
namespace Lowering.Session

/-! ### Classes -/

private def isWithin (sort c : HintClass) : Bool :=
  match sort, c with
  | _, .any => true
  | .constant _, .constant .value => true
  | .source _, .source .data => true
  | sort, c => sort == c

def isOf (v : Value) : Value → Run Bool
  | .hintClass c => do
    match ← object? v with
    | some (.hint sort _) => return isWithin sort c
    | _ => return false
  | .classNamed name => do
    if name == "object" then return true
    let c ← classOf v
    if c.module.isEmpty && c.name == name then return true
    return name == "int" && v.toInt?.isSome
  | .tuple classes => anyOf classes
  | _ => throw .misuse
where
  anyOf : List Value → Run Bool
    | [] => return false
    | c :: rest => do
      match c with
      | .tuple _ => throw .misuse
      | c => if ← isOf v c then return true else anyOf rest

private def isClass (v : Value) : Run Bool := do
  let c ← classOf v
  return c.module.isEmpty && c.name == "type"

/-! ### Types of values -/

structure TypeParts where
  kind : Value
  id : Value
  hints : Nat

def typeParts? (v : Value) : Run (Option TypeParts) := do
  match ← object? v with
  | some (.type kind id hints) => return some { kind, id, hints }
  | _ => return none

def typeParts (v : Value) : Run TypeParts := do need (← typeParts? v)

namespace TypeParts

def isKind (t : TypeParts) (k : ValueKind) : Run Bool := equal t.kind (.kind k)

def isPrimitive (t : TypeParts) : Run Bool := do
  if ← t.isKind .integer then return true
  if ← t.isKind .decimal then return true
  t.isKind .boolean

def isOfClass (t : TypeParts) (path : Value) : Run Bool := do hasClass (← listAt t.hints) path

def isCollectionOf (t : TypeParts) : List String → Run Bool
  | [] => return false
  | name :: rest => do
    if ← t.isOfClass (.text ("builtins." ++ name)) then return true
    t.isCollectionOf rest

def isCollection (t : TypeParts) : Run Bool := t.isCollectionOf ["list", "set", "dict", "tuple"]

/-- Whether values of the type are objects that carry a reference count. -/
def isCounted (t : TypeParts) : Run Bool := do
  if ← t.isPrimitive then return false
  if ← t.isKind .none then return false
  return !(← t.isKind .unknown)

end TypeParts

def newOfKind (k : ValueKind) : Run Value := newKindOf (.kind k) (.int 0) []

/-- A copy of a value of its own; what is inside is shared. -/
def copyOf (v : Value) : Run Value := do
  match ← object? v with
  | some (.tracer _) | none => return v
  | some o => store o

/-- The machine type of values of a type; the program is asked only for objects. -/
def machineOf (source type : Value) : Run Value := do
  let t ← typeParts type
  let objectPtr : Run Value := do
    match source with
    | .program => newMachine (← build Program.objectPtr)
    | _ => throw .noMember
  if ← t.isCollectionOf ["list", "dict", "tuple", "set"] then objectPtr
  else if ← t.isKind .integer then newMachine .int64
  else if ← t.isKind .module then newMachine .int64
  else if ← t.isKind .decimal then newMachine .double
  else if ← t.isKind .boolean then newMachine .int1
  else if ← t.isKind .object then throw .noMember
  else if ← t.isKind .python then objectPtr
  else if ← t.isKind .none then newMachine .int32
  else newMachine .void

private def machineOfAny (source v : Value) : Run Value := do
  let one (v : Value) : Run Value := do
    match v with
    | .struct _ => throw .misuse
    | v => machineOf source v
  match ← listItems? v with
  | some items => newList (← items.mapM one)
  | none => one v

def typeOfThing (v : Value) : Run Value := do
  match v with
  | .variable i => variablePart i .type
  | .global i => globalPart i .type
  | .parameter _ type => return type
  | .struct _ => throw .misuse
  | v =>
    match ← object? v with
    | some (.layout l) => return l.primitive
    | some (.type kind _ _) => return kind
    | some (.member _ _ type) => return type
    | some (.hint .contentRange [_, _, type]) => return type
    | _ => throw .noMember

private def ofMachine (v : Value) : Run Value := do
  let t ← typeOfThing v
  let kinds : List (Primitive × ValueKind) :=
    [(.int64, .integer), (.struct, .python), (.double, .decimal), (.float, .decimal),
      (.int1, .boolean), (.void, .none)]
  for (p, k) in kinds do
    if ← equal t (.member .primitive p.code) then return ← newOfKind k
  return .none

/-- The smallest type that holds values of both; values of two kinds meet in an object. -/
def joined (a b : Value) : Run Value := do
  if ← equal a b then copyOf a
  else if b.isNone then copyOf a
  else
    let t ← typeParts a
    let u ← typeParts b
    let either (p : TypeParts → Run Bool) : Run Bool := do
      if ← p t then return true else p u
    if ← either (·.isKind .python) then newOfKind .python
    else if (← t.isKind .object) && (← u.isKind .object) then newOfKind .python
    else if ← either (·.isKind .none) then newOfKind .python
    else if ← either TypeParts.isPrimitive then newOfKind .python
    else throw .typesIncomparable

/-- Joins types in order; the first one alone stays itself. -/
private def joinedAll (a : Arguments) : Run Value := do
  match a.given, a.named with
  | [], [("data", _)] | [_], [] => throw .noTypeGiven
  | _ :: first :: rest, [] => rest.foldlM joined first
  | _, _ => throw .misuse

def newKind (kind id : Value) : Run Value := do
  if id.toInt?.isNone then throw .idNotInteger
  newKindOf kind id []

def valueTypeCommands : Commands :=
  let always (k : ValueKind) : Command := plainly (newOfKind k)
  [("integer", always .integer), ("decimal", always .decimal), ("boolean", always .boolean),
    ("python", (command "typeHint" fun (_ : Value) => newOfKind .python).withDefaults [.none]),
    ("object", command "id" fun (id : Value) => newKind (.kind .object) id),
    ("module", always .module), ("none", always .none), ("unknown", always .unknown),
    ("text", always .python), ("list", always .python), ("tuple", always .python),
    ("set", always .python), ("dict", always .python),
    ("ofMachine", command "machine" ofMachine),
    ("toMachine", command "program type" machineOfAny),
    ("join", (command "primaryType secondType" joined).withDefaults [.none]),
    ("joinAll", freely joinedAll)]

/-! ### Hints -/

private def hintsOf (type : Value) : Run (List Value) := do listAt (← typeParts type).hints

private def firstOf (hints : List Value) (class_ : Value) : Run (Option Value) := do
  for h in hints do
    if ← isOf h class_ then return some h
  return none

private def hintPart (h : Value) (i : Nat) : Run Value := do
  match ← object? h with
  | some (.hint _ parts) => return parts[i]?.getD .none
  | _ => return .none

/-- Whether the constant that a type is known to hold is of a class. -/
private def isConstant (type class_ : Value) : Run Bool := do
  match ← firstOf (← hintsOf type) (.hintClass (.constant .value)) with
  | none => return false
  | some h =>
    let v ← hintPart h 0
    if ← isClass class_ then isOf v class_
    else
      let c ← classOf v
      let module := if c.module.isEmpty then "builtins" else c.module
      equal (.text (module ++ "." ++ c.name)) class_

private def isPythonClass (type path : Value) : Run Bool := do
  let t ← typeParts type
  unless ← t.isKind .python do return false
  match ← firstOf (← listAt t.hints) (.hintClass .classPath) with
  | some h => equal (← hintPart h 0) path
  | none => return false

/-- Removes the hints of a class from a type, at most a number of them. -/
private def removeWithin (t : TypeParts) (class_ : Value) : Nat → Run Bool
  | 0 => return false
  | fuel + 1 => do
    let hints ← listAt t.hints
    for i in List.range hints.length do
      if ← isOf (hints[i]?.getD .none) class_ then
        changeObject t.hints (.list (hints.eraseIdx i))
        discard (removeWithin t class_ fuel)
        return true
    return false

def removeHints (type class_ : Value) : Run Bool := do
  let t ← typeParts type
  removeWithin t class_ ((← listAt t.hints).length + 1)

def hintCommands : Commands :=
  [("content", command "hintType" fun (t : Value) => store (.hint .content [t])),
    ("contentRange", (command "minimum maximum type" fun (a b t : Value) =>
      store (.hint .contentRange [a, b, t])).withDefaults [.int 0, .int 0, .none]),
    ("intRange", (command "minimum maximum" fun (a b : Value) =>
      store (.hint .intRange [a, b])).withDefaults [.int 0, .int 0]),
    ("refCount", command "count" fun (n : Value) => store (.hint .refCount [n])),
    ("find", command "subject hintType" fun (type class_ : Value) =>
      (return (← firstOf (← hintsOf type) class_).getD .none : Run Value)),
    ("source", command "hintType" fun (type : Value) =>
      (return (← firstOf (← hintsOf type) (.hintClass (.source .data))).getD .none : Run Value)),
    ("isConstant", command "subject constType" isConstant),
    ("isIncremented", command "subject" fun (type : Value) =>
      (return (← firstOf (← hintsOf type) (.hintClass .refIncr)).isSome : Run Bool)),
    ("isClass", command "subject classPath" isPythonClass),
    ("remove", command "subject hintType" removeHints)]

/-! ### Machine types -/

def machineTypeCommands : Commands :=
  let plain (t : MachineType) : Command := command "" (newMachine t)
  let ofProgram (t : Build MachineType) : Command := onProgram "" t
  let pointerTo (t : Build MachineType) : Build MachineType := return (← t).pointerTo
  [("void", plain .void), ("int64", plain .int64), ("int32", plain .int32), ("int16", plain .int16),
    ("int8", plain .int8), ("int1", plain .int1), ("int8Ptr", plain .int8Ptr),
    ("float", plain .float), ("double", plain .double),
    ("object", ofProgram Program.objectType), ("objectPtr", ofProgram Program.objectPtr),
    ("type", ofProgram Program.typeType), ("typeStruct", ofProgram Program.typeType),
    ("list", ofProgram Program.listType), ("listPtr", ofProgram (pointerTo Program.listType)),
    ("tuple", ofProgram Program.listType), ("tuplePtr", ofProgram (pointerTo Program.listType)),
    ("function", command "returnType args" fun (result params : Value) =>
      store (.layout { primitive := .member .primitive 9, result, params })),
    ("arrayOf", command "type size" fun (element size : Value) => (do
      let params ← newList []
      store (.layout { primitive := .member .primitive 10, element, size, params }) : Run Value)),
    ("vectorFunction", ofProgram Program.vectorFunction)]

def newLayout (primitive id : Value) : Run Value := do
  let params ← newList []
  store (.layout { primitive, structId := id, params })

/-! ### What can be asked of types -/

private def addHint (t : TypeParts) (h : Value) : Run Unit := do
  match ← object? h with
  | some (.hint ..) => changeObject t.hints (.list ((← listAt t.hints) ++ [h]))
  | _ => throw (.hintExpected (← classOf h).text)

def placeToPop {α : Type} (items : List α) (index : Value) : Run Nat := do
  match index.toInt? with
  | none => throw .misuse
  | some n =>
    unless fitsSigned 8 n do throw .tooLarge
    match placeAt? items.length n with
    | some k => return k
    | none => throw .outOfRange

private def removeHintAt (t : TypeParts) (index : Value) : Run Unit := do
  let hints ← listAt t.hints
  let k ← placeToPop hints index
  changeObject t.hints (.list (hints.eraseIdx k))

private def hintsAt (t : TypeParts) (index : Value) : Run Value := do
  let hints ← listAt t.hints
  if index.toInt?.isSome then itemAt hints index
  else newList (← hints.filterM fun h => isOf h index)

private def contentOf (t : TypeParts) : Run Value := do
  let hints ← if ← t.isCollection then listAt t.hints else pure []
  let contents ← hints.filterMapM fun h => do
    match ← object? h with
    | some (.hint .content [inner]) => return some inner
    | _ => return none
  match contents with
  | [inner] => return inner
  | _ => newOfKind .python

private def titleOf (self : Value) (t : TypeParts) : Run String := do
  let isOne (k : ValueKind) : Run Bool := t.isKind k
  if ← t.isPrimitive then text self
  else if ← isOne .module then text self
  else if ← isOne .unknown then text self
  else if ← isOne .none then return "None type"
  else if ← isOne .object then throw .noMember
  else
    for name in ["str", "dict", "list", "set", "tuple"] do
      if ← t.isOfClass (.text ("builtins." ++ name)) then return name
    if ← isOne .python then return "Python object" else return "Flyable type"

private def isPythonOf (t : TypeParts) (path : Value) : Run Bool := do
  if path.isNone then t.isKind .python else t.isOfClass path

def typeMethods (self : Value) (t : TypeParts) : Commands :=
  let ask (k : ValueKind) : Command := command "" (t.isKind k)
  let class_ (name : String) : Command := command "" (t.isOfClass (.text ("builtins." ++ name)))
  [("isUnknown", ask .unknown), ("isList", class_ "list"), ("isDict", class_ "dict"),
    ("isSet", class_ "set"), ("isTuple", class_ "tuple"), ("isText", class_ "str"),
    ("isCollection", command "" t.isCollection), ("isInt", ask .integer), ("isDec", ask .decimal),
    ("isBool", ask .boolean), ("isPrimitive", command "" t.isPrimitive), ("isObj", ask .object),
    ("isModule", ask .module), ("isNone", ask .none),
    ("isPython", (command "typePath" (isPythonOf t)).withDefaults [.none]),
    ("isOfClass", command "typePath" t.isOfClass), ("id", plainly (return t.id)),
    ("type", plainly (return t.kind)),
    ("toMachine", command "program" fun (source : Value) => machineOf source self),
    ("content", plainly (contentOf t)), ("addHint", command "newHint" (addHint t)),
    ("removeHint", command "index" (removeHintAt t)), ("hint", command "index" (hintsAt t)),
    ("hints", plainly (do newList (← listAt t.hints))),
    ("clearHints", command "" (changeObject t.hints (.list []))),
    ("equals", command "other" fun (other : Value) => equal self other),
    ("title", command "catalog" fun (_ : Value) => titleOf self t), ("text", command "" (text self))]

def layoutMethods (self : Value) (i : Nat) (l : Layout) : Commands :=
  let setPart (name : String) (change : Value → Layout) : Command :=
    command name fun (v : Value) => changeObject i (.layout (change v))
  [("type", plainly (return l.primitive)),
    ("pointerTo", plainly (store (.layout { l with
      pointers := .int (l.pointers.toInt?.getD 0 + 1) }))),
    ("structId", plainly (return l.structId)), ("pointers", plainly (return l.pointers)),
    ("nullValue", command "cursor" fun (v : Value) => (do
      if l.pointers.toInt? == some 0 then
        if ← equal l.primitive (.member .primitive 4) then return v
      return .none : Run Value)),
    ("setParams", setPart "args" fun v => { l with params := v }),
    ("setResult", setPart "returnType" fun v => { l with result := v }),
    ("setElement", setPart "arrayType" fun v => { l with element := v }),
    ("setSize", setPart "size" fun v => { l with size := v }),
    ("writeTo", writing self),
    ("equals", command "other" fun (other : Value) => equal self other),
    ("text", command "" (text self))]

def hintMethods (self : Value) (i : Nat) (sort : HintClass) (parts : List Value) : Commands :=
  let part (k : Nat) : Command := plainly (return parts[k]?.getD .none)
  let nothing : Command := plainly (return .none)
  let setRange : Command := command "minimum maximum" fun (a b : Value) =>
    changeObject i (.hint sort (a :: b :: parts.drop 2))
  match sort with
  | .content => [("text", command "" (text self)), ("hintType", part 0)]
  | .contentRange => [("min", nothing), ("max", part 1), ("type", part 2), ("setRange", setRange)]
  | .intRange => [("min", nothing), ("max", part 1), ("setRange", setRange)]
  | .refCount | .constLen => [("count", part 0)]
  | .constant _ => [("value", part 0)]
  | .classPath => [("classPath", part 0)]
  | .source _ => [("source", part 0)]
  | .any | .canBeNone | .refIncr => []

end Lowering.Session
