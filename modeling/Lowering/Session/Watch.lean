import Lowering.Session.Tables

/-!
Commands to watch a compilation with: steps under way, switches, searches in a list, and printing at a
depth.
-/
namespace Lowering.Session

/-! ### Values that can be called -/

private def newOfClass (name : String) (args : List Value) : Run Value := do
  match name, args with
  | "bool", [] => return .bool false
  | "bool", [v] => return .bool (← isTruthy v)
  | "int", [] => return .int 0
  | "int", [v] => return .int (← integerOf v)
  | "float", [] => return .constant (.float ⟨0⟩ 0)
  | "float", [v] => realOf v
  | "str", [] => return .text ""
  | "str", [v] => return .text (← text v)
  | "list", [] => newList []
  | "list", [v] => newList (← itemsOf v)
  | "tuple", [] => return .tuple []
  | "tuple", [v] => return .tuple (← itemsOf v)
  | "dict", [] => return .dict [] []
  | "dict", [.dict keys values] => return .dict keys values
  | "set", [] | "frozenset", [] => return .constant (.frozenset [])
  | "set", [v] | "frozenset", [v] =>
    let items ← itemsOf v
    discard (keysOf items)
    return .constant (.frozenset ((constantsOf? items).getD []))
  | "bytes", [] => return .constant (.bytes [])
  | "type", [v] => return .classNamed (← classOf v).path
  | "object", [] => return .undecided
  | _, _ => throw .misuse

def newHintOf (c : HintClass) (parts : List Value) : Run Value := do
  let full (least : Nat) (rest : List Value) : Run Value := do
    if least ≤ parts.length && parts.length ≤ least + rest.length then
      store (.hint c (parts ++ rest.drop (parts.length - least)))
    else throw .misuse
  match c with
  | .any | .canBeNone | .refIncr => full 0 []
  | .intRange => full 0 [.int 0, .int 0]
  | .contentRange => full 0 [.int 0, .int 0, .none]
  | _ => full 1 []

def callValue (f : Value) (a : Arguments) : Run Value := do
  match f, a.named with
  | .library name, _ =>
    match (libraryMethods name).lookup "call" with
    | some c => c.call a
    | none => throw .misuse
  | .classNamed name, [] => newOfClass name a.given
  | .hintClass c, [] => newHintOf c a.given
  | .test t given, [] =>
    match t, a.given with
    | .nothing, [] => return .none
    | .always, [_] => return .bool true
    | .equals, [v] => return .bool (← equal v (given.headD .none))
    | .greater, [v] => return .bool (← isAfter ((← get).objects.size + 100) v (given.headD .none))
    | _, _ => throw .misuse
  | _, _ => throw .misuse

private def passes (f v : Value) : Run Bool := do isTruthy (← callValue f { given := [v] })

/-! ### Searches -/

private def firstPassing (f : Value) : List (Value × Nat) → Run (Option (Value × Nat))
  | [] => return none
  | (v, i) :: rest => do
    if ← passes f v then return some (v, i) else firstPassing f rest

private def lastPassing (f : Value) (items : List (Value × Nat)) : Run (Option (Value × Nat)) := do
  let passing ← items.filterM fun (v, _) => passes f v
  return passing.getLast?

private def search (find : Value → List (Value × Nat) → Run (Option (Value × Nat)))
    (choose : Value × Nat → Value) : Command :=
  command "predicate iterable" fun (f items : Value) => (do
    return ((← find f (← itemsOf items).zipIdx).map choose).getD .none : Run Value)

def searchCommands : Commands :=
  let place (p : Value × Nat) : Value := .int p.2
  [("findFirst", search firstPassing (·.1)), ("findFirstPlace", search firstPassing place),
    ("findLast", search lastPassing (·.1)), ("findLastPlace", search lastPassing place)]

/-! ### Steps -/

private def stepAt (i : Nat) : Run StepEntry := return ((← get).steps[i]?).getD default

private def setStatus (i : Nat) (status : StepStatus) : Run Unit :=
  modify fun s => { s with steps := s.steps.modify i fun e => { e with status } }

/-- The steps under way. A name without a text is left open. -/
private def stepsNow : Run (List Step) := do
  (← get).openSteps.mapM fun i => do
    let e ← stepAt i
    let name ← try text e.name catch _ => pure ""
    return { name, status := e.status, id := i }

/-- Makes a change of the steps. A step that goes is gone before it is announced, and one whose name
has no text cannot be. -/
private def progress (p : Progress) (reason : Except Fault String := .ok "") : Run Unit := do
  if p.removed.isEmpty then
    modify fun s => { s with openSteps := p.steps.map (·.id) }
    for s in p.steps do setStatus s.id s.status
    for line in p.lines do print (line ++ "\n")
  else
    for (s, line) in p.removed.zip p.lines do
      modify fun t => { t with openSteps := t.openSteps.erase s.id }
      discard (text (← stepAt s.id).name)
      discard (lift reason)
      print (line ++ "\n")
      setStatus s.id s.status

private def placeNamed (name : Value) : Run (Option Nat) := do
  for (i, place) in (← get).openSteps.zipIdx do
    if ← equal (← stepAt i).name name then return some place
  return none

private def stepNamed (name : Value) : Run Value := do
  match ← placeNamed name with
  | some place => return .ofOption .step (← get).openSteps[place]?
  | none => return .none

private def changeNamed (name : Value) (change : List Step → Nat → Progress) : Run Unit := do
  let place ← placeNamed name
  let steps := (← get).openSteps
  match place.bind (steps[·]?) with
  | some i => discard (text (← stepAt i).name)
  | none => pure ()
  progress (Progress.atPlace change (← stepsNow) place)

private def startStep (name : Value) : Run Unit := changeNamed name Progress.startAt

private def addStep (name : Value) (starts : Bool) : Run Unit := do
  let steps ← stepsNow
  let i := (← get).steps.size
  modify fun s => { s with steps := s.steps.push { name } }
  progress (Progress.add steps { name := "", id := i } false)
  if starts then
    let name ← text name
    progress (Progress.add steps { name, id := i } true)

private def finishStep (name : Value) : Run Unit := do
  if (← get).openSteps.isEmpty then return ()
  if name.isNone then progress (Progress.finish (← stepsNow))
  else changeNamed name Progress.finishAt

private def interruptStep (reason : Value) (cascades : Bool) (name : Value) : Run Unit := do
  if (← get).openSteps.isEmpty then return ()
  match ← Progress.Place.asked placeNamed (if name.isNone then none else some name) with
  | none => return ()
  | some place =>
    let shown ← try Except.ok <$> text reason catch e => pure (.error e)
    let words := match shown with
      | .ok s => s
      | .error _ => ""
    progress (Progress.interruptAt (← stepsNow) place words cascades) shown

private def wrapInStep (name f : Value) : Run Unit := do
  startStep name
  discard (callValue f { given := [] })
  finishStep name

def progressCommands : Commands :=
  searchCommands ++
    [("add", (command "stepName start" addStep).withDefaults [.bool true]),
      ("start", command "stepName" startStep), ("find", command "stepName" stepNamed),
      ("place", command "stepName" placeNamed),
      ("finish", (command "stepName" finishStep).withDefaults [.none]),
      ("interrupt", (command "reason cascade stepName" interruptStep).withDefaults
        [.bool false, .none]),
      ("wrap", command "stepName func" wrapInStep)]

/-! ### Switches -/

private def flagAt (v : Value) : Run (Nat × Flag) := do
  match v with
  | .flag i => return (i, (← get).flags[i]?.getD default)
  | _ => throw .noMember

private def modifyFlag (i : Nat) (f : DebugFlag Value → DebugFlag Value) : Run Unit :=
  modify fun s => { s with flags := s.flags.modify i fun g => { g with flag := f g.flag } }

private def enable (flag value : Value) : Run Unit := do
  let (i, _) ← flagAt flag
  modifyFlag i fun f => f.enable (if value.isNone then none else some value)

private def disable (flag : Value) : Run Unit := do
  let (i, _) ← flagAt flag
  modifyFlag i (·.disable)

private def enableAll (a : Arguments) : Run Value := do
  unless a.named.isEmpty do throw .misuse
  for v in a.given do
    match v with
    | .tuple (flag :: value :: _) => enable flag value
    | .tuple [flag] =>
      discard (flagAt flag)
      throw .outOfRange
    | .tuple [] => throw .outOfRange
    | flag => enable flag .none
  return .none

private def disableAll (a : Arguments) : Run Value := do
  unless a.named.isEmpty do throw .misuse
  a.given.forM disable
  return .none

/-- Whether a flag is on and its value passes a test, if there is one. -/
private def isValid (flag condition : Value) : Run Value := do
  let (_, f) ← flagAt flag
  if !f.flag.enabled then return .bool false
  else if condition.isNone then return .bool true
  else callValue condition { given := [f.flag.value] }

private def choose (normal debug flag condition : Value) : Run Value := do
  return if ← isTruthy (← isValid flag condition) then debug else normal

private def doIf (f flag args keywords condition : Value) : Run Value := do
  if ← isTruthy (← isValid flag condition) then
    let given ← itemsOf args
    match keywords with
    | .constant .none => callValue f { given }
    | .dict keys values =>
      match keys.mapM Value.text? with
      | some names => callValue f { given, named := names.zip values }
      | none => throw .misuse
    | _ => throw .misuse
  else return .none

private def namedFlags : Run (List (Value × Flag)) := do
  return ((← get).flags.toList.zipIdx.filter (·.1.name.isSome)).map fun (f, i) => (.flag i, f)

private def flagNamed (name default : Value) : Run Value := do
  discard (keyOf name)
  return match (← namedFlags).find? fun (_, f) => name.text?.isSome && f.name == name.text? with
    | some (v, _) => v
    | none => default

private def flagName (v : Value) : Run Value := do
  match v with
  | .flag i => return .ofOption .text ((← get).flags[i]?.getD default).name
  | _ => return .none

def flagCommands : Commands :=
  [("valueIf", (command "normalValue debugValue flag condition" choose).withDefaults [.none]),
    ("isValid", (command "flag condition" isValid).withDefaults [.none]),
    ("doIf", (command "func flag args kwargs condition" doIf).withDefaults
      [.tuple [], .none, .none]),
    ("all", plainly (do newList ((← namedFlags).map (·.1)))),
    ("enabled", plainly (do newList (((← namedFlags).filter (·.2.flag.enabled)).map (·.1)))),
    ("named", (command "name default" flagNamed).withDefaults [.none]),
    ("name", command "flag" flagName), ("enable", freely enableAll), ("disable", freely disableAll)]

def flagMethods (i : Nat) : Commands :=
  [("isEnabled", command "" (isTruthy (.flag i))), ("disable", command "" (disable (.flag i))),
    ("enable", (command "value" (enable (.flag i))).withDefaults [.none])]

def newFlag : Command :=
  (command "defaultValue" fun (initial : Value) => (modifyGet fun s =>
    (.flag s.flags.size, { s with flags := s.flags.push ⟨none, { initial }⟩ }) :
      Run Value)).withDefaults [.none]

/-! ### Printing at a depth -/

private def textOption (named : List (String × Value)) (name default : String) : Run String :=
  match named.lookup name with
  | none | some (.constant .none) => return default
  | some (.constant (.text s)) => return s
  | _ => throw .misuse

private def printAt (a : Arguments) : Run Value := do
  let names := ["sep", "end", "flush", "file", "indent"]
  if a.named.any fun n => !names.contains n.1 then throw .misuse
  printDepth ((a.named.lookup "indent").getD (← get).indent)
  let separator ← textOption a.named "sep" " "
  let ending ← textOption a.named "end" "\n"
  match a.named.lookup "file" with
  | none | some (.constant .none) => pure ()
  | some .program => throw .misuse
  | some _ => throw .noMember
  for (v, i) in a.given.zipIdx do
    if i > 0 then print separator
    print (← text v)
  print ending
  return .none

private def printDivider (a : Arguments) : Run Value := do
  let names := ["dividerSymbol", "dividerLength", "indent"]
  if a.given.length > 3 || a.named.any fun n => !(names.drop a.given.length).contains n.1 then
    throw .misuse
  let given (i : Nat) (name : String) : Option Value := a.given[i]? <|> a.named.lookup name
  printDepth ((given 2 "indent").getD (← get).indent)
  let line ← product ((given 0 "dividerSymbol").getD (.text "-"))
    ((given 1 "dividerLength").getD (.int 20))
  print ((← text line) ++ "\n")
  return .none

private def setIndent (v : Value) : Run Unit := modify fun s => { s with indent := v }

def traceCommands : Commands :=
  [("indent", plainly (return (← get).indent)),
    ("deepen", (command "intentation" fun (n : Value) => (do
      setIndent (← increased (← get).indent n) : Run Unit)).withDefaults [.int 1]),
    ("flatten", (command "intentation" fun (n : Value) => (do
      setIndent (← difference (← get).indent n) : Run Unit)).withDefaults [.int 1]),
    ("setIndent", (command "intentation" setIndent).withDefaults [.int 0]),
    ("print", freely printAt), ("divider", freely printDivider)]

end Lowering.Session
