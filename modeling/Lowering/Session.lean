import Lowering.Session.Builtin
import Lowering.Session.Describe
import Lowering.Session.Lowerer
import Lowering.Session.Watch

/-!
A session as a whole: how it begins, and how its commands are found. A command belongs to a topic, or
is asked of a value.
-/
namespace Lowering.Session

/-! ### Beginning -/

/-- Lowers nothing, but has a function and a block to place instructions in. -/
private def startBare : Run Unit := do
  let f ← build (Program.func "duck" .void [] internalLinkage)
  let cursor ← build (Program.newCursor f)
  modify fun s => { s with state := { s.state with cursor, lowerer := .bare } }
  emit do
    let block ← Emit.createBlock (some "duck")
    Emit.setBlock block

/-- Enters a file with one function, and starts to lower an implementation of it. -/
def start (setup : Bool) (path : String) (function : Node) (convention : Convention)
    (lowerer : Option Lowerer) (secondTree : Bool) : Run Unit := do
  if setup then build Program.setup
  let impl ← emit (Compile.enterFunction path function convention)
  let catalog : Catalog :=
    { files := [(.text path, .file 0)], settings := [(.text "output", .text "out.o")] }
  modify fun s => { s with catalogs := #[catalog], impl, secondTree }
  match lowerer with
  | some .tree => emit (Lower.start impl)
  | some .stack => emit (Stack.start impl)
  | some .bare => startBare
  | none => return ()

/-! ### Commands by topic -/

def newCommands : Commands :=
  newEntries ++ newSources ++ newBuiltins ++
    [("flag", newFlag),
      ("type", (command "type id" newKind).withDefaults [.kind .unknown, .int 0]),
      ("machine", (command "type id" newLayout).withDefaults [.member .primitive 7, .int 0])]

def versionCommands : Commands := [("number", plainly (return .member .version 1))]

def topics : List (String × Commands) :=
  [("list", listCommands), ("tuple", tupleCommands), ("dict", dictCommands), ("set", setCommands),
    ("slice", sliceCommands), ("number", numberCommands), ("operator", operatorCommands),
    ("condition", conditionCommands), ("call", callCommands), ("object", objectCommands),
    ("type", typeCommands), ("function", functionCommands), ("runtime", runtimeCommands),
    ("exception", exceptionCommands), ("iterator", iteratorCommands),
    ("comparison", comparisonCommands), ("counting", countingCommands), ("debug", debugCommands),
    ("generator", generatorCommands), ("module", moduleCommands), ("unpack", unpackCommands),
    ("shortcut", shortcutCommands), ("valueType", valueTypeCommands), ("hint", hintCommands),
    ("machineType", machineTypeCommands), ("builtin", builtinCommands), ("library", libraryCommands),
    ("progress", progressCommands), ("flag", flagCommands), ("trace", traceCommands),
    ("version", versionCommands), ("new", newCommands)]

def call (topic name : String) (a : Arguments) : Run Value :=
  match (topics.lookup topic).bind (·.lookup name) with
  | some c => c.call a
  | none => throw .noMember

/-! ### Commands on a value -/

/-- Whether a value equals another of its sort; of another sort it cannot say. -/
private def equalOrUndecided (v w : Value) : Run Value := do
  let decided ← match place? v, place? w with
    | some _, some _ => pure (v.toInt?.isNone || w.toInt?.isSome)
    | _, _ =>
      let sequences := ["str", "bytes", "bytearray", "list", "tuple", "dict", "frozenset", "complex"]
      let c := (← classOf v).path
      pure (sequences.contains c && c == (← classOf w).path)
  if identical v w then return .bool true
  else if decided then return .bool (← equal v w)
  else return .undecided

private def generalMethods (v : Value) : Run Commands := do
  let sized := (← size? v).isSome
  let truth := v.isNone || (place? v).isSome
  return [("equals", command "other" (equalOrUndecided v)), ("text", command "" (text v))] ++
    (if truth then [("isEnabled", command "" (isTruthy v))] else []) ++
    if sized then
      [("length", command "" (sizeOf v)), ("item", command "index" (itemOf v)),
        ("each", plainly (return .iterator "iterator" (← itemsOf v)))]
    else []

private def objectMethods (i : Nat) (o : Object) : Commands :=
  let self := Value.object i
  match o with
  | .list _ => []
  | .type kind id hints => typeMethods self { kind, id, hints }
  | .layout l => layoutMethods self i l
  | .hint sort parts => hintMethods self i sort parts
  | .writer _ => writerMethods self
  | .reports list => reportsMethods i list
  | .member id name type => memberMethods i id name type
  | .tracer _ => []

def methods (v : Value) : Run Commands := do
  let s ← get
  match v with
  | .object i => return (s.objects[i]?.map (objectMethods i)).getD []
  | .block ref => return blockMethods ref
  | .func i => return funcMethods i
  | .global i => return globalMethods i
  | .struct i => return structMethods i
  | .variable i => return variableMethods i
  | .scope i => return scopeMethods i
  | .impl i => return implMethods i
  | .definition i => return definitionMethods i
  | .file i => return fileMethods i
  | .catalog i => return catalogMethods i
  | .blockWriter _ => return writerMethods v
  | .flag i => return flagMethods i
  | .program => return programMethods
  | .lowerer => return lowererMethods s.state.lowerer
  | .compiler => return compilerMethods
  | .shortcut s => return shortcutMethods s
  | .library f => return libraryMethods f
  | .builtin b => return builtinLowering b
  | .initializer _ => return [("writeTo", writing v)]
  | .counted type value => return countedMethods v type value
  | .parameter name type => return parameterMethods name type
  | _ => return []

private def method? (v : Value) (name : String) : Run (Option Command) := do
  let own ← match v, ← object? v with
    | .cursor i, _ => pure ((cursorMethod name).map fun c =>
        { c with run := fun args => atCursor i (c.run args) })
    | .object i, some (.tracer t) => pure (tracerMethod i t name)
    | v, _ => pure ((← methods v).lookup name)
  match own with
  | some c => return some c
  | none => return (← generalMethods v).lookup name

def invoke (v : Value) (name : String) (a : Arguments) : Run Value := do
  match ← method? v name with
  | some c => c.call a
  | none => throw .noMember

/-! ### Answers -/

/-- A value as it can be used later: what can be gone through once has been. -/
def used : Value → Value
  | .iterator name _ => .iterator name []
  | v => v

end Lowering.Session
