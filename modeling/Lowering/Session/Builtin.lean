import Lowering.Session.Emission

/-!
Commands on built-in names, on the functions among them that have a lowering of their own, and on
shortcuts past a call.
-/
namespace Lowering.Session

private def builtinsText : String :=
  "Built-in functions, types, exceptions, and other objects.\n\n" ++
  "This module provides direct access to all 'built-in'\n" ++
  "identifiers of Python; for example, builtins.len is\n" ++
  "the full name for the built-in function len().\n\n" ++
  "This module is not normally accessed explicitly by most\n" ++
  "applications, but can be useful in modules that provide\n" ++
  "objects with the same name as a built-in value, but in\n" ++
  "which the built-in of that name is also needed."

/-- Built-in names that are no functions and no classes of that name. -/
private def builtinThings : List (String × Value) :=
  [("None", .none), ("True", .bool true), ("__debug__", .bool true), ("False", .bool false),
    ("__name__", .text "builtins"), ("__package__", .text ""), ("__doc__", .text builtinsText),
    ("__annotations__", .dict [] []), ("Ellipsis", .constant .ellipsis),
    ("NotImplemented", .undecided), ("EnvironmentError", .classNamed "OSError"),
    ("IOError", .classNamed "OSError"), ("__class__", .classNamed "module"),
    ("__loader__", .classNamed "_frozen_importlib.BuiltinImporter")]

def builtinValue (name : String) : Value :=
  match builtinThings.lookup name with
  | some v => v
  | none =>
    if !isBuiltin name then .none
    else if builtinClass name == "type" then .classNamed name
    else .builtinNamed name

private def findBuiltin (v : Value) : Run Value := do
  match ← text v with
  | "list" => return .builtin .list
  | "len" => return .builtin .length
  | name => return builtinValue name

def builtinCommands : Commands :=
  [("find", command "name" findBuiltin),
    ("named", command "name" fun (name : String) => (return builtinValue name : Run Value))]

private def requireLowerer (v : Value) : Run Unit :=
  match v with
  | .lowerer => return ()
  | _ => throw .noMember

private def lowerList (types _args target : Value) : Run Value := do
  if (← sizeOf types) = 0 then
    requireLowerer target
    let list ← perform (do Emit.newList (← Emit.int64 0))
    answer (some ValueType.python, list)
  else return .none

private def lowerLength (types args target : Value) : Run Value := do
  requireLowerer target
  let isList ←
    if (← sizeOf types) = 1 then do
      let t ← need (← type? (← itemOf types (.int 0)))
      pure t.isList
    else pure false
  if isList then
    let list ← operandOf (← itemOf args (.int 0))
    answer (ValueType.integer, ← perform (Emit.listLength list))
  else
    answer <| ← perform do
      discard (Emit.build (Program.known! (·.builtins)))
      let module ← Emit.load .absent
      Emit.callMethod "len" module (some .python) .empty .empty

def builtinLowering (b : Builtin) : Commands :=
  [("lower", command "argsTypes args lowering" (match b with
    | .list => lowerList
    | .length => lowerLength
    | .int => fun _ _ _ => return .none))]

/-- What a shortcut gives for a call; the first argument is looked at before the lowering. -/
private def lowerShortcut (s : Emit.Shortcut) (target : Value) (type : Option ValueType)
    (object : Operand) (types args : Value) : Run Value := do
  let t ← match s with
    | .listAppend => type? (← itemOf types (.int 0))
    | _ => pure none
  let a ← operandOf (← itemOf args (.int 0))
  requireLowerer target
  answer (← perform (s.lower type object [t] [a]))

/-- Shortcuts, of which the plainest never applies and gives nothing. -/
def shortcutMethods (s : Emit.Shortcut) : Commands :=
  match s with
  | .none =>
    [("applies", command "callerType argsType" fun (_ _ : Value) => (return false : Run Bool)),
      ("lower", command "lowering callerType callerValue argsType args" fun (_ _ _ _ _ : Value) =>
        (return .tuple [.none, .none] : Run Value))]
  | s =>
    [("applies", command "callerType argsType" s.applies),
      ("lower", command "lowering callerType callerValue argsType args" (lowerShortcut s))]

/-- Counting on entry and on leaving lacks the cursor to do it with. -/
private def countAround (type value result : Value) : Run Value := do
  let types ← [type, value].filterMapM typeParts?
  match types with
  | t :: _ => if ← t.isCounted then throw .misuse else return result
  | [] => return result

def countedMethods (self type value : Value) : Commands :=
  [("enter", plainly (countAround type value self)),
    ("leave", command "excType excVal excTb" fun (_ _ _ : Value) => countAround type value .none),
    ("each", plainly (return .iterator "tuple_iterator" [type, value])),
    ("item", command "item" fun (i : Value) => (itemAt [type, value] i : Run Value))]

def newBuiltins : Commands :=
  [("intBuiltin", plainly (return .builtin .int)),
    ("listAppend", plainly (return .shortcut .listAppend)),
    ("listGet", plainly (return .shortcut .listGet)),
    ("tupleGet", plainly (return .shortcut .tupleGet)),
    ("noShortcut", plainly (return .shortcut .none)),
    ("counted", command "objType objValue" fun (type value : Value) =>
      (return .counted type value : Run Value)),
    ("unsupported", plainly (return .fault .unsupported))]

end Lowering.Session
