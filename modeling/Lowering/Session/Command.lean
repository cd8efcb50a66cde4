import Lowering.Session.Trace

/-!
Commands of a session. A function of the library becomes a command by what its parameters and its
result are: arguments are read as the parameters, and the result becomes a value. Arguments are given
by place and by name, and how they fit the parameters is looked at before anything else.
-/
namespace Lowering.Session

class Argument (α : Type) where
  read : Value → Run α

class Answer (α : Type) where
  answer : α → Run Value

export Answer (answer)

instance : Argument Value := ⟨pure⟩

instance : Argument Operand := ⟨operandOf⟩

instance : Argument Bool := ⟨isTruthy⟩

instance : Argument String := ⟨fun v =>
  match v.text? with
  | some s => return s
  | none => throw .misuse⟩

instance : Argument (Option ValueType) := ⟨type?⟩

instance : Argument ValueType := ⟨fun v => do need (← type? v)⟩

instance : Argument MachineType := ⟨fun v => do need (← machine? v)⟩

instance {α : Type} [Argument α] : Argument (List α) := ⟨fun v => do
  (← itemsOf v).mapM Argument.read⟩

instance : Answer Value := ⟨pure⟩

instance : Answer Unit := ⟨fun _ => return .none⟩

instance : Answer Operand := ⟨valueOf⟩

instance : Answer Bool := ⟨fun b => return .bool b⟩

instance : Answer Nat := ⟨fun n => return .int n⟩

instance : Answer Int := ⟨fun n => return .int n⟩

instance : Answer String := ⟨fun s => return .text s⟩

instance : Answer BlockRef := ⟨fun ref => return .block ref⟩

instance : Answer ValueType := ⟨newType⟩

instance : Answer MachineType := ⟨newMachine⟩

instance {α : Type} [Answer α] : Answer (Option α) := ⟨fun
  | some a => answer a
  | none => return .none⟩

instance {α : Type} [Answer α] : Answer (List α) := ⟨fun items => do newList (← items.mapM answer)⟩

instance {α β : Type} [Answer α] [Answer β] : Answer (α × β) := ⟨fun p => do
  let a ← answer p.1
  return .tuple [a, ← answer p.2]⟩

instance : Answer Term := ⟨fun t => do
  let type ← answer t.type
  return .tuple [type, ← valueOf t.value]⟩

/-- Something that can be run on a list of arguments of the right length. -/
class Action (α : Type) where
  run : α → List Value → Run Value

instance {α : Type} [Answer α] : Action (Run α) := ⟨fun x _ => do answer (← x)⟩

instance {α : Type} [Answer α] : Action (Emit α) := ⟨fun x _ => do answer (← perform x)⟩

instance {α : Type} [Answer α] : Action (Build α) := ⟨fun x _ => do answer (← build x)⟩

instance {α : Type} [Answer α] : Action (Except Fault α) := ⟨fun x _ => do answer (← lift x)⟩

instance {α β : Type} [Argument α] [Action β] : Action (α → β) :=
  ⟨fun f args => do
    match args with
    | a :: rest => Action.run (f (← Argument.read a)) rest
    | [] => throw .misuse⟩

structure Arguments where
  given : List Value
  named : List (String × Value) := []

/-- A command with the names of its parameters and values for those at the end that may be left
out. -/
structure Command where
  params : List String
  defaults : List Value := []
  run : List Value → Run Value
  /-- What is done instead, with the arguments as they are given. -/
  free : Option (Arguments → Run Value) := none

abbrev Commands := List (String × Command)

private def wordsOf (s : String) : List String := (s.splitOn " ").filter (!·.isEmpty)

/-- The command that a function is, with the names of its parameters. -/
def command {α : Type} [Action α] (params : String) (f : α) : Command :=
  { params := wordsOf params, run := Action.run f }

def freely (f : Arguments → Run Value) : Command :=
  { params := [], run := fun _ => throw .misuse, free := some f }

def plainly (x : Run Value) : Command := { params := [], run := fun _ => x }

/-- Runs an action without a cursor; it gets as far as the first instruction. -/
def withoutCursor {α : Type} (x : Run α) : Run α := do
  try atCursor nowhere x
  catch
    | .noInsertBlock | .noBranchSource => throw .noMember
    | e => throw e

def isCursor (v : Value) : Run Bool := do
  match v, ← object? v with
  | .cursor _, _ | _, some (.tracer _) => return true
  | _, _ => return false

def usingCursor {α : Type} (v : Value) (x : Run α) : Run α := do
  match v, ← object? v with
  | .cursor i, _ => atCursor i x
  | .object i, some (.tracer t) => performTraced i t x
  | _, _ => withoutCursor x

namespace Command

def withDefaults (c : Command) (defaults : List Value) : Command := { c with defaults }

/-- The arguments in the order of the parameters; each parameter is given exactly once. -/
def bind (c : Command) (a : Arguments) : Run (List Value) := do
  if a.given.length > c.params.length then throw .misuse
  let rest := c.params.drop a.given.length
  if a.named.any fun n => !rest.contains n.1 then throw .misuse
  let required := c.params.length - c.defaults.length
  let defaults := List.replicate required none ++ c.defaults.map some
  let others ← (rest.zip (defaults.drop a.given.length)).mapM fun (name, default) =>
    match a.named.lookup name, default with
    | some v, _ | none, some v => return v
    | none, none => throw .misuse
  return a.given ++ others

def call (c : Command) (a : Arguments) : Run Value := do
  match c.free with
  | some f => f a
  | none => c.run (← c.bind a)

/-- A command that takes the lowering of a function before its other arguments. -/
def onLowerer (c : Command) (name : String := "lowering") : Command :=
  { c with
    params := name :: c.params
    run := fun
      | .lowerer :: rest => c.run rest
      | _ => throw .noMember }

/-- A command that takes the cursor it places instructions with. Without one it goes on until it
needs it. -/
def onCursor (c : Command) : Command :=
  { c with
    params := "cursor" :: c.params
    run := fun
      | v :: rest => usingCursor v (c.run rest)
      | [] => throw .misuse }

def onProgram (c : Command) : Command :=
  { c with
    params := "program" :: c.params
    run := fun
      | .program :: rest => c.run rest
      | _ => throw .noMember }

end Command

def lowering {α : Type} [Action α] (params : String) (f : α) : Command :=
  (command params f).onLowerer

def placing {α : Type} [Action α] (params : String) (f : α) : Command :=
  (command params f).onCursor

def building {α : Type} [Action α] (params : String) (f : α) : Command :=
  (command params f).onCursor.onProgram

def onProgram {α : Type} [Action α] (params : String) (f : α) : Command :=
  (command params f).onProgram

end Lowering.Session
