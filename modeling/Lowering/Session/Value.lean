import Lowering.Compile
import Lowering.DebugFlag
import Lowering.Progress
import Lowering.Stack

/-!
A session in which commands are given by name, one after the other, on a program under construction.
Commands take and give values: constants, entries of the tables, and objects that later commands may
change, which the session stores. The entries of the tables hold what the lowering needs; what a
command put there beyond that is kept beside them.
-/
namespace Lowering.Session

inductive Test
  | equals | greater | always | nothing
  deriving DecidableEq, Repr

inductive Builtin
  | list | length | int
  deriving DecidableEq, Repr

/-- A set of numbered names. -/
inductive Family
  | linkage | calling | primitive | convention | status | operation | version
  deriving DecidableEq, Repr

namespace Family

def title : Family → String
  | linkage => "Linkage"
  | calling => "CallingConv"
  | primitive => "CodePrimitive"
  | convention => "FuncImplType"
  | status => "ParseStatus"
  | operation => "BinOp"
  | version => "PythonVersion"

def all : List Family := [linkage, calling, primitive, convention, status, operation, version]

/-- The names of a family and the number of the first; the others follow it. -/
def names : Family → Nat × List String
  | linkage => (1, ["INTERNAL", "EXTERNAL"])
  | calling => (1, ["C", "FAST"])
  | primitive =>
    (0, ["INT1", "INT8", "INT16", "INT32", "INT64", "FLOAT", "DOUBLE", "VOID", "STRUCT", "FUNC",
      "ARRAY"])
  | convention => (0, ["NOT_IMPL", "SPECIALIZATION", "VEC_CALL", "TP_CALL"])
  | status => (0, ["NOT_STARTED", "STARTED", "ENDED"])
  | operation =>
    let plain := ["ADD", "AND", "FLOOR_DIVIDE", "LSHIFT", "MATRIX_MULTIPLY", "MULTIPLY", "REMAINDER",
      "OR", "POWER", "RSHIFT", "SUBTRACT", "TRUE_DIVIDE", "XOR"]
    (0, plain.map ("NB_" ++ ·) ++ plain.map ("NB_INPLACE_" ++ ·))
  | version => (0, ["VERSION_3_10", "VERSION_3_11"])

def nameOf (f : Family) (code : Nat) : String := (f.names.2[code - f.names.1]?).getD ""

def code? (f : Family) (name : String) : Option Nat :=
  (f.names.2.idxOf? name).map (· + f.names.1)

end Family

/-- The kinds of types with their names, in the order of their numbers. -/
def kindNames : List (String × ValueKind) :=
  [("UNKNOWN", .unknown), ("INTEGER", .integer), ("DECIMAL", .decimal), ("OBJECT", .object),
    ("MODULE", .module), ("SUPER", .super), ("PYTHON", .python), ("BOOLEAN", .boolean),
    ("NONE", .none)]

inductive Value
  | constant (c : Constant)
  | member (family : Family) (code : Nat)
  | kind (k : ValueKind)
  | tuple (items : List Value)
  | dict (keys values : List Value)
  /-- What is left to go through of something. -/
  | iterator (className : String) (items : List Value)
  | object (i : Nat)
  | block (ref : BlockRef)
  | func (i : Nat)
  | global (i : Nat)
  | struct (i : Nat)
  | variable (i : Nat)
  | scope (i : Nat)
  | impl (i : Nat)
  | definition (i : Nat)
  | file (i : Nat)
  | catalog (i : Nat)
  | cursor (i : Nat)
  /-- What writes to a block. -/
  | blockWriter (ref : BlockRef)
  /-- The bytes that a writer holds at any time. -/
  | bytesOf (writer : Value)
  /-- The blocks that a block branches to at any time. -/
  | branchesOf (ref : BlockRef)
  | flag (i : Nat)
  | program
  | lowerer
  | compiler
  | node (n : Node)
  | operator (op : Operator)
  | hintClass (c : HintClass)
  | classNamed (name : String)
  | test (t : Test) (args : List Value)
  | opcode (arg : Value)
  | report (message line row : Value)
  | step (i : Nat)
  | shortcut (s : Emit.Shortcut)
  | library (name : String)
  | builtin (b : Builtin)
  | initializer (text : Option Value)
  | counted (type value : Value)
  | parameter (name type : Value)
  | fault (f : Fault)
  | builtinNamed (name : String)
  /-- The answer of a comparison that does not apply. -/
  | undecided

instance : Inhabited Value := ⟨.constant .none⟩

namespace Value

def none : Value := constant .none

def int (n : Int) : Value := constant (.int n)

def bool (b : Bool) : Value := constant (.bool b)

def text (s : String) : Value := constant (.text s)

def isNone : Value → Bool
  | constant .none => true
  | _ => false

def toInt? : Value → Option Int
  | constant (.int n) => some n
  | constant (.bool b) => some (if b then 1 else 0)
  | member _ n => some n
  | _ => Option.none

def text? : Value → Option String
  | constant (.text s) => some s
  | _ => Option.none

mutual

def ofConstant : Constant → Value
  | .tuple items => tuple (ofConstants items)
  | c => constant c

def ofConstants : List Constant → List Value
  | [] => []
  | c :: rest => ofConstant c :: ofConstants rest

end

def ofOption {α : Type} (f : α → Value) : Option α → Value
  | some a => f a
  | Option.none => none

end Value

/-- The functions of the run-time library that can be looked up, with their parameters. They give
nothing back. -/
def libraryFunctions : List (String × List MachineType) :=
  [("flyable_add_impl", [.int8Ptr, .int8Ptr, .int8Ptr]), ("flyable_debug_print_ptr", [.int8Ptr]),
    ("flyable_debug_print_int64", [.int64])]

def libraryParams (name : String) : List MachineType := (libraryFunctions.lookup name).getD []

structure Writer where
  bytes : Bytes := []
  locked : Bool := false

namespace Writer

def write (w : Writer) (fields : List Field) : Writer × Option Fault :=
  let (bs, fault) := Field.writeAll w.locked fields
  ({ w with bytes := w.bytes ++ bs }, fault)

end Writer

/-- A machine type in which each part may be anything. -/
structure Layout where
  primitive : Value := .member .primitive 7
  structId : Value := .int 0
  pointers : Value := .int 0
  result : Value := .none
  params : Value
  element : Value := .none
  size : Value := .int 0
  deriving Inhabited

/-- A cursor that shows the instructions placed with it. -/
structure Tracer where
  cursor : Nat
  method : String := ""
  /-- Whether the next word written to a watched block is shown. -/
  armed : Bool := false
  watched : List BlockRef := []
  deriving Inhabited

/-- What commands may change. -/
inductive Object
  | list (items : List Value)
  /-- A type; its hints are a stored list, which copies of the type share. -/
  | type (kind id : Value) (hints : Nat)
  | layout (l : Layout)
  | hint (sort : HintClass) (parts : List Value)
  | writer (w : Writer)
  | reports (list : Value)
  | member (id name type : Value)
  | tracer (t : Tracer)

instance : Inhabited Object := ⟨.list []⟩

/-- Files by path, and settings by name. -/
structure Catalog where
  files : List (Value × Value) := []
  settings : List (Value × Value) := []
  deriving Inhabited

structure Flag where
  name : Option String
  flag : DebugFlag Value

instance : Inhabited Flag := ⟨⟨none, { initial := .none }⟩⟩

def standardFlags : List Flag :=
  [("FLAG_SHOW_VISIT_AST", Value.int 2), ("FLAG_SHOW_OUTPUT_BUILDER", .none),
    ("FLAG_SHOW_OPCODE_ON_EXEC", .none), ("FLAG_SHOW_OPCODE_ON_GEN", .none),
    ("FLAG_SHOW_BLOCK_BRANCHES", .text "basic"), ("FLAG_PRINT_FUNC_IMPL", .none),
    ("FLAG_PRINT_INT64", .none), ("FLAG_LOG_DEBUG", .text "./debug.log"),
    ("FLAG_SHOW_STEP_LEVEL", .int 1), ("FLAG_SHOW_REF_COUNT", .none)].map
      fun (name, value) => ⟨some name, { initial := value }⟩

/-- A step of work; steps are told apart by number and looked up by name. -/
structure StepEntry where
  name : Value
  status : StepStatus := .idle
  deriving Inhabited

inductive Owner
  | func (i : Nat) | block (ref : BlockRef) | global (i : Nat) | struct (i : Nat)
  | variable (i : Nat) | impl (i : Nat) | definition (i : Nat) | file (i : Nat) | report (i : Nat)
  | operand (place : Nat) (value : Operand) | frame
  deriving DecidableEq, Repr

inductive Aspect
  | id | name | type | linkage | module | initializer | label | returns | result | scope
  | used | isArg | isGlobal | initialized | isModule | ofModule
  | status | convention | parent | path | text | message | line | row | assignedType | lastType
  | item (i : Nat)
  deriving DecidableEq, Repr

end Session

structure Session where
  state : State := {}
  objects : Array Session.Object := #[]
  /-- What an entry of the tables was given, where that is more than the tables hold. -/
  details : List ((Session.Owner × Session.Aspect) × Session.Value) := []
  others : Array Session.Value := #[]
  /-- The first catalog is that of the compiler. -/
  catalogs : Array Session.Catalog := #[{}]
  flags : Array Session.Flag := Session.standardFlags.toArray
  steps : Array Session.StepEntry := #[]
  openSteps : List Nat := []
  indent : Session.Value := .int 0
  /-- The type of parameters that were given none. -/
  commonType : Option Session.Value := none
  out : String := ""
  stream : Option Bytes := none
  impl : Nat := 0
  /-- Whether trees are lowered by the second of the two lowerers for them. -/
  secondTree : Bool := false

namespace Session

/-- Work on a session; what was done before a fault stays done. -/
abbrev Run := EStateM Fault Session

private def absorb (s : Session) (state : State) : Session :=
  { s with
    state := { state with printed := #[] }
    out := s.out ++ String.join (state.printed.toList.map (· ++ "\n")) }

def emit {α : Type} (x : Emit α) : Run α := fun s =>
  match x s.state with
  | .ok a state => .ok a (s.absorb state)
  | .error e state => .error e (s.absorb state)

def build {α : Type} (x : Build α) : Run α := emit (Emit.build x)

def stateNow : Run State := return (← get).state

def programNow : Run Program := return (← get).state.program

def lift {α : Type} (x : Except Fault α) : Run α :=
  match x with
  | .ok a => pure a
  | .error e => throw e

def print (s : String) : Run Unit := modify fun t => { t with out := t.out ++ s }

def need {α : Type} (x : Option α) : Run α :=
  match x with
  | some a => return a
  | none => throw .noMember

/-! ### Objects -/

def store (o : Object) : Run Value :=
  modifyGet fun s => (.object s.objects.size, { s with objects := s.objects.push o })

def object? (v : Value) : Run (Option Object) := do
  match v with
  | .object i => return (← get).objects[i]?
  | _ => return none

def setObject (i : Nat) (o : Object) : Run Unit :=
  modify fun s => { s with objects := s.objects.modify i fun _ => o }

def newList (items : List Value) : Run Value := store (.list items)

def newListAt (items : List Value) : Run Nat :=
  modifyGet fun s => (s.objects.size, { s with objects := s.objects.push (.list items) })

def listAt (i : Nat) : Run (List Value) := do
  match (← get).objects[i]? with
  | some (.list items) => return items
  | _ => return []

def list? (v : Value) : Run (Option (List Value)) := do
  match ← object? v with
  | some (.list items) => return some items
  | _ => return none

def newKindOf (kind id : Value) (hints : List Value) : Run Value := do
  let hints ← newListAt hints
  store (.type kind id hints)

/-- An operand for a value. What is no number is kept for later. -/
def operandOf (v : Value) : Run Operand := do
  match v with
  | .constant (.bool b) => return .flag b
  | .constant .none => return .absent
  | v =>
    match v.toInt? with
    | some n => return .id n
    | none =>
      let sort ← match v with
        | .constant (.float ..) | .constant (.complex ..) => pure Stranger.fraction
        | .blockWriter _ | .cursor _ => pure .wide
        | .classNamed name => pure (if name == "int" || name == "bool" then .wide else .thing)
        | v => match ← object? v with
          | some (.writer _) | some (.tracer _) => pure .wide
          | _ => pure .thing
      modifyGet fun s => (.other s.others.size sort, { s with others := s.others.push v })

def valueOf (o : Operand) : Run Value := do
  match o with
  | .id n => return .int n
  | .flag b => return .bool b
  | .absent => return .none
  | .other key _ => return ((← get).others[key]?).getD .none

/-! ### Details -/

def detail? (owner : Owner) (aspect : Aspect) : Run (Option Value) := do
  return (← get).details.lookup (owner, aspect)

def setDetail (owner : Owner) (aspect : Aspect) (v : Value) : Run Unit :=
  modify fun s => { s with
    details := ((owner, aspect), v) :: s.details.filter fun d => d.1 != (owner, aspect) }

def dropDetail (owner : Owner) (aspect : Aspect) : Run Unit :=
  modify fun s => { s with details := s.details.filter fun d => d.1 != (owner, aspect) }

/-- What an owner was given, else what the tables hold; an object found there is kept, so that it
stays one and the same. -/
def aspectOf (owner : Owner) (aspect : Aspect) (held : Run Value) : Run Value := do
  match ← detail? owner aspect with
  | some v => return v
  | none =>
    let v ← held
    match v with
    | .object _ => setDetail owner aspect v
    | _ => pure ()
    return v

/-- A place in no table, for what stands where something else belongs. -/
def nowhere : Nat := 1 <<< 40

def atCursor {α : Type} (cursor : Nat) (x : Run α) : Run α := do
  let old := (← get).state.cursor
  let setCursor (c : Nat) : Run Unit := modify fun s => { s with state := { s.state with cursor := c } }
  setCursor cursor
  try
    let a ← x
    setCursor old
    return a
  catch e =>
    setCursor old
    throw e

end Session
end Lowering
