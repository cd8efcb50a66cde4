import Lowering.Constant
import Lowering.Instr

/-!
The program under construction: blocks of instructions in functions, global variables, structures,
and the pool of constants. Entries live in arrays that only grow; a table lists those that belong to
the program, in order.
-/
namespace Lowering

structure BlockRef where
  func : Nat
  index : Nat
  deriving DecidableEq, Repr, Inhabited

/-- What a block holds: whole instructions, and what was written of others. -/
inductive Item
  | instr (i : Instr)
  | fragment (bytes : Bytes)
  deriving Repr

namespace Item

def bytes : Item → Bytes
  | instr i => i.bytes
  | fragment bs => bs

end Item

structure Block where
  id : Nat
  label : Option String := none
  items : Array Item := #[]
  locked : Bool := false
  returns : Bool := false
  branches : Array BlockRef := #[]
  deriving Inhabited

namespace Block

def name (b : Block) : String := "Block@" ++ toString b.id

def text (b : Block) : String :=
  b.name ++ match b.label with
    | some label => "(" ++ label ++ ")"
    | none => ""

def bytes (b : Block) : Bytes := b.items.toList.flatMap Item.bytes

def branchesInto (b : Block) (target : BlockRef) : Bool := b.branches.contains target

def needsEnd (b : Block) : Bool := b.branches.isEmpty && !b.returns

/-- Writes an instruction; of one that cannot be written whole, the part before the fault stays. -/
def push (b : Block) (i : Instr) : Block × Option Fault :=
  match i.write b.locked with
  | (bs, some fault) => ({ b with items := b.items.push (.fragment bs) }, some fault)
  | (_, none) => (if b.locked then b else { b with items := b.items.push (.instr i) }, none)

def pushFields (b : Block) (fields : List Field) : Block × Option Fault :=
  let (bs, fault) := Field.writeAll b.locked fields
  ({ b with items := if bs.isEmpty then b.items else b.items.push (.fragment bs) }, fault)

def fields (b : Block) : List Field :=
  let bs := b.bytes
  [.text b.name, .count bs.length, .raw bs]

end Block

def internalLinkage : Int := 1
def externalLinkage : Int := 2

structure Func where
  id : Int := -1
  name : String
  linkage : Int := internalLinkage
  params : Array MachineType := #[]
  result : MachineType := {}
  /-- The number of the next value; parameters are the first values. -/
  nextValue : Nat := 0
  blocks : Array Block := #[]
  /-- How many of the blocks a later clearing has discarded. -/
  dropped : Nat := 0
  cursor : Nat := 0
  deriving Inhabited

namespace Func

def liveBlocks (f : Func) : List Block := f.blocks.toList.drop f.dropped

def blockCount (f : Func) : Nat := f.blocks.size - f.dropped

def addParam (f : Func) (t : MachineType) : Func :=
  { f with params := f.params.push t, nextValue := f.nextValue + 1 }

def addBlock (f : Func) (label : Option String) : Func :=
  { f with blocks := f.blocks.push { id := f.blockCount, label := label } }

def fields (f : Func) : List Field :=
  .text f.name :: .word (.id f.linkage) :: f.result.fields ++ .count f.params.size ::
    f.params.toList.flatMap MachineType.fields ++ .count (f.nextValue + 1) ::
    .count f.blockCount :: f.liveBlocks.flatMap Block.fields

def predecessors (f : Func) (self : Nat) (target : BlockRef) : List BlockRef :=
  (List.range f.blocks.size).filterMap fun i =>
    if f.dropped ≤ i && (f.blocks[i]?.any (·.branchesInto target)) then some ⟨self, i⟩ else none

end Func

structure GlobalVar where
  id : Int := -1
  name : String
  type : MachineType
  linkage : Int := internalLinkage
  module : Option String := none
  deriving Inhabited

namespace GlobalVar

def fields (g : GlobalVar) : List Field :=
  .text g.name :: g.type.fields ++ [.word (.id g.linkage)]

end GlobalVar

structure StructDef where
  id : Nat := 0
  name : String
  members : Array MachineType := #[]
  deriving Inhabited

namespace StructDef

def type (s : StructDef) : MachineType := .ofStruct s.id

def fields (s : StructDef) : List Field :=
  .text s.name :: .count s.members.size :: s.members.toList.flatMap MachineType.fields

end StructDef

/-- Entries that the program gets by name during its setup. -/
structure Known where
  noneVar : Option Nat := none
  trueVar : Option Nat := none
  falseVar : Option Nat := none
  functionType : Option Nat := none
  methodType : Option Nat := none
  tupleType : Option Nat := none
  builtins : Option Nat := none
  objectStruct : Option Nat := none
  typeStruct : Option Nat := none
  functionStruct : Option Nat := none
  listStruct : Option Nat := none
  tupleStruct : Option Nat := none
  callableStruct : Option Nat := none

/-- Where instructions go: the function that numbers the values, and the block in hand. -/
structure Cursor where
  func : Nat
  block : Option BlockRef := none
  deriving Inhabited

structure Program where
  structs : Array StructDef := #[]
  structTable : Array Nat := #[]
  globals : Array GlobalVar := #[]
  globalTable : Array (String × Nat) := #[]
  funcs : Array Func := #[]
  funcTable : Array (String × Nat) := #[]
  constants : Array (Constant × Nat) := #[]
  texts : Array (String × Nat) := #[]
  cursors : Array Cursor := #[]
  known : Known := {}

instance : Inhabited Program := ⟨{}⟩

/-- Work on a program; what was done before a fault stays done. -/
abbrev Build := EStateM Fault Program

namespace Program

def lookup (table : Array (String × Nat)) (name : String) : Option Nat :=
  (table.find? (·.1 == name)).map (·.2)

/-- Lists an entry under a name; a name already listed keeps its place. -/
def list (table : Array (String × Nat)) (name : String) (entry : Nat) : Array (String × Nat) :=
  match table.findIdx? (·.1 == name) with
  | some i => table.modify i fun _ => (name, entry)
  | none => table.push (name, entry)

def known! (field : Known → Option Nat) : Build Nat := do
  match field (← get).known with
  | some i => return i
  | none => throw .setupMissing

def newStruct (name : String) (members : Array MachineType) : Build Nat :=
  modifyGet fun p => (p.structs.size, { p with structs := p.structs.push { name, members } })

def listStruct (i : Nat) : Build Unit :=
  modify fun p => { p with
    structs := p.structs.modify i fun s => { s with id := p.structTable.size }
    structTable := p.structTable.push i }

def addMembers (i : Nat) (members : Array MachineType) : Build Unit :=
  modify fun p => { p with
    structs := p.structs.modify i fun s => { s with members := s.members ++ members } }

def newGlobal (g : GlobalVar) : Build Nat :=
  modifyGet fun p => (p.globals.size, { p with globals := p.globals.push g })

/-- A listed variable is numbered by how many were listed before. -/
def listGlobal (i : Nat) : Build Unit :=
  modify fun p =>
    match p.globals[i]? with
    | none => p
    | some g => { p with
        globals := p.globals.modify i fun g => { g with id := p.globalTable.size }
        globalTable := list p.globalTable g.name i }

def addGlobal (g : GlobalVar) : Build Nat := do
  let i ← newGlobal g
  listGlobal i
  return i

def globalId (i : Nat) : Build Int := do
  match (← get).globals[i]? with
  | some g => return g.id
  | none => throw .noMember

def structType (field : Known → Option Nat) : Build MachineType := do
  let i ← known! field
  match (← get).structs[i]? with
  | some s => return s.type
  | none => throw .setupMissing

def objectType : Build MachineType := structType (·.objectStruct)

def objectPtr : Build MachineType := return (← objectType).pointerTo

def typeType : Build MachineType := structType (·.typeStruct)

def listType : Build MachineType := structType (·.listStruct)

def vectorParams : Build (List MachineType) := do
  let object ← objectPtr
  return [object, object.pointerTo, .int64, object]

def vectorFunction : Build MachineType := do
  return .function (← objectPtr) (← vectorParams)

def newCursor (func : Nat) : Build Nat :=
  modifyGet fun p => (p.cursors.size, { p with cursors := p.cursors.push { func } })

/-- Enters a function that is not listed, with a cursor of its own. -/
def newFunc (f : Func) : Build Nat := do
  let i := (← get).funcs.size
  let cursor ← newCursor i
  modifyGet fun p => (i, { p with funcs := p.funcs.push { f with cursor } })

def func (name : String) (result : MachineType) (params : List MachineType)
    (linkage : Int) : Build Nat := do
  let p ← get
  match lookup p.funcTable name with
  | some i => return i
  | none =>
    let i ← newFunc {
      id := p.funcTable.size
      name, linkage, result
      params := params.toArray
      nextValue := params.length }
    modify fun p => { p with funcTable := p.funcTable.push (name, i) }
    return i

/-- The entry of a global variable by name, made at the first request. -/
def global (name : String) (type : MachineType) (linkage : Int) : Build Nat := do
  match lookup (← get).globalTable name with
  | some i => return i
  | none => addGlobal { name, type, linkage }

def findConstant (p : Program) (c : Constant) : Option Nat :=
  (p.constants.find? fun k => k.1.same c).map (·.2)

def isPooled : Constant → Bool
  | .bool _ | .int _ | .float .. | .tuple _ | .text _ | .frozenset _ => true
  | _ => false

/-- Enters a constant, after what its members need, unless an equal one is there already. -/
def pool (c : Constant) (members : Build Unit) : Build Nat := do
  match (← get).findConstant c with
  | some i => return i
  | none =>
    unless isPooled c do throw (.constantRejected (classText c.className))
    members
    let name := "@flyable@const@" ++ toString (← get).constants.size
    let i ← addGlobal { name, type := ← objectPtr }
    modify fun p => { p with constants := p.constants.push (c, i) }
    return i

mutual

/-- The variable of a constant of the pool; members of a collection come before it. -/
def constantVar : Constant → Build Nat
  | .tuple items => pool (.tuple items) (memberVars items)
  | .frozenset items => pool (.frozenset items) (memberVars items)
  | c => pool c (return ())

def memberVars : List Constant → Build Unit
  | [] => return ()
  | c :: rest => do
    discard (constantVar c)
    memberVars rest

end

/-- Lists a variable for a text under the text itself; only a later request finds it. -/
def cText (s : String) : Build (Option Nat) := do
  let p ← get
  match lookup p.texts s with
  | some i => return some i
  | none =>
    let i ← newGlobal { name := "@flyable@str@" ++ s, type := .int8Ptr }
    modify fun p => { p with
      globalTable := list p.globalTable s i
      texts := p.texts.push (s, i) }
    return none

def listedFuncs (p : Program) : List Func :=
  p.funcTable.toList.filterMap fun e => p.funcs[e.2]?

def listedGlobals (p : Program) : List GlobalVar :=
  p.globalTable.toList.filterMap fun e => p.globals[e.2]?

def listedStructs (p : Program) : List StructDef :=
  p.structTable.toList.filterMap fun i => p.structs[i]?

attribute [reducible] typeType listType vectorParams vectorFunction

end Program
end Lowering
