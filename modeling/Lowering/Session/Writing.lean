import Lowering.Session.Command

/-!
Writers of a session, which collect the bytes of what is written to them until they are locked, and
the fields that a value is written as. The writer of a block is a writer too.
-/
namespace Lowering.Session

/-! ### Fields of values -/

private def isIntegerClass : Value → Bool
  | .classNamed name => name == "int" || name == "bool"
  | _ => false

/-- A word for the number of a value. The class of the integers takes the width for a number, which it
writes as one byte. -/
def wordField (v : Value) : Run Field := do
  if isIntegerClass v then return .raw [4]
  return .word (← operandOf v)

/-- Eight bytes for a number; the class of the integers takes the width for it. -/
def longField (v : Value) : Run Field := do
  if isIntegerClass v then return .raw [8]
  return .long (← operandOf v)

def integerField (v : Value) : Run Field := do
  try return .word (.id (← integerOf v))
  catch e => return .defect e

/-- The fields of a text; of anything else that has a size, only the size. -/
def textFields (v : Value) : Run (List Field) := do
  match v.text? with
  | some s => return [.text s]
  | none =>
    match ← size? v with
    | some n => return [.count n, .refuse .misuse]
    | none => return [.refuse .misuse]

private def listFields (v : Value) (fields : Value → Run (List Field)) : Run (List Field) := do
  match ← size? v, ← items? v with
  | some n, some items => return .count n :: (← items.mapM fields).flatten
  | some n, none => return [.count n, .defect .misuse]
  | none, _ => return [.defect .misuse]

mutual

def fieldsWithin : Nat → Value → Run (List Field)
  | 0, _ => return []
  | fuel + 1, v => do
    let each (vs : List Value) : Run (List Field) := do
      return (← vs.mapM (fieldsWithin fuel)).flatten
    match v with
    | .struct i =>
      let members ← structMembers i
      return (← textFields (← structPart i .name)) ++ .count members.length :: (← each members)
    | .global i =>
      let name ← textFields (← globalPart i .name)
      let type ← fieldsWithin fuel (← globalPart i .type)
      return name ++ type ++ [← integerField (← globalPart i .linkage)]
    | .func i =>
      let f ← funcAt i
      let name ← textFields (← funcPart i .name)
      let linkage ← integerField (← funcPart i .linkage)
      let result ← fieldsWithin fuel (← funcPart i .result)
      let params ← each (← funcParams i)
      return name ++ linkage :: result ++ .count f.params.size :: params ++
        .count (f.nextValue + 1) :: .count f.blockCount :: f.liveBlocks.flatMap Block.fields
    | .block ref => return (← emit (Emit.block ref)).fields
    | .initializer none => return [.count 0]
    | .initializer (some text) => return .count 1 :: (← textFields text)
    | v =>
      match ← object? v with
      | some (.layout l) => layoutFieldsWithin fuel l
      | _ =>
        match ← writtenBytes v with
        | some bs => return [.count bs.length, .raw bs]
        | none => return [.defect .noMember]

/-- A machine type is written as its layer and, for functions and arrays, the types inside. -/
def layoutFieldsWithin (fuel : Nat) (l : Layout) : Run (List Field) := do
  let layer := [← integerField l.primitive, ← integerField l.pointers, ← integerField l.structId]
  let is (p : Primitive) : Run Bool := equal l.primitive (.member .primitive p.code)
  if ← is .func then
    if l.result.isNone then return layer ++ [.defect .functionTypeUnset]
    let result ← fieldsWithin fuel l.result
    return layer ++ result ++ (← listFields l.params (fieldsWithin fuel))
  else if ← is .array then
    if l.element.isNone then return layer ++ [.defect .arrayTypeUnset]
    let element ← fieldsWithin fuel l.element
    return layer ++ element ++ [← wordField l.size]
  else return layer

end

def fieldsOf (v : Value) : Run (List Field) := do fieldsWithin ((← get).objects.size + 10) v

/-! ### Writers -/

def writer? (v : Value) : Run (Option Writer) := do
  match v with
  | .blockWriter ref =>
    let b ← emit (Emit.block ref)
    return some { bytes := b.bytes, locked := b.locked }
  | v =>
    match ← object? v with
    | some (.writer w) => return some w
    | _ => return none

def readWriter (v : Value) : Run Writer := do need (← writer? v)

private def firstWord? : List Field → Run (Option String)
  | .word n :: _ => do return some (← text (← valueOf n))
  | .text s :: _ => return some (toString s.length)
  | _ => return none

def writeTo (v : Value) (fields : List Field) : Run Unit := do
  let (new, fault) := (← readWriter v).write fields
  match v with
  | .blockWriter ref =>
    match ← firstWord? fields with
    | some word => announce ref word
    | none => pure ()
    emit (Emit.modifyBlock ref fun b => (b.pushFields fields).1)
  | .object i => setObject i (.writer new)
  | _ => return ()
  match fault with
  | some fault => throw fault
  | none => return ()

private def addBytes (self : Value) (bytes : Value) : Run Unit := do
  let w ← readWriter self
  if w.locked then return ()
  match bytes with
  | .constant (.bytes bs) => writeTo self [.raw bs]
  | .bytesOf other =>
    if identical self other && !w.bytes.isEmpty then throw .inUse
    writeTo self [.raw ((← writtenBytes other).getD [])]
  | _ => throw .misuse

private def copyTo (source target : Value) : Run Unit := do
  discard (readWriter target)
  writeTo target [.count (← readWriter source).bytes.length]
  addBytes target (.bytesOf source)

private def copyBlock (target : Value) (ref : BlockRef) : Run Unit := do
  writeTo target [.text (← emit (Emit.block ref)).name]
  copyTo (.blockWriter ref) target

def writeInto (source target : Value) : Run Unit := do
  discard (readWriter target)
  match source with
  | .block ref => copyBlock target ref
  | .func i =>
    let f ← funcAt i
    let size := (f.liveBlocks.flatMap Block.fields).length
    let fields ← fieldsOf source
    writeTo target (fields.take (fields.length - size))
    for k in List.range f.blocks.size do
      if f.dropped ≤ k then copyBlock target ⟨i, k⟩
  | v =>
    match ← writer? v with
    | some _ => copyTo v target
    | none => writeTo target (← fieldsOf v)

def writing (self : Value) : Command := command "writer" fun (target : Value) => writeInto self target

private def lockWriter (v : Value) : Run Unit := do
  match v with
  | .blockWriter ref => emit (Emit.modifyBlock ref fun b => { b with locked := true })
  | .object i => setObject i (.writer { ← readWriter v with locked := true })
  | _ => return ()

def double? (v : Value) : Option Binary64 :=
  match v, v.toInt? with
  | .constant (.float x _), _ => some x
  | _, some n => Binary64.ofInt? n
  | _, none => none

def writerMethods (self : Value) : Commands :=
  let add (field : Value → Run (List Field)) : Command :=
    command "value" fun (v : Value) => (do writeTo self (← field v) : Run Unit)
  [("addInt32", add fun v => return [← wordField v]),
    ("addInt64", add fun v => return [← longField v]),
    ("addFloat32", add fun v => return [.single (double? v)]),
    ("addFloat64", add fun v => return [.double (double? v)]),
    ("addText", add textFields),
    ("addBytes", command "bytes" fun (v : Value) => addBytes self v),
    ("data", plainly (return .bytesOf self)), ("bytes", plainly (return .bytesOf self)),
    ("lock", command "" (lockWriter self)),
    ("isLocked", command "" (return (← readWriter self).locked : Run Bool)),
    ("length", command "" (return (← readWriter self).bytes.length : Run Nat)),
    ("writeTo", writing self)]

end Lowering.Session
