import Lowering.Session.Comparison

/-!
Between the objects of a session and the tables of the program. The lowering sees of a type what it
needs of it; an object that the tables hold can be asked for, and a change of it reaches the tables.
-/
namespace Lowering.Session

mutual

def constantOf? : Value → Option Constant
  | .constant c => some c
  | .member _ n => some (.int n)
  | .tuple items => (constantsOf? items).map .tuple
  | _ => none

def constantsOf? : List Value → Option (List Constant)
  | [] => some []
  | v :: rest =>
    match constantOf? v, constantsOf? rest with
    | some c, some cs => some (c :: cs)
    | _, _ => none

end

private def constantOf (v : Value) : Constant := (constantOf? v).getD .none

/-! ### Objects as the lowering sees them -/

mutual

def typeWithin : Nat → Value → Run (Option ValueType)
  | 0, _ => return none
  | fuel + 1, v => do
    match ← object? v with
    | some (.type kind id hints) =>
      let kind := match kind with
        | .kind k => k
        | _ => .super
      let hints ← hintsWithin fuel (← listAt hints)
      return some (.mk kind (id.toInt?.getD 0) hints)
    | _ => return none

def hintsWithin (fuel : Nat) : List Value → Run (List Hint)
  | [] => return []
  | v :: rest => do
    let h ← hintWithin fuel v
    return h :: (← hintsWithin fuel rest)

def hintWithin : Nat → Value → Run Hint
  | 0, _ => return .plain
  | fuel + 1, v => do
    match ← object? v with
    | some (.hint sort parts) =>
      let part (i : Nat) : Value := parts[i]?.getD .none
      match sort with
      | .any => return .plain
      | .constant s => return .constant s (constantOf (part 0))
      | .canBeNone => return .canBeNone
      | .classPath => return .classPath ((part 0).text?.getD "")
      | .constLen => return .constLen (constantOf (part 0))
      | .content => return .content (← typeWithin fuel (part 0))
      | .contentRange =>
        return .contentRange (constantOf (part 0)) (constantOf (part 1)) (← typeWithin fuel (part 2))
      | .refIncr => return .refIncr
      | .refCount => return .refCount (constantOf (part 0))
      | .source s =>
        match part 0 with
        | .variable i => return .source s (.variable i)
        | .object i => return .source s (.member i)
        | _ => return .source s (.member 0)
      | .intRange => return .intRange (constantOf (part 0)) (constantOf (part 1))
    | _ => return .plain

end

private def depthNow : Run Nat := return (← get).objects.size + 2

def type? (v : Value) : Run (Option ValueType) := do typeWithin (← depthNow) v

private def primitiveOf (v : Value) : Primitive :=
  match place? v with
  | some p => (Primitive.all.find? fun q => p.same (.finite q.code 0)).getD .void
  | none => .void

mutual

def machineWithin : Nat → Value → Run (Option MachineType)
  | 0, _ => return none
  | fuel + 1, v => do
    match ← object? v with
    | some (.layout l) =>
      let params ← machinesWithin fuel ((← items? l.params).getD [])
      return some {
        primitive := primitiveOf l.primitive
        structId := l.structId.toInt?.getD 0
        pointers := (l.pointers.toInt?.getD 0).toNat
        result := ← machineWithin fuel l.result
        params
        element := ← machineWithin fuel l.element
        size := ← operandOf l.size }
    | _ => return none

def machinesWithin (fuel : Nat) : List Value → Run (List MachineType)
  | [] => return []
  | v :: rest => do
    let t ← machineWithin fuel v
    return (t.getD {}) :: (← machinesWithin fuel rest)

end

def machine? (v : Value) : Run (Option MachineType) := do machineWithin (← depthNow) v

/-! ### Objects for what the tables hold -/

mutual

def newType : ValueType → Run Value
  | .mk kind id hints => do
    let hints ← newHints hints
    newKindOf (.kind kind) (.int id) hints

def newHints : List Hint → Run (List Value)
  | [] => return []
  | h :: rest => do
    let v ← newHint h
    return v :: (← newHints rest)

def newHint : Hint → Run Value
  | .plain => store (.hint .any [])
  | .constant sort c => store (.hint (.constant sort) [.ofConstant c])
  | .canBeNone => store (.hint .canBeNone [])
  | .classPath path => store (.hint .classPath [.text path])
  | .constLen c => store (.hint .constLen [.ofConstant c])
  | .content t => do
    let inner ← newOptionalType t
    store (.hint .content [inner])
  | .contentRange low high t => do
    let inner ← newOptionalType t
    store (.hint .contentRange [.ofConstant low, .ofConstant high, inner])
  | .refIncr => store (.hint .refIncr [])
  | .refCount c => store (.hint .refCount [.ofConstant c])
  | .source sort (.variable i) => store (.hint (.source sort) [.variable i])
  | .source sort (.member i) => store (.hint (.source sort) [.object i])
  | .intRange low high => store (.hint .intRange [.ofConstant low, .ofConstant high])

def newOptionalType : Option ValueType → Run Value
  | some t => newType t
  | none => return .none

end

mutual

def newMachine : MachineType → Run Value
  | ⟨primitive, structId, pointers, result, params, element, size⟩ => do
    let result ← newOptionalMachine result
    let params ← newMachines params
    let element ← newOptionalMachine element
    let params ← newList params
    let size ← valueOf size
    store (.layout {
      primitive := .member .primitive primitive.code
      structId := .int structId
      pointers := .int pointers
      result, params, element, size })

def newMachines : List MachineType → Run (List Value)
  | [] => return []
  | t :: rest => do
    let v ← newMachine t
    return v :: (← newMachines rest)

def newOptionalMachine : Option MachineType → Run Value
  | some t => newMachine t
  | none => return .none

end

/-! ### Entries of the tables -/

/-- A name as the tables hold it. What is no text has a form that no text has. -/
def nameText (v : Value) : Run String := do
  match v.text? with
  | some s => return s
  | none =>
    try return "\x00" ++ (← keyOf v)
    catch _ => return "\x00"

mutual

private def typeKey : ValueType → String
  | .mk kind id hints => reprStr kind ++ " " ++ toString id ++ " (" ++ hintsKey hints ++ ")"

private def hintsKey : List Hint → String
  | [] => ""
  | h :: rest => hintKey h ++ ", " ++ hintsKey rest

private def hintKey : Hint → String
  | .plain => "plain"
  | .constant sort c => reprStr sort ++ " " ++ reprStr c
  | .canBeNone => "canBeNone"
  | .classPath path => "class " ++ path
  | .constLen c => "length " ++ reprStr c
  | .content t => "content " ++ optionalTypeKey t
  | .contentRange low high t =>
    "range " ++ reprStr low ++ " " ++ reprStr high ++ " " ++ optionalTypeKey t
  | .refIncr => "refIncr"
  | .refCount c => "count " ++ reprStr c
  | .source sort ref => reprStr sort ++ " " ++ reprStr ref
  | .intRange low high => "ints " ++ reprStr low ++ " " ++ reprStr high

private def optionalTypeKey : Option ValueType → String
  | some t => typeKey t
  | none => "none"

end

def showsType (v : Value) (held : Option ValueType) : Run Bool := do
  return optionalTypeKey (← type? v) == optionalTypeKey held

/-- The type of an entry as an object: the one that was given or shown before, as long as the tables
hold the same type. -/
def typeAspect (owner : Owner) (aspect : Aspect) (held : Option ValueType) : Run Value := do
  match ← detail? owner aspect with
  | some v => if ← showsType v held then return v
  | none => pure ()
  let v ← newOptionalType held
  setDetail owner aspect v
  return v

private def statusOf (v : Value) : Int :=
  match place? v with
  | some p => if p.same (.finite 0 0) then 0 else v.toInt?.getD 1
  | none => 1

def conventionOf (v : Value) : Convention :=
  match place? v with
  | some p =>
    if p.same (.finite 1 0) then .specialized
    else if p.same (.finite 2 0) then .vector
    else if p.same (.finite 3 0) then .tuple
    else .none
  | none => .none

private def modifyGlobal (i : Nat) (f : GlobalVar → GlobalVar) : Run Unit :=
  emit (modify fun s => { s with
    program := { s.program with globals := s.program.globals.modify i f } })

private def modifyStruct (i : Nat) (f : StructDef → StructDef) : Run Unit :=
  emit (modify fun s => { s with
    program := { s.program with structs := s.program.structs.modify i f } })

private def modifyImpl (i : Nat) (f : Impl → Impl) : Run Unit :=
  emit (modify fun s => { s with impls := s.impls.modify i f })

private def modifyFile (i : Nat) (f : SourceFile → SourceFile) : Run Unit :=
  emit (modify fun s => { s with files := s.files.modify i f })

private def modifyReport (i : Nat) (f : Report → Report) : Run Unit :=
  emit (modify fun s => { s with reports := s.reports.modify i f })

private def setVariable (i : Nat) (aspect : Aspect) (v : Value) : Run Unit := do
  let change (f : Variable → Variable) : Run Unit := emit (Emit.modifyVariable i f)
  let truth ← isTruthy v
  match aspect with
  | .id => change fun x => { x with id := v.toInt?.getD 0 }
  | .name => let s ← nameText v; change fun x => { x with name := s }
  | .type => let t ← type? v; change fun x => { x with type := t.getD .unknown }
  | .scope => change fun x => { x with scope := match v with | .scope s => some s | _ => none }
  | .used => change fun x => { x with used := truth }
  | .isArg => change fun x => { x with isArg := truth }
  | .isGlobal => change fun x => { x with isGlobal := truth }
  | .initialized => change fun x => { x with initialized := truth }
  | .isModule => change fun x => { x with isModule := truth }
  | .ofModule => change fun x => { x with ofModule := truth }
  | _ => return ()

/-- Lets the tables hold what an entry was given, as far as they can. -/
def setHeld (owner : Owner) (aspect : Aspect) (v : Value) : Run Unit := do
  match owner, aspect with
  | .variable i, aspect => setVariable i aspect v
  | .impl i, .id => modifyImpl i fun x => { x with id := v.toInt?.getD 0 }
  | .impl i, .status =>
    modifyImpl i fun x => { x with status := statusOf v }
  | .impl i, .convention => modifyImpl i fun x => { x with convention := conventionOf v }
  | .impl i, .parent =>
    modifyImpl i fun x => { x with parent := match v with | .definition d => some d | _ => none }
  | .impl i, .item k =>
    let t ← type? v
    modifyImpl i fun x => { x with args := x.args.modify k fun _ => t.getD .unknown }
  | .definition i, .id =>
    emit (modify fun s => { s with
      definitions := s.definitions.modify i fun d => { d with id := v.toInt?.getD 0 } })
  | .file i, .path => let s ← nameText v; modifyFile i fun f => { f with path := s }
  | .file i, .text => modifyFile i fun f => { f with text := v.text?.getD "" }
  | .func i, .id => emit (Emit.modifyFunc i fun f => { f with id := v.toInt?.getD 0 })
  | .func i, .name => let s ← nameText v; emit (Emit.modifyFunc i fun f => { f with name := s })
  | .func i, .linkage => emit (Emit.modifyFunc i fun f => { f with linkage := v.toInt?.getD 0 })
  | .func i, .result =>
    let t ← machine? v
    emit (Emit.modifyFunc i fun f => { f with result := t.getD .int64 })
  | .func i, .item k =>
    let t ← machine? v
    emit (Emit.modifyFunc i fun f => { f with params := f.params.modify k fun _ => t.getD {} })
  | .block ref, .label => emit (Emit.modifyBlock ref fun b => { b with label := v.text? })
  | .block ref, .returns =>
    let truth ← isTruthy v
    emit (Emit.modifyBlock ref fun b => { b with returns := truth })
  | .global i, .id => modifyGlobal i fun g => { g with id := v.toInt?.getD 0 }
  | .global i, .name => let s ← nameText v; modifyGlobal i fun g => { g with name := s }
  | .global i, .type => let t ← machine? v; modifyGlobal i fun g => { g with type := t.getD {} }
  | .global i, .linkage => modifyGlobal i fun g => { g with linkage := v.toInt?.getD 0 }
  | .global i, .module => modifyGlobal i fun g => { g with module := v.text? }
  | .struct i, .id => modifyStruct i fun s => { s with id := (v.toInt?.getD 0).toNat }
  | .struct i, .name => let s ← nameText v; modifyStruct i fun t => { t with name := s }
  | .struct i, .item k =>
    let t ← machine? v
    modifyStruct i fun s => { s with members := s.members.modify k fun _ => t.getD {} }
  | .report i, .message => modifyReport i fun r => { r with message := v.text?.getD "" }
  | .report i, .line => modifyReport i fun r => { r with line := v.toInt?.getD 0 }
  | .report i, .row => modifyReport i fun r => { r with row := v.toInt?.getD 0 }
  | .operand place value, .type =>
    let t ← type? v
    emit (modify fun s =>
      let stack := s.stack.stack.reverse
      match stack[place]? with
      | some u =>
        if u.value = value then
          { s with stack := { s.stack with stack := (stack.set place ⟨t, value⟩).reverse } }
        else s
      | none => s)
  | .frame, .assignedType =>
    let t ← type? v
    emit (modify fun s => { s with
      tree := { s.tree with assigned := { s.tree.assigned with type := t } } })
  | .frame, .lastType =>
    let t ← type? v
    emit (modify fun s => { s with tree := { s.tree with last := { s.tree.last with type := t } } })
  | _, _ => return ()

def setAspect (owner : Owner) (aspect : Aspect) (v : Value) : Run Unit := do
  setDetail owner aspect v
  setHeld owner aspect v

def refresh : Run Unit := do
  for ((owner, aspect), v) in (← get).details do
    match v with
    | .object _ => setHeld owner aspect v
    | _ => pure ()

def changeObject (i : Nat) (o : Object) : Run Unit := do
  setObject i o
  refresh

/-! ### What the entries can be asked for -/

private def truthOf (owner : Owner) (aspect : Aspect) (held : Bool) : Run Value := do
  match ← detail? owner aspect with
  | some v => if (← isTruthy v) == held then return v else return .bool held
  | none => return .bool held

def variablePart (i : Nat) (aspect : Aspect) : Run Value := do
  let v ← emit (Emit.varAt i)
  let owner := Owner.variable i
  match aspect with
  | .id => aspectOf owner .id (return .int v.id)
  | .name => aspectOf owner .name (return .text v.name)
  | .type => typeAspect owner .type (some v.type)
  | .scope => aspectOf owner .scope (return .ofOption .scope v.scope)
  | .used => truthOf owner .used v.used
  | .isArg => truthOf owner .isArg v.isArg
  | .isGlobal => truthOf owner .isGlobal v.isGlobal
  | .initialized => truthOf owner .initialized v.initialized
  | .isModule => truthOf owner .isModule v.isModule
  | .ofModule => truthOf owner .ofModule v.ofModule
  | _ => return .none

def funcAt (i : Nat) : Run Func := return ((← programNow).funcs[i]?).getD default

private def linkageValue (n : Int) : Value :=
  if n = 1 ∨ n = 2 then .member .linkage n.toNat else .int n

def funcPart (i : Nat) (aspect : Aspect) : Run Value := do
  let f ← funcAt i
  let owner := Owner.func i
  match aspect with
  | .id => aspectOf owner .id (return .int f.id)
  | .name => aspectOf owner .name (return .text f.name)
  | .linkage => aspectOf owner .linkage (return linkageValue f.linkage)
  | .result => aspectOf owner .result (newMachine f.result)
  | .item k => aspectOf owner (.item k) (newMachine (f.params[k]?.getD {}))
  | _ => return .none

def funcParams (i : Nat) : Run (List Value) := do
  (List.range (← funcAt i).params.size).mapM fun k => funcPart i (.item k)

def blockPart (ref : BlockRef) (aspect : Aspect) : Run Value := do
  let b ← emit (Emit.block ref)
  match aspect with
  | .label => aspectOf (.block ref) .label (return .ofOption .text b.label)
  | .returns => truthOf (.block ref) .returns b.returns
  | _ => return .none

def globalPart (i : Nat) (aspect : Aspect) : Run Value := do
  let g := ((← programNow).globals[i]?).getD default
  let owner := Owner.global i
  match aspect with
  | .id => aspectOf owner .id (return .int g.id)
  | .name => aspectOf owner .name (return .text g.name)
  | .type => aspectOf owner .type (newMachine g.type)
  | .linkage => aspectOf owner .linkage (return linkageValue g.linkage)
  | .module => aspectOf owner .module (return .ofOption .text g.module)
  | _ => return .none

def structAt (i : Nat) : Run StructDef := return ((← programNow).structs[i]?).getD default

def structPart (i : Nat) (aspect : Aspect) : Run Value := do
  let s ← structAt i
  let owner := Owner.struct i
  match aspect with
  | .id => aspectOf owner .id (return .int s.id)
  | .name => aspectOf owner .name (return .text s.name)
  | .item k => aspectOf owner (.item k) (newMachine (s.members[k]?.getD {}))
  | _ => return .none

def structMembers (i : Nat) : Run (List Value) := do
  (List.range (← structAt i).members.size).mapM fun k => structPart i (.item k)

private def conventionValue : Convention → Value
  | .none => .member .convention 0
  | .specialized => .member .convention 1
  | .vector => .member .convention 2
  | .tuple => .member .convention 3

def implPart (i : Nat) (aspect : Aspect) : Run Value := do
  let m ← emit (Emit.implOf i)
  let owner := Owner.impl i
  match aspect with
  | .id => aspectOf owner .id (return .int m.id)
  | .status =>
    match ← detail? owner .status with
    | some v => if statusOf v = m.status then return v else return .member .status m.status.toNat
    | none => return .member .status m.status.toNat
  | .convention => aspectOf owner .convention (return conventionValue m.convention)
  | .parent => aspectOf owner .parent (return .ofOption .definition m.parent)
  | .item k => typeAspect owner (.item k) (some (m.args[k]?.getD .unknown))
  | _ => return .none

def implArgs (i : Nat) : Run (List Value) := do
  (List.range (← emit (Emit.implOf i)).args.size).mapM fun k => implPart i (.item k)

def definitionId (i : Nat) : Run Value := do
  let d := ((← stateNow).definitions[i]?).getD default
  aspectOf (.definition i) .id (return .int d.id)

def filePart (i : Nat) (aspect : Aspect) : Run Value := do
  let f := ((← stateNow).files[i]?).getD default
  match aspect with
  | .path => aspectOf (.file i) .path (return .text f.path)
  | .text => aspectOf (.file i) .text (return .text f.text)
  | _ => return .none

def reportAt (i : Nat) : Run Value := do
  let r := ((← stateNow).reports[i]?).getD default
  let message ← aspectOf (.report i) .message (return .text r.message)
  let line ← aspectOf (.report i) .line (return .int r.line)
  let row ← aspectOf (.report i) .row (return .int r.row)
  return .report message line row

def slotValue (slot : Slot) : Run Value := do
  match slot with
  | .empty => return .none
  | .value v => valueOf v
  | .global i => return .global i

end Lowering.Session
