import Lowering.Session.Source

/-!
Descriptions of values, from which an answer can be written down in any format. A description is a
tree of plain parts: what a table holds is described by its number and its name, a type by its kind
and its hints, and everything else by its class.
-/
namespace Lowering.Session

inductive Description
  | nothing
  | bool (b : Bool)
  | int (n : Int)
  | text (s : String)
  | float (x : Binary64)
  | bytes (bs : Bytes)
  | list (items : List Description)
  | record (fields : List (String × Description))

private def kindName (k : ValueKind) : String :=
  ((kindNames.find? (·.2 == k)).map (·.1)).getD ""

private def describedParts (sort : HintClass) (parts : List Value) : Run (List Value) := do
  match sort, parts with
  | .contentRange, _ :: rest | .intRange, _ :: rest => return rest
  | .source _, source :: _ => return [(← nameOf? source).getD .none]
  | _, parts => return parts

mutual

private def ofConstant : Constant → Description
  | .none => .nothing
  | .bool b => .bool b
  | .int n => .int n
  | .text s => .text s
  | .float x _ => .float x
  | .bytes bs => .bytes bs
  | .tuple items | .frozenset items => .list (ofConstants items)
  | c => .record [("obj", .text c.className)]

private def ofConstants : List Constant → List Description
  | [] => []
  | c :: rest => ofConstant c :: ofConstants rest

end

def describeWithin : Nat → Value → Run Description
  | 0, _ => return .nothing
  | fuel + 1, v => do
    let part (v : Value) : Run Description := describeWithin fuel v
    let parts (vs : List Value) : Run Description := do return .list (← vs.mapM part)
    let shownAs (v : Value) : Run Description := return .text (← text v)
    let ofClass : Run Description := return .record [("obj", .text (← classOf v).name)]
    match v with
    | .constant c => return ofConstant c
    | .member _ n => return .int n
    | .kind k => return .text (kindName k)
    | .tuple items | .iterator _ items => parts items
    | .branchesOf ref => do parts (← branchValues ref)
    | .bytesOf w => return .bytes ((← writtenBytes w).getD [])
    | .block _ => return .record [("block", ← shownAs v)]
    | .func i =>
      let id ← part (← funcPart i .id)
      return .record [("func", id), ("name", ← part (← funcPart i .name))]
    | .global i =>
      let id ← part (← globalPart i .id)
      return .record [("global", id), ("str", ← shownAs v)]
    | .struct i =>
      let id ← part (← structPart i .id)
      let name ← part (← structPart i .name)
      let types ← (← structMembers i).mapM shownAs
      return .record [("struct", id), ("name", name), ("types", .list types)]
    | .variable i =>
      let id ← part (← variablePart i .id)
      let name ← part (← variablePart i .name)
      let type ← part (← variablePart i .type)
      let value ← part (← slotValue (← emit (Emit.varAt i)).slot)
      let flags ← [Aspect.used, .isArg, .isGlobal, .initialized, .isModule, .ofModule].mapM fun a => do
        part (← variablePart i a)
      return .record [("var", id), ("name", name), ("type", type), ("value", value),
        ("flags", .list flags)]
    | .report message line row => return .record [("err", ← parts [message, line, row])]
    | .flag i =>
      let f := ((← get).flags[i]?).getD default
      let value ← part f.flag.value
      return .record [("flag", (f.name.map Description.text).getD .nothing),
        ("enabled", .bool f.flag.enabled), ("value", value), ("default", ← part f.flag.initial)]
    | .step i =>
      let s := ((← get).steps[i]?).getD default
      return .record [("step", ← part s.name), ("status", .text s.status.name)]
    | .object i =>
      match ((← get).objects[i]?).getD default with
      | .list items => parts items
      | .type kind id hints =>
        match kind with
        | .kind k =>
          let id ← part id
          let hints ← (← listAt hints).mapM fun h => do
            match ← object? h with
            | some (.hint sort ps) =>
              let name := ((hintName sort).drop 8).toString
              let described ← (← describedParts sort ps).mapM part
              return .list (.text name :: described)
            | _ => throw .noMember
          return .record [("lang", .text (kindName k)), ("id", id), ("hints", .list hints)]
        | _ => throw .noMember
      | .layout _ => return .record [("code", ← shownAs v)]
      | .hint sort _ => return .record [("hint", .text (hintName sort))]
      | _ => ofClass
    | _ => ofClass

def describe (v : Value) : Run Description := do
  describeWithin ((← get).objects.size + 100) v

/-! ### The tables -/

private def textOrNothing (v : Value) : Run Description := do
  try return .text (← text v)
  catch _ => return .nothing

def describeFunc (i : Nat) : Run Description := do
  let id ← describe (← funcPart i .id)
  let name ← describe (← funcPart i .name)
  let linkage ← describe (← funcPart i .linkage)
  let result ← textOrNothing (← funcPart i .result)
  return .list [id, name, linkage, result, .list (← (← funcParams i).mapM textOrNothing)]

def describeGlobal (i : Nat) : Run Description := do
  let id ← describe (← globalPart i .id)
  let name ← describe (← globalPart i .name)
  return .list [id, name, ← textOrNothing (← globalPart i .type)]

def describeReports : Run (List Description) := do
  (← compilerReports).mapM fun
    | .report message line row => do
      let parts ← [message, line, row].mapM describe
      return .list parts
    | v => describe v

/-! ### What blocks gain -/

abbrev Sizes := List (Nat × Array Nat)

/-- The functions of the program, then others in the order in which they were given. -/
def followed (given : List Nat) : Run (List Nat) := do
  let listed := (← programNow).funcTable.toList.map (·.2)
  return listed ++ given.filter (!listed.contains ·)

def sizesOf (funcs : List Nat) : Run Sizes :=
  funcs.mapM fun i => do return (i, (← funcAt i).blocks.map (·.items.size))

/-- The blocks that are new or have grown: the name of the function, the place of the block, and the
bytes it gained. -/
def gained (old : Sizes) (funcs : List Nat) : Run (List (Description × Nat × Bytes)) := do
  let parts ← funcs.mapM fun i => do
    let f ← funcAt i
    let name ← describe (← funcPart i .name)
    let sizes := old.lookup i
    return (f.blocks.toList.zipIdx.drop f.dropped).filterMap fun (b, k) =>
      let size := sizes.bind (·[k]?)
      let bytes := (b.items.toList.drop (size.getD 0)).flatMap Item.bytes
      if size.isSome && bytes.isEmpty then none else some (name, k - f.dropped, bytes)
  return parts.flatten

def cursorBlock (cursor : Nat) : Run (Option Nat) := do
  match ((← programNow).cursors[cursor]?).bind (·.block) with
  | some ref => return some (← emit (Emit.block ref)).id
  | none => return none

end Lowering.Session
