import Lowering.Lower.Expression

/-!
Lowering of comprehensions: nested loops, the conditions of each, and one action inside all of them.
-/
namespace Lowering.Lower

open Emit

/-- Adds a variable of the function, with room for a value of its type. -/
def newVariable (name : Label) (type : Option ValueType) : Emit Operand := do
  let impl ← implOf (← currentImpl)
  let v ← addVariable impl.scope name.plain type
  let address ← entryVar (← machineType (← known type))
  modifyVariable v fun v => { v with slot := .value address }
  return address

/-- Binds the target of a loop to an item; other targets than names and tuples stay unbound. -/
def bindTarget (r : Recur) (node target : Node) (type : Option ValueType) (item : Term) :
    Emit Unit := do
  match target.form with
  | .name id _ =>
    let address ← newVariable id type
    discard (store item.value address)
  | .tuple elts _ | .list elts _ => unpack r (← each elts) item node
  | _ => return ()

def guardBy (r : Recur) (otherwise : BlockRef) (test : Node) : Emit Unit := do
  let holds ← createBlock
  let t ← r.term test
  let c ← condition t.type t.value
  condBranch c.value holds otherwise
  setBlock holds

/-- One loop of a comprehension. When it ends it goes to `done`. Gives its first block. -/
def openLoop (r : Recur) (node generator : Node) (done : BlockRef) : Emit BlockRef := do
  match generator.form with
  | .comprehension target iter ifs =>
    let source ← r.term iter
    let iterator ← callMethod "__iter__" source.value source.type .empty .empty
    let loop ← createBlock
    branch loop
    setBlock loop
    let item ← callMethod "__next__" iterator.value iterator.type .empty .empty
    let zero ← null (← objectPtr)
    discard clearError
    let isNull ← eq item.value zero
    let inside ← createBlock
    condBranch isNull done inside
    setBlock inside
    bindTarget r node target source.type item
    for test in ← each ifs do
      guardBy r loop test
    return loop
  | _ => throw .noMember

def openLoops (r : Recur) (node : Node) (action : Emit Unit) :
    List Node → BlockRef → Emit Unit
  | [], _ => return ()
  | [generator], done => do
    let loop ← openLoop r node generator done
    action
    branch loop
  | generator :: rest, done => do
    let loop ← openLoop r node generator done
    openLoops r node action rest loop

/-- Runs an action for the items of all generators, an inner loop going on with the outer one when
it ends. -/
def comprehend (r : Recur) (node generators : Node) (action : Emit Unit) : Emit Unit := do
  let done ← createBlock
  openLoops r node action (← each generators) done
  setBlock done

def listComp (r : Recur) (node elt generators : Node) : Emit Unit := do
  let zero ← int64 0
  let list ← newList zero
  comprehend r node generators do
    let t ← r.term elt
    let item ← box t.value t.type
    listAppend list item.type item.value
  setLast ⟨some .python, list⟩

def setComp (r : Recur) (node elt generators : Node) : Emit Unit := do
  let zero ← null (← objectPtr)
  let set ← newSet zero
  comprehend r node generators do
    let t ← r.term elt
    let item ← box t.value t.type
    discard (setAdd set item.value)
  setLast ⟨some .python, set⟩

def dictComp (r : Recur) (node key value generators : Node) : Emit Unit := do
  let dict ← newDict
  comprehend r node generators do
    let k ← r.term key
    let v ← r.term value
    let k ← box k.value k.type
    let v ← box v.value v.type
    discard (dictSet dict k.value v.value)
  setLast ⟨some .python, dict⟩

def generator (r : Recur) (target iter : Node) : Emit Unit := do
  match target.form with
  | .name id _ =>
    let source ← r.term iter
    discard (newVariable id source.type)
    setLast (← callMethod "__iter__" source.value source.type [source.value] [source.type])
  | _ => throw .noMember

attribute [reducible] listComp setComp dictComp

end Lowering.Lower
