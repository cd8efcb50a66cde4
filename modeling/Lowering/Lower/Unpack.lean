import Lowering.Emit.Unpack
import Lowering.Lower.Frame

/-!
Assignment of the items of a value to several targets.
-/
namespace Lowering.Lower

open Emit

def isStarred (n : Node) : Bool :=
  match n.form with
  | .starred .. => true
  | _ => false

/-- How many targets stand before the first starred one, and how many after the last; `-1` if there
is none. A second starred target raises an error when the program runs. -/
def starredPlaces (targets : List Node) : Emit (Nat × Int) := do
  let mut before := 0
  let mut after : Int := -1
  let mut seen := false
  for target in targets do
    if isStarred target then
      if seen then raiseIndexError
      after := 0
      seen := true
    else if seen then after := after + 1
    else before := before + 1
  return (before, after)

def reportAt (message : String) (node : Node) : Emit Unit := do
  match node.span with
  | some span => report message span.line span.endColumn
  | none => throw .noMember

def targetAt (targets : List Node) (i : Nat) : Emit Node :=
  match targets[i]? with
  | some t => return t
  | none => throw .outOfRange

def starredTarget (n : Node) : Emit Node :=
  match n.form with
  | .starred target _ => return target
  | _ => throw .noMember

/-- Items of an iterator, one after the other, each given to `assign`. -/
def unpackIterable (assign : Node → Term → Emit Unit) (targets : List Node) (value : Term)
    (before : Nat) (after : Int) : Emit Unit := do
  let error ← createBlock (some "Unpack Error")
  let rest ← createBlock (some "After Unpack")
  let iterator ← callMethod "__iter__" value.value value.type .empty .empty
  for (target, i) in (targets.take before).zipIdx do
    let test ← createBlock (some "Test Next")
    branch test
    setBlock test
    let next ← callMethod "__next__" iterator.value iterator.type .empty .empty
    let zero ← null (← objectPtr)
    discard clearError
    let isNull ← eq next.value zero
    let unpack ← createBlock (some "Unpack")
    condBranch isNull error unpack
    setBlock unpack
    assign target next
    if i + 1 = before && after == -1 then
      let next ← callMethod "__next__" iterator.value iterator.type .empty .empty
      let zero ← null (← objectPtr)
      discard clearError
      let isNull ← eq next.value zero
      condBranch isNull rest error
  if after ≠ -1 then
    let last ← createBlock (some "Args After")
    let list ← restToList last iterator
    setBlock last
    let length ← listLength list.value
    let middle ← listWithoutLast (.id after) list length
    assign (← starredTarget (← targetAt targets before)) middle
    for k in List.range after.toNat do
      let item ← itemFromEnd list length (after - k)
      let target ← targetAt targets (before + k + 1)
      assign target item
    branch rest
  setBlock error
  raiseIndexError
  setBlock rest

/-- Items of a list or tuple, after a check of their number. With a starred target the items are
taken from an iterator first. -/
def unpackSized (assign : Node → Term → Emit Unit) (targets : List Node) (value : Term)
    (before : Nat) (after : Int) : Emit Unit := do
  if after ≥ 0 then unpackIterable assign targets value before after
  let unpack ← createBlock (some "Unpack")
  let error ← createBlock (some "Unpack Error")
  let rest ← createBlock (some "After Unpack")
  let count ← int64 targets.length
  let length ← listLength value.value
  let test ← eq length count
  condBranch test unpack error
  setBlock unpack
  for (target, i) in targets.zipIdx do
    let index ← int64 i
    let indexType := ValueType.integer.addHint (.constant .integer (.int i))
    let item ← callMethod "__getitem__" value.value value.type [index] [some indexType]
    let t ← known item.type
    unless t.isIncremented do retain item.type item.value
    assign target item
  branch rest
  setBlock error
  raiseIndexError
  setBlock rest

def unpackTo (assign : Node → Term → Emit Unit) (targets : List Node) (value : Term) :
    Emit Unit := do
  let (before, after) ← starredPlaces targets
  let t ← known value.type
  if t.isList || t.isTuple then unpackSized assign targets value before after
  else if t.isDict then
    let keys ← dictKeys value.value
    unpackSized assign targets ⟨some .python, keys⟩ before after
  else unpackIterable assign targets value before after

def assignTo (r : Recur) (node : Node) : Nat → Node → Term → Emit Unit
  | 0, _, _ => return ()
  | fuel + 1, target, value => do
    match target.form with
    | .tuple elts _ | .list elts _ => unpackTo (assignTo r node fuel) (← each elts) value
    | .name .. | .subscript .. | .memberOf .. =>
      requireTree
      setAssigned value
      r.visit target
    | _ =>
      requireTree
      reportAt "Incorrect target type encountered when unpacking " node

def unpack (r : Recur) (targets : List Node) (value : Term) (node : Node) : Emit Unit :=
  unpackTo (assignTo r node (Node.listDepth targets)) targets value

attribute [reducible] starredPlaces

end Lowering.Lower
